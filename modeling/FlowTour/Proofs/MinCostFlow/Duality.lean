import FlowTour.Proofs.MinCostFlow.Optimality

/-!
The dual of a minimum-cost flow problem. Prices on the nodes turn the cost of amounts that meet a
supply into the supply at these prices and the amounts at reduced costs. An edge with a negative
reduced cost pays at most when it is full, so the supply at the prices and the full negative edges
bound every cost from below, and complementary slackness is what it takes to reach that bound.
-/

namespace FlowTour.MinCostFlow

open IntegerWeight

variable {N W : Type} [NodeKey N] [IntegerWeight W]

/-- The cost of an edge less the price of its source plus the price of its target. -/
def reducedAt (costs : Graph N W) (price : N → Int) (index : Fin costs.edgeCount) : Int :=
  toInt (costs.edge index).weight - price (costs.edge index).source +
    price (costs.edge index).target

def capacityAt (costs : Graph N W) (capacity : Option (Graph N W)) (index : Fin costs.edgeCount) :
    Option W :=
  edgeCapacity capacity (costs.edge index).source (costs.edge index).target

/-- The least an edge can cost at a reduced cost, if that is not negative on an unlimited edge. -/
def leastShare (capacity : Option W) (reduced : Int) : Int :=
  capacity.elim 0 fun limit => toInt limit * min 0 reduced

/-- The value of prices: what the supply costs at these prices, and the least that the edges cost at
their reduced costs. -/
def dualValue (costs : Graph N W) (supply : KeyedWeights N W) (capacity : Option (Graph N W))
    (price : N → Int) : Int :=
  ∑ node, toInt (supply.getD (costs.key node) 0) * price (costs.key node) +
    ∑ index, leastShare (capacityAt costs capacity index) (reducedAt costs price index)

/-- Complementary slackness on an edge. An empty edge that can carry something has no negative reduced
cost, a full one has no positive one, and one in between has none. -/
structure Complementary (capacity : Option W) (amount reduced : Int) : Prop where
  empty : (∀ limit, capacity = some limit → 0 < toInt limit) → amount = 0 → 0 ≤ reduced
  full : ∀ limit, capacity = some limit → 0 < toInt limit → amount = toInt limit → reduced ≤ 0
  between : 0 < amount → (∀ limit, capacity = some limit → amount < toInt limit) → reduced = 0

section Edge

variable {amount reduced other : Int} {limit : W} {capacity : Option W}

theorem complementary_none_iff : Complementary (none : Option W) amount reduced ↔
    (amount = 0 → 0 ≤ reduced) ∧ (0 < amount → reduced = 0) := by
  constructor
  · rintro ⟨empty, -, between⟩
    exact ⟨empty nofun, fun positive => between positive nofun⟩
  · rintro ⟨empty, between⟩
    exact ⟨fun _ => empty, nofun, fun positive _ => between positive⟩

theorem complementary_some_iff : Complementary (some limit) amount reduced ↔
    (0 < toInt limit → amount = 0 → 0 ≤ reduced) ∧
      (0 < toInt limit → amount = toInt limit → reduced ≤ 0) ∧
        (0 < amount → amount < toInt limit → reduced = 0) := by
  constructor
  · rintro ⟨empty, full, between⟩
    simp only [Option.some.injEq, forall_eq'] at empty full between
    exact ⟨empty, full, between⟩
  · rintro ⟨empty, full, between⟩
    constructor
    · simpa only [Option.some.injEq, forall_eq'] using empty
    · simpa only [Option.some.injEq, forall_eq'] using full
    · simpa only [Option.some.injEq, forall_eq'] using between

theorem least_share_le (nonneg : 0 ≤ amount)
    (within : ∀ limit, capacity = some limit → amount ≤ toInt limit)
    (dual : capacity = none → 0 ≤ reduced) : leastShare capacity reduced ≤ reduced * amount := by
  cases capacity with
  | none => exact mul_nonneg (dual rfl) nonneg
  | some limit =>
      have most := within limit rfl
      calc toInt limit * min 0 reduced
          ≤ amount * min 0 reduced := mul_le_mul_of_nonpos_right most (min_le_left 0 reduced)
        _ ≤ amount * reduced := mul_le_mul_of_nonneg_left (min_le_right 0 reduced) nonneg
        _ = reduced * amount := mul_comm _ _

theorem Complementary.mul_eq (slack : Complementary capacity amount reduced) (nonneg : 0 ≤ amount)
    (within : ∀ limit, capacity = some limit → amount ≤ toInt limit) :
    reduced * amount = leastShare capacity reduced := by
  cases capacity with
  | none =>
      rw [complementary_none_iff] at slack
      obtain zero | positive := nonneg.eq_or_lt
      · rw [← zero, mul_zero, leastShare, Option.elim_none]
      · rw [slack.2 positive, zero_mul, leastShare, Option.elim_none]
  | some limit =>
      have most := within limit rfl
      rw [complementary_some_iff] at slack
      obtain ⟨empty, full, between⟩ := slack
      rw [leastShare, Option.elim_some]
      obtain zero | positive := nonneg.eq_or_lt
      · obtain closed | opened := (nonneg.trans most).eq_or_lt
        · rw [← zero, ← closed, mul_zero, zero_mul]
        · rw [← zero, min_eq_left (empty opened zero.symm), mul_zero, mul_zero]
      · obtain less | same := most.lt_or_eq
        · rw [between positive less, min_self, zero_mul, mul_zero]
        · rw [min_eq_right (full (positive.trans_le most) same), same, mul_comm]

theorem Complementary.of_mul_eq
    (within : ∀ limit, capacity = some limit → amount ≤ toInt limit)
    (dual : capacity = none → 0 ≤ reduced)
    (least : reduced * amount = leastShare capacity reduced) :
    Complementary capacity amount reduced := by
  cases capacity with
  | none =>
      rw [leastShare, Option.elim_none, mul_eq_zero] at least
      rw [complementary_none_iff]
      refine ⟨fun _ => dual rfl, ?_⟩
      intro positive
      exact least.resolve_right positive.ne'
  | some limit =>
      have most := within limit rfl
      rw [leastShare, Option.elim_some] at least
      rw [complementary_some_iff]
      rcases le_or_gt 0 reduced with up | down
      · rw [min_eq_left up, mul_zero, mul_eq_zero] at least
        omega
      · -- What a negative edge has left over would still pay.
        rw [min_eq_right down.le, mul_comm reduced] at least
        have full := mul_right_cancel₀ down.ne least
        omega

theorem Complementary.reduced_nonneg (slack : Complementary (none : Option W) amount reduced)
    (nonneg : 0 ≤ amount) : 0 ≤ reduced := by
  rw [complementary_none_iff] at slack
  omega

end Edge

section Values

variable {costs : Graph N W} {supply : KeyedWeights N W} {capacity : Option (Graph N W)}
  {amount : Fin costs.edgeCount → Int}

theorem exact_cost_eq_add (price : N → Int) (amount : Fin costs.edgeCount → Int) :
    exactCost costs amount =
      ∑ node, price (costs.key node) *
          (costs.outflow amount (costs.key node) - costs.inflow amount (costs.key node)) +
        ∑ index, reducedAt costs price index * amount index := by
  simp only [mul_sub, Finset.sum_sub_distrib, Graph.sum_mul_outflow, Graph.sum_mul_inflow]
  rw [exactCost, ← Finset.sum_sub_distrib, ← Finset.sum_add_distrib]
  apply Finset.sum_congr rfl
  intro index _
  rw [reducedAt]
  ring

theorem Routes.exact_cost_eq (routes : Routes costs supply capacity amount) (price : N → Int) :
    exactCost costs amount =
      ∑ node, toInt (supply.getD (costs.key node) 0) * price (costs.key node) +
        ∑ index, reducedAt costs price index * amount index := by
  rw [exact_cost_eq_add price]
  apply congrArg (· + _)
  apply Finset.sum_congr rfl
  intro node _
  rw [routes.balanced _ (costs.key_mem node), mul_comm]

theorem Routes.le_capacity_at (routes : Routes costs supply capacity amount)
    (index : Fin costs.edgeCount) (limit : W) (found : capacityAt costs capacity index = some limit) :
    amount index ≤ toInt limit := by
  obtain ⟨graph, isGraph, rfl⟩ := Option.map_eq_some_iff.mp found
  exact routes.le_capacity graph isGraph index

/-- No way to route the supply costs less than the value of prices. -/
theorem Routes.dual_value_le (routes : Routes costs supply capacity amount) {price : N → Int}
    (dual : ∀ index, capacityAt costs capacity index = none → 0 ≤ reducedAt costs price index) :
    dualValue costs supply capacity price ≤ exactCost costs amount := by
  rw [routes.exact_cost_eq price, dualValue]
  apply add_le_add_right
  apply Finset.sum_le_sum
  intro index _
  exact least_share_le (routes.nonneg index) (routes.le_capacity_at index) (dual index)

theorem Routes.exact_cost_eq_dual_value (routes : Routes costs supply capacity amount)
    {price : N → Int} (slack : ∀ index, Complementary (capacityAt costs capacity index)
      (amount index) (reducedAt costs price index)) :
    exactCost costs amount = dualValue costs supply capacity price := by
  rw [routes.exact_cost_eq price, dualValue]
  apply congrArg (_ + ·)
  apply Finset.sum_congr rfl
  intro index _
  exact (slack index).mul_eq (routes.nonneg index) (routes.le_capacity_at index)

theorem Routes.complementary_of_exact_cost_eq (routes : Routes costs supply capacity amount)
    {price : N → Int}
    (dual : ∀ index, capacityAt costs capacity index = none → 0 ≤ reducedAt costs price index)
    (least : exactCost costs amount = dualValue costs supply capacity price)
    (index : Fin costs.edgeCount) :
    Complementary (capacityAt costs capacity index) (amount index)
      (reducedAt costs price index) := by
  rw [routes.exact_cost_eq price, dualValue] at least
  have shares : ∑ index, leastShare (capacityAt costs capacity index) (reducedAt costs price index) =
      ∑ index, reducedAt costs price index * amount index := (add_left_cancel least).symm
  have noMore : ∀ index ∈ Finset.univ, leastShare (capacityAt costs capacity index)
      (reducedAt costs price index) ≤ reducedAt costs price index * amount index := by
    intro index _
    exact least_share_le (routes.nonneg index) (routes.le_capacity_at index) (dual index)
  have same := (Finset.sum_eq_sum_iff_of_le noMore).mp shares index (Finset.mem_univ index)
  exact Complementary.of_mul_eq (routes.le_capacity_at index) (dual index) same.symm

theorem Routes.reduced_at_nonneg (routes : Routes costs supply capacity amount) {price : N → Int}
    (slack : ∀ index, Complementary (capacityAt costs capacity index) (amount index)
      (reducedAt costs price index)) (index : Fin costs.edgeCount)
    (unlimited : capacityAt costs capacity index = none) : 0 ≤ reducedAt costs price index := by
  have here := slack index
  rw [unlimited] at here
  exact here.reduced_nonneg (routes.nonneg index)

theorem Routes.exact_cost_le_of_complementary (routes : Routes costs supply capacity amount)
    {price : N → Int} (slack : ∀ index, Complementary (capacityAt costs capacity index)
      (amount index) (reducedAt costs price index))
    {other : Fin costs.edgeCount → Int} (alsoRoutes : Routes costs supply capacity other) :
    exactCost costs amount ≤ exactCost costs other := by
  rw [routes.exact_cost_eq_dual_value slack]
  exact alsoRoutes.dual_value_le (routes.reduced_at_nonneg slack)

end Values

end FlowTour.MinCostFlow
