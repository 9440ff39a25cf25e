import FlowTour.MinCostFlow.PrimalDual
import FlowTour.Proofs.MinCostFlow.SearchEnd
import FlowTour.Proofs.Residual.Conservation
import Mathlib.Algebra.Order.BigOperators.Group.Finset
import Mathlib.Algebra.Order.Ring.Int

/-!
Potentials as certificates. A flow is a cheapest one among those with the same net outflows as soon
as no arc with capacity has a negative reduced cost. Lowering the potentials by the distances of a
search keeps it that way and leaves no reduced cost on the path to the sink, so the arcs that open up
behind an augmentation have none either.
-/

namespace FlowTour.MinCostFlow

open IntegerWeight Table Residual

variable {n m : Nat} {W : Type} [IntegerWeight W]

section Certificates

variable {network : Residual n m W} {prices : Fin n → Int}

/-- What the links cost that carry these amounts. -/
def linkCost (links : Vector (Link n W) m) (amount : Fin m → Int) : Int :=
  ∑ index, toInt (links.get index).cost * amount index

/-- A cost that is not negative has an opposite, so the cost of a reversed arc is exact. -/
theorem to_int_cost {arc : Arc m} (nonneg : 0 ≤ toInt (network.link arc).cost) :
    toInt (network.cost arc) = arc.sign * toInt (network.link arc).cost := by
  rw [Residual.cost, Arc.sign]
  split
  · rw [to_int_neg nonneg]
    omega
  · omega

theorem reduced_twin {arc : Arc m} (nonneg : 0 ≤ toInt (network.link arc).cost) :
    reduced network prices arc.twin = -reduced network prices arc := by
  have here : toInt (network.cost arc) = arc.sign * toInt (network.link arc).cost :=
    to_int_cost nonneg
  have there : toInt (network.cost arc.twin) = arc.twin.sign * toInt (network.link arc).cost :=
    to_int_cost nonneg
  rw [reduced, reduced, tail_twin, head_twin, here, there, Arc.sign_twin, neg_mul]
  omega

theorem reduced_congr {before after : Residual n m W} (linksEq : after.links = before.links)
    (arc : Arc m) : reduced after prices arc = reduced before prices arc := by
  simp only [reduced, Residual.cost, Residual.tail, Residual.head, Residual.link, linksEq]

theorem link_cost_sub_eq (links : Vector (Link n W) m) (prices : Fin n → Int)
    {first second : Fin m → Int}
    (same : ∀ node, netOutflow links first node = netOutflow links second node) :
    linkCost links first - linkCost links second =
      ∑ index, (toInt (links.get index).cost - prices (links.get index).tail +
        prices (links.get index).head) * (first index - second index) := by
  have balanced := net_outflow_add_mul links first second (-1)
  have priced := sum_mul_net_outflow links prices (fun index => first index + -1 * second index)
  have nothing : ∑ node, prices node *
      netOutflow links (fun index => first index + -1 * second index) node = 0 := by
    apply Finset.sum_eq_zero
    intro node _
    rw [balanced, same]
    ring
  rw [nothing] at priced
  rw [linkCost, linkCost, ← Finset.sum_sub_distrib, ← sub_eq_zero, ← Finset.sum_sub_distrib, priced]
  apply Finset.sum_congr rfl
  intro index _
  ring

theorem reduced_nonneg_of_room (sound : network.Sound)
    (nonneg : ∀ arc, network.hasCapacity arc = true → 0 ≤ reduced network prices arc) {index : Fin m}
    (room : ∀ capacity, (network.links.get index).capacity = some capacity →
      network.flow index < toInt capacity) : 0 ≤ reduced network prices ⟨index, false⟩ := by
  apply nonneg
  rw [sound.has_capacity_iff]
  simp only [Admits, Bool.false_eq_true, if_false]
  intro capacity limit
  have := room capacity limit
  omega

theorem reduced_nonpos_of_carries (sound : network.Sound)
    (nonneg : ∀ arc, network.hasCapacity arc = true → 0 ≤ reduced network prices arc) {index : Fin m}
    (cost : 0 ≤ toInt (network.links.get index).cost) (carries : 0 < network.flow index) :
    reduced network prices ⟨index, false⟩ ≤ 0 := by
  have opposite : reduced network prices (Arc.twin ⟨index, false⟩) =
      -reduced network prices ⟨index, false⟩ := reduced_twin cost
  have usable : network.hasCapacity (Arc.twin ⟨index, false⟩) = true := by
    rw [sound.has_capacity_iff]
    simp only [Admits, Arc.twin, Bool.not_false, if_true]
    omega
  have back := nonneg _ usable
  omega

/-- A flow without negative reduced costs on the arcs that have capacity is a cheapest one. -/
theorem link_cost_le (sound : network.Sound)
    (costs : ∀ index, 0 ≤ toInt (network.links.get index).cost)
    (nonneg : ∀ arc, network.hasCapacity arc = true → 0 ≤ reduced network prices arc)
    {other : Fin m → Int} (otherNonneg : ∀ index, 0 ≤ other index)
    (within : ∀ index capacity, (network.links.get index).capacity = some capacity →
      other index ≤ toInt capacity)
    (same : ∀ node, netOutflow network.links other node =
      netOutflow network.links network.flow node) :
    linkCost network.links network.flow ≤ linkCost network.links other := by
  rw [← sub_nonneg, link_cost_sub_eq network.links prices same]
  apply Finset.sum_nonneg
  intro index _
  have forward : toInt (network.links.get index).cost - prices (network.links.get index).tail +
      prices (network.links.get index).head = reduced network prices ⟨index, false⟩ := rfl
  rw [forward]
  rcases lt_trichotomy (other index) (network.flow index) with less | equal | more
  · have carries := (otherNonneg index).trans_lt less
    have cheap := reduced_nonpos_of_carries sound nonneg (costs index) carries
    exact mul_nonneg_of_nonpos_of_nonpos cheap (by omega)
  · rw [equal, sub_self, mul_zero]
  · have dear : 0 ≤ reduced network prices ⟨index, false⟩ := by
      apply reduced_nonneg_of_room sound nonneg
      intro capacity limit
      exact more.trans_le (within index capacity limit)
    exact mul_nonneg dear (by omega)

/-- When prices fall by no more at the head of an arc than at its tail and its reduced cost, and by
just that along a path, then no arc that has capacity after a push along the path gets a negative
reduced cost. -/
theorem reduced_nonneg_of_pushed {before after : Residual n m W} {path : List (Arc m)}
    {amount : Int} {prices lowering : Fin n → Int} (sound : before.Sound)
    (costs : ∀ arc, 0 ≤ toInt (before.link arc).cost) (pushed : Pushed before after path amount)
    (onPath : ∀ arc ∈ path, before.hasCapacity arc = true ∧
      lowering (before.head arc) = lowering (before.tail arc) + reduced before prices arc)
    (near : ∀ arc, before.hasCapacity arc = true →
      lowering (before.head arc) ≤ lowering (before.tail arc) + reduced before prices arc)
    {arc : Arc m} (capacity : after.hasCapacity arc = true) :
    0 ≤ reduced after (fun node => prices node - lowering node) arc := by
  have lowered : ∀ other, reduced before (fun node => prices node - lowering node) other =
      reduced before prices other + lowering (before.tail other) -
        lowering (before.head other) := by
    intro other
    rw [reduced, reduced]
    omega
  rw [reduced_congr pushed.links_eq]
  rcases pushed.had_capacity sound (fun other member => (onPath other member).1) capacity with
    already | reversed
  · have := near arc already
    rw [lowered]
    omega
  · -- The twin of an arc on the path has no reduced cost.
    have twin := (onPath _ reversed).2
    have opposite : reduced before (fun node => prices node - lowering node) arc.twin =
        -reduced before (fun node => prices node - lowering node) arc := reduced_twin (costs _)
    rw [lowered] at opposite
    omega

end Certificates

section Lowering

variable {network : Residual n m W} {potential next : Vector W n} {source sink node : Fin n}
  {labels : Vector (Option (Label m W)) n} {farthest : W}

omit [IntegerWeight W] in
theorem gather_eq_some {Value : Type} {value? : Fin n → Option Value} {values : Vector Value n}
    (found : gather value? = some values) (index : Fin n) :
    value? index = some (values.get index) := by
  unfold gather at found
  split at found
  · obtain rfl := Option.some.inj found
    rw [get_of_fn, Option.some_get]
  · cases found

def capped (labels : Vector (Option (Label m W)) n) (farthest : W) (node : Fin n) : Int :=
  toInt (cappedDistance labels farthest node)

theorem price_lower_potentials (found : lowerPotentials potential labels farthest = some next)
    (node : Fin n) : price next node = price potential node - capped labels farthest node :=
  try_sub_eq_some_iff.mp (gather_eq_some found node)

theorem capped_le (labels : Vector (Option (Label m W)) n) (farthest : W) (node : Fin n) :
    capped labels farthest node ≤ toInt farthest := by
  unfold capped cappedDistance
  split
  · exact le_rfl
  · split
    · next near => exact (lt_iff_to_int_lt.mp near.2).le
    · exact le_rfl

theorem capped_of_settled {distance : Int} (settled : SettledAt labels node distance)
    (near : distance ≤ toInt farthest) : capped labels farthest node = distance := by
  obtain ⟨label, found, isSettled, rfl⟩ := settled
  unfold capped cappedDistance
  rw [found]
  dsimp only
  split
  · rfl
  · next notNearer =>
    have notBelow : ¬label.distance < farthest := fun below => notNearer ⟨isSettled, below⟩
    rw [lt_iff_to_int_lt] at notBelow
    omega

theorem capped_of_unsettled (unsettled : isSettled labels node = false) :
    capped labels farthest node = toInt farthest := by
  unfold capped cappedDistance
  split
  · rfl
  · next label found =>
    rw [isSettled, found, Option.any_some] at unsettled
    rw [unsettled, if_neg (by simp)]

end Lowering

section Search

variable {network : Residual n m W} {charge : Arc m → Int} {source sink : Fin n}
  {rank : Fin n → Nat} {clock : Nat} {labels : Vector (Option (Label m W)) n}
  {offers : Heap (W × Fin n)} {farthest : W} {arc : Arc m}

theorem Anchored.capped_nonneg (anchored : Anchored source labels)
    (reached : SettledAt labels sink (toInt farthest)) (node : Fin n) :
    0 ≤ capped labels farthest node := by
  have far := anchored.nonneg sink _ reached.labelled_at
  unfold capped cappedDistance
  split
  · exact far
  · next label found =>
    split
    · exact anchored.nonneg node _ ⟨label, found, rfl⟩
    · exact far

theorem Explored.capped_le_of_labelled
    (explored : Explored network charge source sink rank clock [] ⟨labels, offers⟩)
    (reached : SettledAt labels sink (toInt farthest)) {node : Fin n} {distance : Int}
    (labelled : LabelledAt labels node distance) : capped labels farthest node ≤ distance := by
  obtain ⟨label, found, rfl⟩ := labelled
  cases settled : label.settled with
  | true =>
      have here : SettledAt labels node (toInt label.distance) := ⟨label, found, settled, rfl⟩
      have near := explored.grown.sink_last _ reached node _ here
      exact (capped_of_settled here near).le
  | false =>
      have offered := explored.offering.offered node label found settled
      have far := explored.offering.settled_le sink _ reached _ offered
      exact (capped_le labels farthest node).trans far

/-- Capped distances grow along an arc with capacity by no more than its reduced cost. -/
theorem Explored.capped_head_le
    (explored : Explored network charge source sink rank clock [] ⟨labels, offers⟩)
    (reached : SettledAt labels sink (toInt farthest)) (usable : network.hasCapacity arc = true)
    (nonneg : 0 ≤ charge arc) :
    capped labels farthest (network.head arc) ≤
      capped labels farthest (network.tail arc) + charge arc := by
  have headNear := capped_le labels farthest (network.head arc)
  by_cases isSink : network.tail arc = sink
  · rw [isSink, capped_of_settled reached le_rfl]
    omega
  cases settled : isSettled labels (network.tail arc) with
  | false =>
      rw [capped_of_unsettled settled]
      omega
  | true =>
      obtain ⟨distance, here⟩ := is_settled_iff.mp settled
      obtain ⟨nearer, near, labelled⟩ :=
        explored.grown.relaxed arc distance usable List.not_mem_nil isSink here
      have tailNear := explored.grown.sink_last _ reached _ _ here
      rw [capped_of_settled here tailNear]
      exact (explored.capped_le_of_labelled reached labelled).trans near

theorem Explored.capped_parent
    (explored : Explored network charge source sink rank clock [] ⟨labels, offers⟩)
    (reached : SettledAt labels sink (toInt farthest))
    (settled : isSettled labels (network.head arc) = true)
    (isParent : (labels.get (network.head arc)).bind Label.parent = some arc) :
    network.hasCapacity arc = true ∧ capped labels farthest (network.head arc) =
      capped labels farthest (network.tail arc) + charge arc := by
  obtain ⟨label, found, parent⟩ := Option.bind_eq_some_iff.mp isParent
  obtain ⟨-, usable, tailSettled, -⟩ := explored.grown.parented _ label arc found parent
  have headSettled : SettledAt labels (network.head arc) (toInt label.distance) := by
    refine ⟨label, found, ?_, rfl⟩
    simpa [isSettled, found] using settled
  have headNear := explored.grown.sink_last _ reached _ _ headSettled
  have tailNear := explored.grown.sink_last _ reached _ _ tailSettled
  rw [capped_of_settled headSettled headNear, capped_of_settled tailSettled tailNear]
  exact ⟨usable, by omega⟩

theorem Grown.rooted {waiting : List (Arc m)}
    (grown : Grown network charge source sink rank clock waiting labels) :
    Rooted network (fun node => (labels.get node).bind Label.parent) source
      (fun node => isSettled labels node = true) rank := by
  apply rooted_of_labels grown.parentless
  intro node label arc found isParent
  obtain ⟨ends, -, tailSettled, ranks⟩ := grown.parented node label arc found isParent
  exact ⟨ends, is_settled_iff.mpr ⟨_, tailSettled⟩, ranks⟩

end Search

end FlowTour.MinCostFlow
