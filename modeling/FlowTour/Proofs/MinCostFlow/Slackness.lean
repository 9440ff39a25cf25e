import FlowTour.MinCostFlow.Slackness
import FlowTour.Proofs.MinCostFlow.Duality

/-!
What the check of complementary slackness says. On amounts that meet a supply it says that every
reduced cost can be computed and that every edge is complementary, so a flow that passes it is a
cheapest one, whatever the potentials are.
-/

namespace FlowTour.MinCostFlow

open IntegerWeight

variable {N W : Type} [NodeKey N] [IntegerWeight W]

/-- The potential of a node as a price, zero where there is none. -/
def priceAt (potentials : KeyedWeights N W) (node : N) : Int := toInt (potentials.getD node 0)

theorem to_int_reduced_cost? {potentials : KeyedWeights N W} {edge : Edge N W} {reduced : W}
    (found : reducedCost? potentials edge = some reduced) :
    toInt reduced = toInt edge.weight - priceAt potentials edge.source +
      priceAt potentials edge.target := by
  obtain ⟨atSource, sourceFound, rest⟩ := Option.bind_eq_some_iff.mp found
  obtain ⟨atTarget, targetFound, subtracting⟩ := Option.bind_eq_some_iff.mp rest
  obtain ⟨partway, lowered, raised⟩ := Option.bind_eq_some_iff.mp subtracting
  rw [priceAt, priceAt, Std.TreeMap.getD_eq_getD_getElem?, Std.TreeMap.getD_eq_getD_getElem?,
    sourceFound, targetFound, Option.getD_some, Option.getD_some, try_add_eq_some_iff.mp raised,
    try_sub_eq_some_iff.mp lowered]

theorem edge_is_slack_iff {capacity : Option W} {amount reduced : W} (nonneg : 0 ≤ toInt amount)
    (within : ∀ limit, capacity = some limit → toInt amount ≤ toInt limit) :
    edgeIsSlack capacity amount reduced = true ↔
      Complementary capacity (toInt amount) (toInt reduced) := by
  unfold edgeIsSlack
  cases capacity with
  | none =>
      rw [complementary_none_iff]
      simp only [Option.any_none, Bool.false_eq_true, if_false, beq_iff_to_int_eq, to_int_zero]
      split
      · next empty =>
        simp only [decide_eq_true_eq, le_iff_to_int_le, to_int_zero]
        omega
      · next carries =>
        rw [beq_iff_to_int_eq, to_int_zero]
        omega
  | some limit =>
      have most := within limit rfl
      rw [complementary_some_iff]
      simp only [Option.any_some, beq_iff_to_int_eq, decide_eq_true_eq, le_iff_to_int_le, to_int_zero]
      split
      · next closed => simp only [true_iff]; omega
      · next opened =>
        split
        · next empty =>
          simp only [decide_eq_true_eq]
          omega
        · next carries =>
          split
          · next full =>
            simp only [decide_eq_true_eq]
            omega
          · next between =>
            rw [beq_iff_to_int_eq, to_int_zero]
            omega

section Check

variable {costs flow : Graph N W} {supply : KeyedWeights N W} {capacity : Option (Graph N W)}
  {potentials : KeyedWeights N W}

theorem complementary_slackness_eq_true_iff :
    complementarySlackness costs capacity flow potentials = true ↔
      ∀ index, ∃ reduced, reducedCost? potentials (costs.edge index) = some reduced ∧
        edgeIsSlack (capacityAt costs capacity index)
          ((flow.weight? (costs.edge index).source (costs.edge index).target).getD 0) reduced =
            true := by
  rw [complementarySlackness, List.all_eq_true]
  constructor
  · intro all index
    have here := all _ (costs.edge_mem index)
    split at here
    · cases here
    · next reduced found => exact ⟨reduced, found, here⟩
  · intro all edge member
    obtain ⟨index, rfl⟩ := costs.exists_edge_eq member
    obtain ⟨reduced, found, isSlack⟩ := all index
    rw [found]
    exact isSlack

theorem Routes.complementary_slackness_iff
    (routes : Routes costs supply capacity (costs.amountsOn flow)) :
    complementarySlackness costs capacity flow potentials = true ↔
      ∀ index, (reducedCost? potentials (costs.edge index)).isSome = true ∧
        Complementary (capacityAt costs capacity index) (costs.amountsOn flow index)
          (reducedAt costs (priceAt potentials) index) := by
  rw [complementary_slackness_eq_true_iff]
  apply forall_congr'
  intro index
  have slack : ∀ reduced, reducedCost? potentials (costs.edge index) = some reduced →
      (edgeIsSlack (capacityAt costs capacity index)
          ((flow.weight? (costs.edge index).source (costs.edge index).target).getD 0) reduced =
            true ↔
        Complementary (capacityAt costs capacity index) (costs.amountsOn flow index)
          (reducedAt costs (priceAt potentials) index)) := by
    intro reduced found
    rw [edge_is_slack_iff (routes.nonneg index) (routes.le_capacity_at index),
      to_int_reduced_cost? found]
    rfl
  constructor
  · rintro ⟨reduced, found, isSlack⟩
    exact ⟨Option.isSome_iff_exists.mpr ⟨reduced, found⟩, (slack reduced found).mp isSlack⟩
  · rintro ⟨isSome, complementary⟩
    obtain ⟨reduced, found⟩ := Option.isSome_iff_exists.mp isSome
    exact ⟨reduced, found, (slack reduced found).mpr complementary⟩

end Check

theorem complementary_slackness_is_optimal (costs : Graph N W) (capacity : Option (Graph N W))
    (flow : Graph N W) (potentials supply : KeyedWeights N W)
    (checked : complementarySlackness costs capacity flow potentials = true)
    (routes : Routes costs supply capacity (costs.amountsOn flow))
    (other : Fin costs.edgeCount → Int) (alsoRoutes : Routes costs supply capacity other) :
    exactCost costs (costs.amountsOn flow) ≤ exactCost costs other := by
  have slack := routes.complementary_slackness_iff.mp checked
  exact routes.exact_cost_le_of_complementary (fun index => (slack index).2) alsoRoutes

/-- Two units from 1 to 4 that never meet. -/
def apart : Graph Int Int32 := Graph.ofEdges [⟨1, 2, 1⟩, ⟨2, 4, 1⟩, ⟨1, 3, 1⟩, ⟨3, 4, 1⟩]

def tollPotentials : KeyedWeights Int Int32 :=
  Std.TreeMap.ofList [((1 : Int), (0 : Int32)), (2, -4), (3, -5), (4, -10)]

theorem complementary_slackness_apart :
    complementarySlackness tolls (some singleLanes) apart tollPotentials = true ∧
      Routes tolls twoUnits (some singleLanes) (tolls.amountsOn apart) ∧
      ∀ other, Routes tolls twoUnits (some singleLanes) other →
        exactCost tolls (tolls.amountsOn apart) ≤ exactCost tolls other := by
  have checked : complementarySlackness tolls (some singleLanes) apart tollPotentials = true := by
    decide +kernel
  have routes : Routes tolls twoUnits (some singleLanes) (tolls.amountsOn apart) := by
    constructor
    · decide +kernel
    · intro graph isGraph
      obtain rfl := Option.some.inj isGraph
      decide +kernel
    · decide +kernel
  exact ⟨checked, routes, complementary_slackness_is_optimal tolls (some singleLanes) apart
    tollPotentials twoUnits checked routes⟩

end FlowTour.MinCostFlow
