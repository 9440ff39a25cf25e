import FlowTour.Proofs.MinCostFlow.Certificate
import FlowTour.Proofs.Weight.Range

/-!
Other flows at the potentials of a solution. They are an optimal dual solution, so whatever else meets
the supply at the same cost is complementary to them on every edge, and whatever costs more is not.
-/

namespace FlowTour.MinCostFlow

open IntegerWeight

variable {N W : Type} [NodeKey N] [IntegerWeight W]

theorem Certified.complementary_iff {costs : Graph N W} {supply : KeyedWeights N W}
    {capacity : Option (Graph N W)} {solution : Solution N W}
    (certified : Certified costs supply capacity solution) {amount : Fin costs.edgeCount → Int}
    (routes : Routes costs supply capacity amount) :
    (∀ index, Complementary (capacityAt costs capacity index) (amount index)
        (reducedAt costs (priceAt solution.potentials) index)) ↔
      exactCost costs amount = toInt solution.cost := by
  have value := certified.routes.exact_cost_eq_dual_value certified.complementary
  rw [certified.cost_eq, value]
  constructor
  · exact routes.exact_cost_eq_dual_value
  · exact routes.complementary_of_exact_cost_eq
      (certified.routes.reduced_at_nonneg certified.complementary)

/-- A flow that meets the supply passes the check with the potentials of a solution just when it is a
cheapest one, provided that the cost of each edge less the potential of its source fits. The reduced
cost itself then fits as well. -/
theorem complementary_slackness_iff_exact_cost_eq (costs : Graph N W) (supply : KeyedWeights N W)
    (capacity : Option (Graph N W)) (solution : Solution N W)
    (found : (primalDual costs supply capacity).outcome = .ok solution) (flow : Graph N W)
    (routes : Routes costs supply capacity (costs.amountsOn flow))
    (inRange : ∀ index, InRange W (toInt (costs.edge index).weight -
      priceAt solution.potentials (costs.edge index).source)) :
    complementarySlackness costs capacity flow solution.potentials = true ↔
      exactCost costs (costs.amountsOn flow) = toInt solution.cost := by
  have certified := primal_dual_certified found
  rw [routes.complementary_slackness_iff, ← certified.complementary_iff routes]
  apply forall_congr'
  intro index
  have computed : (reducedCost? solution.potentials (costs.edge index)).isSome = true := by
    rw [certified.reduced_cost?_is_some_iff, try_sub_is_some_iff]
    exact inRange index
  exact and_iff_right computed

/-- Two ways from 1 to 4 at the same cost, and a dearer one straight there. -/
def forks : Graph Int Int32 :=
  Graph.ofEdges [⟨1, 2, 1⟩, ⟨2, 4, 2⟩, ⟨1, 3, 2⟩, ⟨3, 4, 1⟩, ⟨1, 4, 4⟩]

def upperFork : Graph Int Int32 := Graph.ofEdges [⟨1, 2, 1⟩, ⟨2, 4, 1⟩]

def lowerFork : Graph Int Int32 := Graph.ofEdges [⟨1, 3, 1⟩, ⟨3, 4, 1⟩]

def straight : Graph Int Int32 := Graph.ofEdges [⟨1, 4, 1⟩]

def oneUnitAcross : KeyedWeights Int Int32 :=
  Std.TreeMap.ofList [((1 : Int), (1 : Int32)), (4, -1)]

theorem complementary_slackness_forks : ∃ solution : Solution Int Int32,
    (primalDual forks oneUnitAcross none).outcome = .ok solution ∧ solution.cost = 3 ∧
      (∀ flow ∈ [upperFork, lowerFork, straight],
        Routes forks oneUnitAcross none (forks.amountsOn flow)) ∧
      (∀ index, InRange Int32 (toInt (forks.edge index).weight -
        priceAt solution.potentials (forks.edge index).source)) ∧
      complementarySlackness forks none upperFork solution.potentials = true ∧
      complementarySlackness forks none lowerFork solution.potentials = true ∧
      complementarySlackness forks none straight solution.potentials = false := by
  have passed : (primalDual forks oneUnitAcross none).outcome.toOption.any (fun solution =>
      solution.cost = 3 ∧ ∀ index, InRange Int32 (toInt (forks.edge index).weight -
        priceAt solution.potentials (forks.edge index).source)) = true := by
    decide +kernel
  obtain ⟨solution, found, tested⟩ := Traced.exists_ok_of_any passed
  obtain ⟨cost, inRange⟩ := of_decide_eq_true tested
  have upper : Routes forks oneUnitAcross none (forks.amountsOn upperFork) :=
    ⟨by decide +kernel, nofun, by decide +kernel⟩
  have lower : Routes forks oneUnitAcross none (forks.amountsOn lowerFork) :=
    ⟨by decide +kernel, nofun, by decide +kernel⟩
  have dear : Routes forks oneUnitAcross none (forks.amountsOn straight) :=
    ⟨by decide +kernel, nofun, by decide +kernel⟩
  have meets : ∀ flow ∈ [upperFork, lowerFork, straight],
      Routes forks oneUnitAcross none (forks.amountsOn flow) := by
    simp only [List.forall_mem_cons]
    exact ⟨upper, lower, dear, by simp⟩
  refine ⟨solution, found, cost, meets, inRange, ?_, ?_, ?_⟩
  · rw [complementary_slackness_iff_exact_cost_eq forks oneUnitAcross none solution found upperFork
      upper inRange, cost]
    decide +kernel
  · rw [complementary_slackness_iff_exact_cost_eq forks oneUnitAcross none solution found lowerFork
      lower inRange, cost]
    decide +kernel
  · rw [← Bool.not_eq_true, complementary_slackness_iff_exact_cost_eq forks oneUnitAcross none
      solution found straight dear inRange, cost]
    decide +kernel

end FlowTour.MinCostFlow
