import FlowTour.Proofs.Graph.Rearranged
import FlowTour.Proofs.MaximumFlow.Overflow
import FlowTour.Proofs.MaximumFlow.SourceSide

/-!
The order in which a graph was put together. It decides which paths a run finds and which flow it ends
with, but neither which sets of nodes are source sides nor what they cost, so the value of the flow and
the cut are the same in every order, and so is the reason when there are none.
-/

namespace FlowTour

/-- The same reason, up to which of the negative weights is named. -/
inductive Failure.Alike {N W : Type} : Failure N W → Failure N W → Prop where
  | same (failure : Failure N W) : Alike failure failure
  | negative (role : WeightRole) (first second : Edge N W) :
      Alike (.negativeWeight role first) (.negativeWeight role second)

theorem Failure.Alike.symm {N W : Type} {failure other : Failure N W} (alike : failure.Alike other) :
    other.Alike failure := by
  cases alike with
  | same => exact .same failure
  | negative role first second => exact .negative role second first

namespace Graph

open IntegerWeight Residual MaximumFlow

variable {N W : Type} [NodeKey N] [IntegerWeight W] {first second : Graph N W} {source target : N}

namespace Rearranged

variable (rearranged : first.Rearranged second)
include rearranged

theorem side_capacity_eq (side : Finset N) : first.sideCapacity side = second.sideCapacity side :=
  (rearranged.edges_perm.map _).sum_eq

omit [IntegerWeight W] in
theorem is_side {side : Finset N} (isSide : first.IsSide source target side) :
    second.IsSide source target side where
  within node member := (rearranged.mem_nodes_iff node).mp (isSide.within node member)
  source_mem := isSide.source_mem
  target_not_mem := isSide.target_not_mem

theorem is_minimum_side {side : Finset N} (minimum : first.IsMinimumSide source target side) :
    second.IsMinimumSide source target side where
  toIsSide := rearranged.is_side minimum.toIsSide
  least other isSide := by
    rw [← rearranged.side_capacity_eq, ← rearranged.side_capacity_eq]
    exact minimum.least other (rearranged.symm.is_side isSide)

theorem in_core_iff {node : N} :
    first.InCore source target node ↔ second.InCore source target node := by
  constructor
  · intro inCore side minimum
    exact inCore side (rearranged.symm.is_minimum_side minimum)
  · intro inCore side minimum
    exact inCore side (rearranged.is_minimum_side minimum)

theorem value_le {start finish : Fin second.nodeCount}
    {final : State second.nodeCount second.edgeCount W}
    (solved : Solved second source target start finish final)
    {amount : Fin first.edgeCount → Int} (isFlow : first.IsFlow source target amount) :
    first.outflow amount source - first.inflow amount source ≤ toInt final.value := by
  have isSide := rearranged.symm.is_side (is_side_reached_side solved)
  have sourceMem := isSide.within source isSide.source_mem
  have targetMem : target ∈ first.nodes := by
    rw [rearranged.mem_nodes_iff, ← solved.finish_key]
    exact second.key_mem finish
  have bound := isSide.value_le (first.key_index sourceMem) (first.key_index targetMem) isFlow
  rwa [rearranged.side_capacity_eq, side_capacity_reached_side solved] at bound

theorem value_eq {value other : W} {flow otherFlow : Graph N W}
    (here : (first.maximumFlow source target).outcome = .ok (value, flow))
    (there : (second.maximumFlow source target).outcome = .ok (other, otherFlow)) :
    value = other := by
  obtain ⟨start, final, solution, rfl, -⟩ := maximum_flow_eq_ok here
  obtain ⟨otherStart, otherFinal, otherSolution, rfl, -⟩ := maximum_flow_eq_ok there
  obtain ⟨finish, solved⟩ := solve_eq_ok solution
  obtain ⟨otherFinish, otherSolved⟩ := solve_eq_ok otherSolution
  have minimum := (is_minimum_side_iff solved).mpr
    ⟨is_side_reached_side solved, side_capacity_reached_side solved⟩
  have alsoMinimum := (is_minimum_side_iff otherSolved).mp (rearranged.is_minimum_side minimum)
  apply to_int_injective
  rw [← side_capacity_reached_side solved, rearranged.side_capacity_eq]
  exact alsoMinimum.2

theorem refuse_negative_eq_error {role : WeightRole} {failure : Failure N W}
    (refused : first.refuseNegative role = .error failure) :
    ∃ other, second.refuseNegative role = .error other ∧ failure.Alike other := by
  obtain ⟨edge, -, rfl⟩ := Graph.refuse_negative_eq_error refused
  cases there : second.refuseNegative (W := W) role with
  | ok done =>
      have nonneg := second.refuse_negative_eq_ok_iff.mp there
      have accepted : first.refuseNegative role = .ok () := first.refuse_negative_eq_ok_iff.mpr
        fun other member => nonneg other (rearranged.edges_perm.mem_iff.mp member)
      cases refused.symm.trans accepted
  | error other =>
      obtain ⟨otherEdge, -, rfl⟩ := Graph.refuse_negative_eq_error there
      exact ⟨_, rfl, .negative role edge otherEdge⟩

theorem terminals_eq_error {failure : Failure N W}
    (refused : terminals first source target = .error failure) :
    ∃ other, terminals second source target = .error other ∧ failure.Alike other := by
  have sourceIff := rearranged.mem_nodes_iff source
  have targetIff := rearranged.mem_nodes_iff target
  by_cases known : source ∈ first.nodes
  case neg =>
    rw [terminals_of_unknown_source known] at refused
    obtain rfl := Except.error.inj refused
    exact ⟨_, terminals_of_unknown_source (mt sourceIff.mpr known), .same _⟩
  by_cases alsoKnown : target ∈ first.nodes
  case neg =>
    rw [terminals_of_unknown_target known alsoKnown] at refused
    obtain rfl := Except.error.inj refused
    exact ⟨_, terminals_of_unknown_target (sourceIff.mp known) (mt targetIff.mpr alsoKnown), .same _⟩
  by_cases different : source = target
  case pos =>
    subst different
    rw [terminals_of_same known] at refused
    obtain rfl := Except.error.inj refused
    exact ⟨_, terminals_of_same (sourceIff.mp known), .same _⟩
  rw [terminals_of_different known alsoKnown different] at refused
  rw [terminals_of_different (sourceIff.mp known) (targetIff.mp alsoKnown) different]
  cases here : first.refuseNegative (W := W) .capacity with
  | ok done =>
      rw [here] at refused
      cases refused
  | error cause =>
      rw [here] at refused
      obtain rfl := Except.error.inj refused
      obtain ⟨other, alsoRefused, alike⟩ := rearranged.refuse_negative_eq_error here
      exact ⟨other, by rw [alsoRefused]; rfl, alike⟩

theorem maximum_flow_eq_error {failure : Failure N W}
    (failed : (first.maximumFlow source target).outcome = .error failure) :
    ∃ other, (second.maximumFlow source target).outcome = .error other ∧ failure.Alike other := by
  rcases MaximumFlow.maximum_flow_eq_error failed with refused | ⟨rfl, amount, isFlow, large⟩
  · obtain ⟨other, alsoRefused, alike⟩ := rearranged.terminals_eq_error refused
    exact ⟨other, maximum_flow_of_refused alsoRefused, alike⟩
  cases there : (second.maximumFlow source target).outcome with
  | ok answer =>
      obtain ⟨value, flow⟩ := answer
      obtain ⟨start, final, solution, -, -⟩ := maximum_flow_eq_ok there
      obtain ⟨finish, solved⟩ := solve_eq_ok solution
      -- The cut there bounds the flow here, but that is larger than every weight.
      have bound := rearranged.value_le solved isFlow
      have above := large final.value
      omega
  | error other =>
      refine ⟨other, rfl, ?_⟩
      rcases MaximumFlow.maximum_flow_eq_error there with refused | ⟨rfl, -⟩
      · obtain ⟨back, alsoRefused, alike⟩ := rearranged.symm.terminals_eq_error refused
        cases failed.symm.trans (maximum_flow_of_refused alsoRefused)
        exact alike.symm
      · exact .same _

end Rearranged

theorem exists_minimum_cut {graph : Graph N W} {answer : W × Graph N W}
    (found : (graph.maximumFlow source target).outcome = .ok answer) :
    ∃ cut, (graph.minimumCut source target).outcome = .ok cut := by
  cases outcome : (graph.minimumCut source target).outcome with
  | error failure => cases found.symm.trans (minimum_cut_eq_error_iff.mp outcome)
  | ok cut => exact ⟨cut, rfl⟩

theorem maximum_flow_rearranged (first second : Graph N W) (rearranged : first.Rearranged second)
    (source target : N) :
    (∃ value firstFlow secondFlow firstCut secondCut,
      (first.maximumFlow source target).outcome = .ok (value, firstFlow) ∧
      (second.maximumFlow source target).outcome = .ok (value, secondFlow) ∧
      (first.minimumCut source target).outcome = .ok firstCut ∧
      (second.minimumCut source target).outcome = .ok secondCut ∧
      (∀ pair, pair ∈ firstCut ↔ pair ∈ secondCut) ∧
      ∀ pair, pair ∈ firstCut ↔ (first.weight? pair.1 pair.2).isSome = true ∧
        first.InCore source target pair.1 ∧ ¬first.InCore source target pair.2) ∨
    ∃ failure other, failure.Alike other ∧
      (first.maximumFlow source target).outcome = .error failure ∧
      (second.maximumFlow source target).outcome = .error other ∧
      (first.minimumCut source target).outcome = .error failure ∧
      (second.minimumCut source target).outcome = .error other := by
  cases here : (first.maximumFlow source target).outcome with
  | error failure =>
      obtain ⟨other, there, alike⟩ := rearranged.maximum_flow_eq_error here
      exact .inr ⟨failure, other, alike, rfl, there, minimum_cut_eq_error_iff.mpr here,
        minimum_cut_eq_error_iff.mpr there⟩
  | ok answer =>
      cases there : (second.maximumFlow source target).outcome with
      | error failure =>
          obtain ⟨other, missing, -⟩ := rearranged.symm.maximum_flow_eq_error there
          cases here.symm.trans missing
      | ok otherAnswer =>
          obtain ⟨value, firstFlow⟩ := answer
          obtain ⟨otherValue, secondFlow⟩ := otherAnswer
          obtain ⟨firstCut, cutHere⟩ := exists_minimum_cut here
          obtain ⟨secondCut, cutThere⟩ := exists_minimum_cut there
          obtain rfl := rearranged.value_eq here there
          refine .inl ⟨value, firstFlow, secondFlow, firstCut, secondCut, rfl, rfl, cutHere, cutThere,
            ?_, fun pair => mem_minimum_cut_iff cutHere⟩
          intro pair
          rw [mem_minimum_cut_iff cutHere, mem_minimum_cut_iff cutThere, rearranged.weight?_eq,
            rearranged.in_core_iff, rearranged.in_core_iff]

/-- Two ways of equal length lead on from the node 2, and the one met first is taken. The edge into that
node is a minimum cut, and so is the edge out of the node 5. -/
def forked : Graph Int Int32 :=
  ofEdges [⟨1, 2, 1⟩, ⟨2, 3, 1⟩, ⟨2, 4, 1⟩, ⟨3, 5, 1⟩, ⟨4, 5, 1⟩, ⟨5, 6, 1⟩]

def forkedBackwards : Graph Int Int32 :=
  ofEdges [⟨5, 6, 1⟩, ⟨4, 5, 1⟩, ⟨3, 5, 1⟩, ⟨2, 4, 1⟩, ⟨2, 3, 1⟩, ⟨1, 2, 1⟩]

theorem maximum_flow_rearranged_forked : ∃ flow otherFlow cut otherCut,
    (forked.maximumFlow 1 6).outcome = .ok (1, flow) ∧
    (forkedBackwards.maximumFlow 1 6).outcome = .ok (1, otherFlow) ∧
    flow.weight? 2 3 = some 1 ∧ otherFlow.weight? 2 3 = some 0 ∧
    (forked.minimumCut 1 6).outcome = .ok cut ∧
    (forkedBackwards.minimumCut 1 6).outcome = .ok otherCut ∧
    cut.toList = [(1, 2)] ∧ (∀ pair, pair ∈ cut ↔ pair ∈ otherCut) ∧
    forked.InCore 1 6 1 ∧ ¬forked.InCore 1 6 2 := by
  have rearranged : forked.Rearranged forkedBackwards := by decide +kernel
  have answer : (forked.maximumFlow 1 6).outcome.toOption.map
      (fun answer => (answer.1, answer.2.weight? 2 3)) = some (1, some 1) := by
    decide +kernel
  have otherAnswer : (forkedBackwards.maximumFlow 1 6).outcome.toOption.map
      (fun answer => (answer.1, answer.2.weight? 2 3)) = some (1, some 0) := by
    decide +kernel
  have listed : (forked.minimumCut 1 6).outcome.toOption.map Std.TreeSet.toList = some [(1, 2)] := by
    decide +kernel
  rcases maximum_flow_rearranged forked forkedBackwards rearranged 1 6 with
    ⟨value, flow, otherFlow, cut, otherCut, here, there, cutHere, cutThere, samePairs, inCut⟩ |
    ⟨failure, -, -, failed, -⟩
  · rw [here] at answer
    rw [there] at otherAnswer
    rw [cutHere] at listed
    obtain ⟨rfl, carried⟩ : value = 1 ∧ flow.weight? 2 3 = some 1 := by
      simpa [Except.toOption] using answer
    have otherCarried : otherFlow.weight? 2 3 = some 0 := by
      simpa [Except.toOption] using otherAnswer
    have pairs : cut.toList = [(1, 2)] := by simpa [Except.toOption] using listed
    have member : ((1, 2) : Int × Int) ∈ cut := by simp [← Std.TreeSet.mem_toList, pairs]
    exact ⟨flow, otherFlow, cut, otherCut, here, there, carried, otherCarried, cutHere, cutThere,
      pairs, samePairs, ((inCut _).mp member).2⟩
  · simp [failed, Except.toOption] at answer

end Graph

end FlowTour
