import FlowTour.Proofs.MaximumFlow.SourceSide
import FlowTour.Proofs.MaximumFlow.Values
import Mathlib.Data.Int.LeastGreatest

/-!
When a maximum flow is missing. Between two nodes of a graph without negative capacities some flow has
the largest value, whatever the weights can tell apart. The run answers with that value if there is a
weight for it and fails otherwise. It never fails in a push: only the value is too large.
-/

namespace FlowTour.Graph

open IntegerWeight Residual MaximumFlow

variable {N W : Type} [NodeKey N] [IntegerWeight W] {graph : Graph N W} {source target : N}

def flowValues (graph : Graph N W) (source target : N) : Set Int :=
  {value | ∃ amount, graph.IsFlow source target amount ∧
    graph.outflow amount source - graph.inflow amount source = value}

theorem zero_mem_flow_values (nonneg : ∀ edge ∈ graph.edges, 0 ≤ toInt edge.weight) :
    0 ∈ graph.flowValues source target := by
  refine ⟨fun _ => 0, ⟨fun _ => le_rfl, fun index => nonneg _ (graph.edge_mem index), ?_⟩, ?_⟩
  · intro node _ _ _
    simp [inflow, outflow]
  · simp [inflow, outflow]

theorem exists_is_greatest_flow_values (sourceMem : source ∈ graph.nodes)
    (targetMem : target ∈ graph.nodes) (different : source ≠ target)
    (nonneg : ∀ edge ∈ graph.edges, 0 ≤ toInt edge.weight) :
    ∃ largest, IsGreatest (graph.flowValues source target) largest := by
  have alone : graph.IsSide source target {source} := by
    refine ⟨?_, Finset.mem_singleton_self source, ?_⟩
    · intro node member
      rwa [Finset.mem_singleton.mp member]
    · rw [Finset.mem_singleton]
      exact different.symm
  have bounded : ∀ value ∈ graph.flowValues source target, value ≤ graph.sideCapacity {source} := by
    rintro value ⟨amount, isFlow, rfl⟩
    exact alone.value_le (graph.key_index sourceMem) (graph.key_index targetMem) isFlow
  exact Int.exists_greatest_of_bdd ⟨_, bounded⟩ ⟨0, zero_mem_flow_values nonneg⟩

theorem is_greatest_maximum_flow {value : W} {flow : Graph N W}
    (found : (graph.maximumFlow source target).outcome = .ok (value, flow)) :
    IsGreatest (graph.flowValues source target) (toInt value) := by
  obtain ⟨start, final, solution, rfl, -⟩ := maximum_flow_eq_ok found
  obtain ⟨finish, solved⟩ := solve_eq_ok solution
  refine ⟨⟨final.network.flow, solved.is_flow, solved.value_eq⟩, ?_⟩
  rintro value ⟨amount, isFlow, rfl⟩
  exact solved.value_le isFlow

theorem maximum_flow_eq_overflow_iff (sourceMem : source ∈ graph.nodes)
    (targetMem : target ∈ graph.nodes) (different : source ≠ target)
    (nonneg : ∀ edge ∈ graph.edges, 0 ≤ toInt edge.weight) {largest : Int}
    (greatest : IsGreatest (graph.flowValues source target) largest) :
    (graph.maximumFlow source target).outcome = .error .arithmeticOverflow ↔
      ∀ weight : W, toInt weight < largest := by
  constructor
  · intro failed weight
    rcases maximum_flow_eq_error failed with refused | ⟨-, amount, isFlow, large⟩
    · rw [terminals_of_nonneg sourceMem targetMem different nonneg] at refused
      cases refused
    · exact (large weight).trans_le (greatest.2 ⟨amount, isFlow, rfl⟩)
  · intro tooLarge
    cases outcome : (graph.maximumFlow source target).outcome with
    | error failure =>
        rw [(exists_flow_of_error sourceMem targetMem different nonneg outcome).1]
    | ok answer =>
        obtain ⟨value, flow⟩ := answer
        have same := greatest.unique (is_greatest_maximum_flow outcome)
        exact absurd (tooLarge value) (same ▸ lt_irrefl _)

/-- Whether there is a maximum flow and a minimum cut, and that no push is to blame if there is not. -/
theorem maximum_flow_verdict (graph : Graph N W) (source target : N)
    (sourceMem : source ∈ graph.nodes) (targetMem : target ∈ graph.nodes)
    (different : source ≠ target) (nonneg : ∀ edge ∈ graph.edges, 0 ≤ toInt edge.weight) :
    ∃ largest, IsGreatest (graph.flowValues source target) largest ∧
      ((graph.maximumFlow source target).outcome = .error .arithmeticOverflow ↔
        ∀ weight : W, toInt weight < largest) ∧
      ((graph.minimumCut source target).outcome = .error .arithmeticOverflow ↔
        ∀ weight : W, toInt weight < largest) ∧
      ((∃ weight : W, largest ≤ toInt weight) → ∃ value flow cut,
        (graph.maximumFlow source target).outcome = .ok (value, flow) ∧ toInt value = largest ∧
          (graph.minimumCut source target).outcome = .ok cut) ∧
      ∀ state path amount,
        Traced.Passes (augment (graph.index source sourceMem) (graph.index target targetMem))
            ⟨Residual.ofLinks (MaximumFlow.links graph), 0, 0⟩ state →
          state.network.augmentingPath? (graph.index source sourceMem)
            (graph.index target targetMem) = some path →
          state.network.bottleneck path = some amount →
            ∃ after, ExactPushes amount path state.network after := by
  obtain ⟨largest, greatest⟩ :=
    exists_is_greatest_flow_values sourceMem targetMem different nonneg
  have overflows := maximum_flow_eq_overflow_iff sourceMem targetMem different nonneg greatest
  refine ⟨largest, greatest, overflows, minimum_cut_eq_error_iff.trans overflows, ?_, ?_⟩
  · rintro ⟨weight, large⟩
    cases outcome : (graph.maximumFlow source target).outcome with
    | error failure =>
        obtain rfl := (exists_flow_of_error sourceMem targetMem different nonneg outcome).1
        exact absurd (overflows.mp outcome weight) (not_lt.mpr large)
    | ok answer =>
        obtain ⟨value, flow⟩ := answer
        have same := (is_greatest_maximum_flow outcome).unique greatest
        cases cutOutcome : (graph.minimumCut source target).outcome with
        | error failure => cases (minimum_cut_eq_error_iff.mp cutOutcome).symm.trans outcome
        | ok cut => exact ⟨value, flow, cut, rfl, same, rfl⟩
  · intro state path amount passes found least
    have apart := graph.index_ne sourceMem targetMem different
    have flowing := passes.keeps
      (Flowing (MaximumFlow.links graph) (graph.index source sourceMem)
        (graph.index target targetMem))
      (fun _ _ flowing stepped => (flowing.augment apart stepped).1)
      (Flowing.initial links_capacity fun index => nonneg _ (graph.edge_mem index))
    exact flowing.exists_exact_pushes links_capacity found least

/-- Four nodes between which two roads lead, each within the range of the weights. -/
def wideRoads : Graph Int Int32 :=
  ofEdges [⟨1, 2, 2147483647⟩, ⟨2, 4, 2147483647⟩, ⟨1, 3, 1⟩, ⟨3, 4, 1⟩]

theorem maximum_flow_verdict_wide_roads :
    (1 : Int) ∈ wideRoads.nodes ∧ (4 : Int) ∈ wideRoads.nodes ∧
      (∀ edge ∈ wideRoads.edges, 0 ≤ toInt edge.weight) ∧
      (wideRoads.maximumFlow 1 4).outcome = .error .arithmeticOverflow ∧
      (wideRoads.minimumCut 1 4).outcome = .error .arithmeticOverflow ∧
      ∃ largest, IsGreatest (wideRoads.flowValues 1 4) largest ∧ 2147483647 < largest := by
  have sourceMem : (1 : Int) ∈ wideRoads.nodes := by decide +kernel
  have targetMem : (4 : Int) ∈ wideRoads.nodes := by decide +kernel
  have nonneg : ∀ edge ∈ wideRoads.edges, 0 ≤ toInt edge.weight := by decide +kernel
  have failed : (wideRoads.maximumFlow 1 4).outcome = .error .arithmeticOverflow := by
    decide +kernel
  obtain ⟨largest, greatest, flowFails, cutFails, -⟩ :=
    maximum_flow_verdict wideRoads 1 4 sourceMem targetMem (by decide) nonneg
  have tooLarge := flowFails.mp failed
  exact ⟨sourceMem, targetMem, nonneg, failed, cutFails.mpr tooLarge, largest, greatest,
    tooLarge 2147483647⟩

end FlowTour.Graph
