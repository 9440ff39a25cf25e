import FlowTour.Graph.Building
import FlowTour.Proofs.Graph.Walk
import FlowTour.Proofs.MaximumFlow.Solution
import Mathlib.Algebra.BigOperators.Fin

/-!
Maximum flows and minimum cuts. The reported amounts are a flow of the reported value and no flow
within the capacities has a larger one; the reported edges cut every walk between the terminals, have
that value as their capacity, and no set of edges that cuts every walk has a smaller one.
-/

namespace FlowTour.Graph

open IntegerWeight Residual MaximumFlow

variable {N W : Type} [NodeKey N] [IntegerWeight W] {graph : Graph N W} {source target : N}

theorem maximum_flow_is_maximum (graph : Graph N W) (source target : N) (value : W)
    (flow : Graph N W) (found : (graph.maximumFlow source target).outcome = .ok (value, flow)) :
    flow.nodes = graph.nodes ∧ flow.edges.map Edge.ends = graph.edges.map Edge.ends ∧
      graph.IsFlow source target (graph.amountsOn flow) ∧
      (∀ index, (graph.edge index).target = source ∨ (graph.edge index).source = target →
        graph.amountsOn flow index = 0) ∧
      graph.outflow (graph.amountsOn flow) source = toInt value ∧
      graph.inflow (graph.amountsOn flow) target = toInt value ∧
      ∀ other, graph.IsFlow source target other →
        graph.outflow other source - graph.inflow other source ≤ toInt value := by
  obtain ⟨start, final, solution, rfl, rfl⟩ := maximum_flow_eq_ok found
  obtain ⟨finish, solved⟩ := solve_eq_ok solution
  have amounts : graph.amountsOn (graph.reweight fun index => final.network.sent.get index) =
      final.network.flow := by
    funext index
    exact amounts_on_reweight _ index
  rw [amounts]
  refine ⟨rfl, graph.map_ends_reweight _, solved.is_flow, ?_, solved.outflow_source,
    solved.inflow_target, fun other => solved.value_le⟩
  rintro index (intoSource | outOfTarget)
  · apply solved.flowing.into_source
    rw [links_head, target_index_eq_iff, solved.start_key, intoSource]
  · apply solved.flowing.out_of_target
    rw [links_tail, source_index_eq_iff, solved.finish_key, outOfTarget]

/-- Eight nodes between which the second augmentation takes back what the first one sent from 2 to 3;
one edge leads into the source 1 and one out of the target 4. -/
def detours : Graph Int Int32 :=
  ofEdges [⟨1, 2, 1⟩, ⟨2, 3, 1⟩, ⟨3, 4, 1⟩, ⟨1, 5, 1⟩, ⟨5, 6, 1⟩, ⟨6, 3, 1⟩, ⟨2, 7, 1⟩, ⟨7, 8, 1⟩,
    ⟨8, 4, 1⟩, ⟨2, 1, 3⟩, ⟨4, 3, 2⟩]

theorem maximum_flow_detours : ∃ flow : Graph Int Int32,
    (detours.maximumFlow 1 4).outcome = .ok (2, flow) ∧
      detours.outflow (detours.amountsOn flow) 1 = 2 ∧
      ∀ other, detours.IsFlow 1 4 other → detours.outflow other 1 - detours.inflow other 1 ≤ 2 := by
  have value : (detours.maximumFlow 1 4).outcome.toOption.map Prod.fst = some 2 := by
    decide +kernel
  cases outcome : (detours.maximumFlow 1 4).outcome with
  | error failure => simp [outcome, Except.toOption] at value
  | ok result =>
      obtain ⟨found, flow⟩ := result
      obtain rfl : found = 2 := by simpa [outcome, Except.toOption] using value
      obtain ⟨-, -, -, -, leaving, -, most⟩ := maximum_flow_is_maximum detours 1 4 2 flow outcome
      exact ⟨flow, rfl, leaving, most⟩

section Cut

/-- The capacity of a set of connections, summed over the set. -/
def cutCapacity (graph : Graph N W) (cut : Std.TreeSet (N × N)) : Int :=
  (cut.toList.map fun pair => toInt ((graph.weight? pair.1 pair.2).getD 0)).sum

theorem minimum_cut_eq_ok {cut : Std.TreeSet (N × N)}
    (found : (graph.minimumCut source target).outcome = .ok cut) :
    ∃ start final, (solve graph source target).outcome = .ok (start, final) ∧
      ∀ pair, pair ∈ cut ↔
        ∃ index ∈ crossing (MaximumFlow.links graph) (final.network.reachedFrom start),
          (graph.edge index).ends = pair := by
  obtain ⟨⟨start, final⟩, solved, last⟩ := Traced.bind_eq_ok_iff.mp found
  refine ⟨start, final, solved, ?_⟩
  intro pair
  rw [← Except.ok.inj last, Std.TreeSet.mem_ofList, List.contains_iff_mem, List.mem_map]
  simp only [List.mem_filter, List.mem_finRange, true_and, Bool.and_eq_true, Bool.not_eq_true',
    ← Bool.not_eq_true, breadth_first_is_seen_iff, mem_crossing, mem_reached_from, links_tail,
    links_head]

theorem minimum_cut_eq_error_iff {failure : Failure N W} :
    (graph.minimumCut source target).outcome = .error failure ↔
      (graph.maximumFlow source target).outcome = .error failure := by
  unfold minimumCut maximumFlow
  cases outcome : (solve graph source target).outcome with
  | error cause => simp [outcome, Except.bind]
  | ok solution => simp [outcome, Except.bind]

theorem cut_capacity_eq_sum {cut : Std.TreeSet (N × N)} {chosen : Finset (Fin graph.edgeCount)}
    (mem_cut : ∀ pair, pair ∈ cut ↔ ∃ index ∈ chosen, (graph.edge index).ends = pair) :
    graph.cutCapacity cut = ∑ index ∈ chosen, toInt (graph.edge index).weight := by
  have listed : cut.toList.Perm (chosen.toList.map fun index => (graph.edge index).ends) := by
    apply (List.perm_ext_iff_of_nodup ?_ ?_).mpr
    · intro pair
      rw [Std.TreeSet.mem_toList, mem_cut]
      simp
    · apply Std.TreeSet.distinct_toList.imp
      rintro first second apart rfl
      exact apart Std.ReflCmp.compare_self
    · apply chosen.nodup_toList.map
      intro first second same
      exact graph.eq_of_ends_eq same
  rw [cutCapacity, (listed.map _).sum_eq, List.map_map, ← Finset.sum_map_toList]
  apply congrArg List.sum
  apply List.map_congr_left
  intro index _
  exact graph.amounts_on_self index

open Classical in
/-- The nodes that walks from a node reach without some edges. -/
noncomputable def sideAvoiding (graph : Graph N W) (avoided : Finset (Fin graph.edgeCount))
    (source : N) : Finset (Fin graph.nodeCount) :=
  Finset.univ.filter fun node => graph.ReachedAvoiding avoided source (graph.key node)

omit [IntegerWeight W] in
theorem mem_side_avoiding {avoided : Finset (Fin graph.edgeCount)} {node : Fin graph.nodeCount} :
    node ∈ graph.sideAvoiding avoided source ↔
      graph.ReachedAvoiding avoided source (graph.key node) := by
  simp [sideAvoiding]

theorem value_le_sum_of_meets {start finish : Fin graph.nodeCount}
    {final : State graph.nodeCount graph.edgeCount W}
    (solved : Solved graph source target start finish final)
    {chosen : Finset (Fin graph.edgeCount)}
    (meets : ∀ walk, graph.IsWalk source target walk → walk.Nodup →
      ∃ index ∈ chosen, (graph.edge index).ends ∈ steps walk) :
    toInt final.value ≤ ∑ index ∈ chosen, toInt (graph.edge index).weight := by
  have inside : start ∈ graph.sideAvoiding chosen source := by
    rw [mem_side_avoiding, solved.start_key]
    exact reached_avoiding_self chosen source
  have outside : finish ∉ graph.sideAvoiding chosen source := by
    rw [mem_side_avoiding, solved.finish_key]
    rintro ⟨walk, isWalk, distinct, free⟩
    obtain ⟨index, member, used⟩ := meets walk isWalk distinct
    exact free index member used
  have leaving : crossing (MaximumFlow.links graph) (graph.sideAvoiding chosen source) ⊆ chosen := by
    intro index crosses
    rw [mem_crossing, links_tail, links_head, mem_side_avoiding, mem_side_avoiding, key_source_index,
      key_target_index] at crosses
    by_contra kept
    exact crosses.2 (crosses.1.step kept)
  have isFlow := solved.is_flow
  calc toInt final.value
      = netOutflow (MaximumFlow.links graph) final.network.flow start :=
        solved.flowing.value_eq.symm
    _ ≤ ∑ index ∈ crossing (MaximumFlow.links graph) (graph.sideAvoiding chosen source),
          final.network.flow index :=
        net_outflow_le_crossing solved.flowing.conserved inside outside isFlow.nonneg
    _ ≤ ∑ index ∈ crossing (MaximumFlow.links graph) (graph.sideAvoiding chosen source),
          toInt (graph.edge index).weight :=
        Finset.sum_le_sum fun index _ => isFlow.le_capacity index
    _ ≤ ∑ index ∈ chosen, toInt (graph.edge index).weight :=
        Finset.sum_le_sum_of_subset_of_nonneg leaving fun index _ _ => solved.nonneg index

theorem minimum_cut_is_minimum (graph : Graph N W) (source target : N) :
    (∀ failure, (graph.minimumCut source target).outcome = .error failure ↔
      (graph.maximumFlow source target).outcome = .error failure) ∧
    ∀ cut, (graph.minimumCut source target).outcome = .ok cut →
      ∃ value flow, (graph.maximumFlow source target).outcome = .ok (value, flow) ∧
        (∀ pair ∈ cut, (graph.weight? pair.1 pair.2).isSome = true) ∧
        (∀ walk, graph.IsWalk source target walk → ∃ step ∈ steps walk, step ∈ cut) ∧
        graph.cutCapacity cut = toInt value ∧
        ∀ chosen : Finset (Fin graph.edgeCount),
          (∀ walk, graph.IsWalk source target walk → walk.Nodup →
            ∃ index ∈ chosen, (graph.edge index).ends ∈ steps walk) →
          toInt value ≤ ∑ index ∈ chosen, toInt (graph.edge index).weight := by
  refine ⟨fun failure => minimum_cut_eq_error_iff, ?_⟩
  intro cut found
  obtain ⟨start, final, solution, mem_cut⟩ := minimum_cut_eq_ok found
  obtain ⟨finish, solved⟩ := solve_eq_ok solution
  have flow : (graph.maximumFlow source target).outcome =
      .ok (final.value, graph.reweight fun index => final.network.sent.get index) := by
    simp [maximumFlow, solution, Except.bind]
  refine ⟨final.value, _, flow, ?_, ?_, ?_, fun chosen => value_le_sum_of_meets solved⟩
  · intro pair member
    obtain ⟨index, -, rfl⟩ := (mem_cut pair).mp member
    exact Option.isSome_iff_exists.mpr ⟨_, graph.weight?_edge index⟩
  · intro walk isWalk
    have leaves := exists_leaving_step
      (fun node => ∃ index, graph.key index = node ∧ final.network.Reaches start index)
      isWalk.head isWalk.last ⟨start, solved.start_key, reaches_self _ _⟩ ?_
    · obtain ⟨step, member, ⟨tail, tailKey, reached⟩, beyond⟩ := leaves
      obtain ⟨index, same⟩ := exists_edge_of_is_some (isWalk.joined step member)
      refine ⟨step, member, (mem_cut step).mpr ⟨index, ?_, same⟩⟩
      rw [mem_crossing, links_tail, links_head, mem_reached_from, mem_reached_from]
      have tailEq : graph.sourceIndex index = tail := by
        rw [source_index_eq_iff, tailKey, ← same]
        rfl
      refine ⟨tailEq ▸ reached, ?_⟩
      intro further
      exact beyond ⟨graph.targetIndex index, by rw [key_target_index, ← same]; rfl, further⟩
    · rintro ⟨index, key, reached⟩
      rw [← solved.finish_key] at key
      exact solved.unreachable (graph.key_injective key ▸ reached)
  · rw [cut_capacity_eq_sum mem_cut, solved.value_eq_crossing]

theorem minimum_cut_detours : ∃ cut, (detours.minimumCut 1 4).outcome = .ok cut ∧
    cut.toList = [(1, 2), (1, 5)] ∧ detours.cutCapacity cut = 2 := by
  have listed : (detours.minimumCut 1 4).outcome.toOption.map Std.TreeSet.toList =
      some [(1, 2), (1, 5)] := by
    decide +kernel
  have flowValue : (detours.maximumFlow 1 4).outcome.toOption.map Prod.fst = some 2 := by
    decide +kernel
  cases outcome : (detours.minimumCut 1 4).outcome with
  | error failure => simp [outcome, Except.toOption] at listed
  | ok cut =>
      have edges : cut.toList = [(1, 2), (1, 5)] := by
        simpa [outcome, Except.toOption] using listed
      obtain ⟨value, flow, found, -, -, capacity, -⟩ :=
        (minimum_cut_is_minimum detours 1 4).2 cut outcome
      obtain rfl : value = 2 := by simpa [found, Except.toOption] using flowValue
      exact ⟨cut, rfl, edges, capacity⟩

end Cut

end FlowTour.Graph
