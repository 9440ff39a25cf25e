import FlowTour.Proofs.Graph.Amounts
import FlowTour.Proofs.MaximumFlow.Saturation

/-!
What a maximum flow is. The amounts reported for the edges form a flow within the capacities whose
value is the reported one, nothing flows into the source or out of the target, and no flow within
the capacities has a larger value.
-/

namespace FlowTour

open IntegerWeight Residual

variable {N W : Type} [NodeKey N] [IntegerWeight W]

/-- Amounts within the capacities that every node but the two terminals passes on. -/
structure Graph.IsFlow (graph : Graph N W) (source target : N)
    (amount : Fin graph.edgeCount → Int) : Prop where
  nonneg : ∀ index, 0 ≤ amount index
  le_capacity : ∀ index, amount index ≤ toInt (graph.edge index).weight
  conserved : ∀ node ∈ graph.nodes, node ≠ source → node ≠ target →
    graph.inflow amount node = graph.outflow amount node

namespace MaximumFlow

variable {graph : Graph N W} {source target : N}

@[simp] theorem links_tail (index : Fin graph.edgeCount) :
    ((links graph).get index).tail = graph.sourceIndex index := by
  simp [links]

@[simp] theorem links_head (index : Fin graph.edgeCount) :
    ((links graph).get index).head = graph.targetIndex index := by
  simp [links]

@[simp] theorem links_capacity (index : Fin graph.edgeCount) :
    ((links graph).get index).capacity = some (graph.edge index).weight := by
  simp [links]

theorem net_outflow_links (amount : Fin graph.edgeCount → Int) (node : Fin graph.nodeCount) :
    netOutflow (links graph) amount node =
      graph.outflow amount (graph.key node) - graph.inflow amount (graph.key node) := by
  rw [graph.outflow_eq_sum, graph.inflow_eq_sum, ← Finset.sum_sub_distrib, netOutflow]
  apply Finset.sum_congr rfl
  intro index _
  rw [links_tail, links_head, mul_sub]

theorem net_outflow_eq_zero {start finish : Fin graph.nodeCount} (atStart : graph.key start = source)
    (atFinish : graph.key finish = target) {amount : Fin graph.edgeCount → Int}
    (isFlow : graph.IsFlow source target amount) (node : Fin graph.nodeCount)
    (notStart : node ≠ start) (notFinish : node ≠ finish) :
    netOutflow (links graph) amount node = 0 := by
  rw [net_outflow_links, isFlow.conserved _ (graph.key_mem node), sub_self]
  · intro same
    exact notStart (graph.key_injective (same.trans atStart.symm))
  · intro same
    exact notFinish (graph.key_injective (same.trans atFinish.symm))

theorem inflow_eq_outflow {start finish : Fin graph.nodeCount} (atStart : graph.key start = source)
    (atFinish : graph.key finish = target) {amount : Fin graph.edgeCount → Int}
    (conserved : ∀ node, node ≠ start → node ≠ finish → netOutflow (links graph) amount node = 0)
    (node : N) (member : node ∈ graph.nodes) (notSource : node ≠ source)
    (notTarget : node ≠ target) : graph.inflow amount node = graph.outflow amount node := by
  have passed := conserved (graph.index node member) ?_ ?_
  · rw [net_outflow_links, Graph.key_index] at passed
    omega
  · intro same
    exact notSource (by rw [← atStart, ← same, Graph.key_index])
  · intro same
    exact notTarget (by rw [← atFinish, ← same, Graph.key_index])

/-- A solved network: its terminals, a flow between them, and no way to send more. -/
structure Solved (graph : Graph N W) (source target : N) (start finish : Fin graph.nodeCount)
    (final : State graph.nodeCount graph.edgeCount W) : Prop where
  start_key : graph.key start = source
  finish_key : graph.key finish = target
  different : start ≠ finish
  nonneg : ∀ index, 0 ≤ toInt (graph.edge index).weight
  flowing : Flowing (links graph) start finish final
  unreachable : ¬final.network.Reaches start finish

theorem terminals_eq_ok {start finish : Fin graph.nodeCount}
    (found : terminals graph source target = .ok (start, finish)) :
    graph.key start = source ∧ graph.key finish = target ∧ start ≠ finish ∧
      ∀ index, 0 ≤ toInt (graph.edge index).weight := by
  unfold terminals at found
  cases first : graph.require source with
  | error failure => simp [first, bind, Except.bind] at found
  | ok node =>
      cases second : graph.require target with
      | error failure => simp [first, second, bind, Except.bind] at found
      | ok other =>
          simp only [first, second, bind, Except.bind] at found
          split at found
          · cases found
          · next different =>
            cases checked : graph.refuseNegative (W := W) .capacity with
            | error failure => simp [checked] at found
            | ok done =>
                have ends : (node, other) = (start, finish) := by
                  simpa [checked, pure, Except.pure] using found
                cases ends
                refine ⟨graph.require_eq_ok_iff.mp first, graph.require_eq_ok_iff.mp second,
                  different, ?_⟩
                intro index
                exact graph.refuse_negative_eq_ok_iff.mp checked _ (graph.edge_mem index)

/-- A graph is solved by saturating the network between its terminals, which is all it reports on. -/
theorem solve_run {start : Fin graph.nodeCount}
    {final : State graph.nodeCount graph.edgeCount W}
    (found : (solve graph source target).outcome = .ok (start, final)) :
    ∃ finish, terminals graph source target = .ok (start, finish) ∧
      (saturate start finish (Residual.ofLinks (links graph))).outcome = .ok final ∧
        (solve graph source target).events =
          (saturate start finish (Residual.ofLinks (links graph))).events := by
  obtain ⟨⟨node, finish⟩, ends, rest⟩ := Traced.bind_eq_ok_iff.mp found
  obtain ⟨state, saturated, last⟩ := Traced.bind_eq_ok_iff.mp rest
  obtain ⟨rfl, rfl⟩ : node = start ∧ state = final := by
    simpa using last
  refine ⟨finish, ends, Traced.map_failure_eq_ok_iff.mp saturated, ?_⟩
  rw [solve, Traced.events_bind_of_ok ends]
  dsimp only
  rw [Traced.events_bind_of_ok saturated]
  exact List.append_nil _

theorem solve_eq_ok {start : Fin graph.nodeCount}
    {final : State graph.nodeCount graph.edgeCount W}
    (found : (solve graph source target).outcome = .ok (start, final)) :
    ∃ finish, Solved graph source target start finish final := by
  obtain ⟨finish, ends, ended, -⟩ := solve_run found
  obtain ⟨startKey, finishKey, different, nonneg⟩ := terminals_eq_ok ends
  obtain ⟨flowing, unreachable⟩ := saturate_flowing links_capacity nonneg different ended
  exact ⟨finish, startKey, finishKey, different, nonneg, flowing, unreachable⟩

theorem maximum_flow_eq_ok {value : W} {flow : Graph N W}
    (found : (graph.maximumFlow source target).outcome = .ok (value, flow)) :
    ∃ start final, (solve graph source target).outcome = .ok (start, final) ∧
      value = final.value ∧ flow = graph.reweight fun index => final.network.sent.get index := by
  obtain ⟨⟨start, final⟩, solved, last⟩ := Traced.bind_eq_ok_iff.mp found
  obtain ⟨sameValue, sameFlow⟩ : final.value = value ∧
      (graph.reweight fun index => final.network.sent.get index) = flow := by
    simpa using last
  exact ⟨start, final, solved, sameValue.symm, sameFlow.symm⟩

namespace Solved

variable {start finish : Fin graph.nodeCount} {final : State graph.nodeCount graph.edgeCount W}

theorem is_flow (solved : Solved graph source target start finish final) :
    graph.IsFlow source target final.network.flow where
  nonneg := solved.flowing.sound.flow_nonneg
  le_capacity index := by
    have limit : ((links graph).get index).capacity = some (graph.edge index).weight :=
      links_capacity index
    rw [← solved.flowing.links_eq] at limit
    exact (solved.flowing.sound.limited index _ limit).1
  conserved := inflow_eq_outflow solved.start_key solved.finish_key solved.flowing.conserved

theorem value_eq (solved : Solved graph source target start finish final) :
    graph.outflow final.network.flow source - graph.inflow final.network.flow source =
      toInt final.value := by
  have value := solved.flowing.value_eq
  rwa [net_outflow_links, solved.start_key] at value

theorem outflow_source (solved : Solved graph source target start finish final) :
    graph.outflow final.network.flow source = toInt final.value := by
  have value := solved.value_eq
  have nothing : graph.inflow final.network.flow source = 0 := by
    apply Finset.sum_eq_zero
    intro index member
    apply solved.flowing.into_source
    rw [links_head, Graph.target_index_eq_iff, solved.start_key]
    exact (Finset.mem_filter.mp member).2
  omega

theorem inflow_target (solved : Solved graph source target start finish final) :
    graph.inflow final.network.flow target = toInt final.value := by
  have arrives := net_outflow_target_eq solved.flowing.conserved solved.different
  have nothing : graph.outflow final.network.flow target = 0 := by
    apply Finset.sum_eq_zero
    intro index member
    apply solved.flowing.out_of_target
    rw [links_tail, Graph.source_index_eq_iff, solved.finish_key]
    exact (Finset.mem_filter.mp member).2
  rw [solved.flowing.value_eq, net_outflow_links, solved.finish_key, nothing] at arrives
  omega

/-- The value of the flow is the capacity of the links that leave what the source still reaches. -/
theorem value_eq_crossing (solved : Solved graph source target start finish final) :
    toInt final.value = ∑ index ∈ crossing (links graph) (final.network.reachedFrom start),
      toInt (graph.edge index).weight := by
  have sound := solved.flowing.sound
  have linksEq := solved.flowing.links_eq
  rw [← solved.flowing.value_eq, net_outflow_eq_crossing solved.flowing.conserved
    (mem_reached_from.mpr (reaches_self final.network start))
    (mt mem_reached_from.mp solved.unreachable)]
  · apply Finset.sum_congr rfl
    intro index crosses
    rw [← linksEq] at crosses
    obtain ⟨capacity, limit, full⟩ := sound.full_of_crossing crosses
    rw [linksEq, links_capacity] at limit
    rw [full, Option.some.inj limit]
  · intro index outside inside
    rw [← linksEq] at outside inside
    exact sound.empty_of_entering outside inside

theorem value_le (solved : Solved graph source target start finish final)
    {other : Fin graph.edgeCount → Int} (isFlow : graph.IsFlow source target other) :
    graph.outflow other source - graph.inflow other source ≤ toInt final.value := by
  have most := net_outflow_le_crossing
    (net_outflow_eq_zero solved.start_key solved.finish_key isFlow)
    (mem_reached_from.mpr (reaches_self final.network start))
    (mt mem_reached_from.mp solved.unreachable) isFlow.nonneg
  rw [net_outflow_links, solved.start_key] at most
  rw [solved.value_eq_crossing]
  exact most.trans (Finset.sum_le_sum fun index _ => isFlow.le_capacity index)

end Solved

end MaximumFlow

end FlowTour
