import FlowTour.Proofs.Graph.Rearranged
import FlowTour.Proofs.MaximumFlow.Values
import FlowTour.Proofs.MinCostFlow.Verdict

/-!
Transfers from one node to another. The ways to route a transfer are the flows between the two nodes
that are worth its amount. Flows have every value up to the largest one, so a transfer can be routed
just when the maximum flow is worth as much, or too much to be reported.
-/

namespace FlowTour.MinCostFlow

open IntegerWeight Residual MaximumFlow

variable {N W : Type} [NodeKey N] [IntegerWeight W] {costs graph : Graph N W} {source target : N}
  {amount : W}

section Supply

/-- One node offers what the other one demands. -/
def transfer (source target : N) (amount : W) : KeyedWeights N W :=
  Std.TreeMap.ofList [(source, amount), (target, -amount)]

theorem to_list_transfer_perm (different : source ≠ target) (amount : W) :
    (transfer source target amount).toList.Perm [(source, amount), (target, -amount)] :=
  to_list_of_list_perm (by simp [different])

theorem to_int_get_d_transfer (different : source ≠ target) (nonneg : 0 ≤ toInt amount) (node : N) :
    toInt ((transfer source target amount).getD node 0) =
      (if source = node then toInt amount else 0) - if target = node then toInt amount else 0 := by
  rw [← sum_entries_eq, ((to_list_transfer_perm different amount).map _).sum_eq]
  simp only [List.map_cons, List.map_nil, List.sum_cons, List.sum_nil, to_int_neg nonneg]
  split <;> split <;> omega

theorem valid_transfer (sourceMem : source ∈ costs.nodes) (targetMem : target ∈ costs.nodes)
    (different : source ≠ target) (nonneg : 0 ≤ toInt amount)
    (costNonneg : ∀ edge ∈ costs.edges, 0 ≤ toInt edge.weight)
    (capacityNonneg : ∀ edge ∈ graph.edges, 0 ≤ toInt edge.weight) :
    Valid costs (transfer source target amount) (some graph) amount := by
  have listed := to_list_transfer_perm different amount
  have opposite := to_int_neg nonneg
  have atEither : ∀ entry ∈ (transfer source target amount).toList,
      entry = (source, amount) ∨ entry = (target, -amount) := by
    intro entry member
    simpa using listed.mem_iff.mp member
  refine ⟨?_, ?_, ?_, ?_, costNonneg, ?_⟩
  · intro entry member
    rcases atEither entry member with rfl | rfl
    · exact sourceMem
    · exact targetMem
  · rw [(listed.map _).sum_eq]
    simp only [List.map_cons, List.map_nil, List.sum_cons, List.sum_nil]
    omega
  · rw [(listed.map _).sum_eq]
    simp only [List.map_cons, List.map_nil, List.sum_cons, List.sum_nil]
    omega
  · intro entry member negative
    rcases atEither entry member with rfl | rfl
    · exact absurd nonneg (not_le.mpr negative)
    · have fits : toInt amount = -toInt (-amount) := by omega
      exact to_int_neg_of_fits fits
  · intro other isGraph
    cases isGraph
    exact capacityNonneg

end Supply

section Flows

variable (same : costs.SameConnections graph) (sourceMem : source ∈ graph.nodes)
  (targetMem : target ∈ graph.nodes) (different : source ≠ target) (nonneg : 0 ≤ toInt amount)
include same sourceMem different nonneg

theorem is_flow_of_routes {share : N × N → Int}
    (routes : Routes costs (transfer source target amount) (some graph)
      fun index => share (costs.edge index).ends) :
    graph.IsFlow source target (fun index => share (graph.edge index).ends) ∧
      graph.outflow (fun index => share (graph.edge index).ends) source -
        graph.inflow (fun index => share (graph.edge index).ends) source = toInt amount := by
  have balanced : ∀ node ∈ graph.nodes,
      graph.outflow (fun index => share (graph.edge index).ends) node -
        graph.inflow (fun index => share (graph.edge index).ends) node =
          (if source = node then toInt amount else 0) -
            if target = node then toInt amount else 0 := by
    intro node member
    rw [← to_int_get_d_transfer different nonneg, ← same.outflow_eq, ← same.inflow_eq]
    exact routes.balanced node ((same.mem_nodes_iff node).mpr member)
  have within := same.forall_ends
    (fun pair => share pair ≤ toInt ((graph.weight? pair.1 pair.2).getD 0))
    (routes.le_capacity graph rfl)
  refine ⟨⟨same.forall_ends (fun pair => 0 ≤ share pair) routes.nonneg, ?_, ?_⟩, ?_⟩
  · intro index
    have room := within index
    rwa [Edge.ends, graph.weight?_edge, Option.getD_some] at room
  · intro node member notSource notTarget
    have passed := balanced node member
    rw [if_neg (Ne.symm notSource), if_neg (Ne.symm notTarget)] at passed
    omega
  · rw [balanced source sourceMem, if_pos rfl, if_neg (Ne.symm different), sub_zero]

include targetMem

theorem routes_of_is_flow {share : N × N → Int}
    (isFlow : graph.IsFlow source target fun index => share (graph.edge index).ends)
    (exact : graph.outflow (fun index => share (graph.edge index).ends) source -
      graph.inflow (fun index => share (graph.edge index).ends) source = toInt amount) :
    Routes costs (transfer source target amount) (some graph)
      fun index => share (costs.edge index).ends where
  nonneg := same.symm.forall_ends (fun pair => 0 ≤ share pair) isFlow.nonneg
  le_capacity other isGraph := by
    cases isGraph
    apply same.symm.forall_ends
      fun pair => share pair ≤ toInt ((graph.weight? pair.1 pair.2).getD 0)
    intro index
    rw [Edge.ends, graph.weight?_edge, Option.getD_some]
    exact isFlow.le_capacity index
  balanced node member := by
    rw [to_int_get_d_transfer different nonneg, same.outflow_eq, same.inflow_eq]
    by_cases atSource : source = node
    · subst atSource
      rw [if_pos rfl, if_neg (Ne.symm different), exact, sub_zero]
    by_cases atTarget : target = node
    · subst atTarget
      rw [if_neg atSource, if_pos rfl, zero_sub, ← exact]
      exact outflow_target_of_is_flow sourceMem targetMem different isFlow
    · rw [if_neg atSource, if_neg atTarget, isFlow.conserved node
        ((same.mem_nodes_iff node).mp member) (Ne.symm atSource) (Ne.symm atTarget)]
      omega

/-- The ways to route a transfer are the flows that are worth its amount. -/
theorem exists_routes_transfer_iff :
    (∃ onEdges, Routes costs (transfer source target amount) (some graph) onEdges) ↔
      ∃ flow, graph.IsFlow source target flow ∧
        graph.outflow flow source - graph.inflow flow source = toInt amount := by
  constructor
  · intro routed
    obtain ⟨onEdges, routes⟩ := routed
    obtain ⟨share, rfl⟩ := Graph.exists_share onEdges
    exact ⟨_, is_flow_of_routes same sourceMem different nonneg routes⟩
  · intro worth
    obtain ⟨flow, isFlow, exact⟩ := worth
    obtain ⟨share, rfl⟩ := Graph.exists_share flow
    exact ⟨_, routes_of_is_flow same sourceMem targetMem different nonneg isFlow exact⟩

end Flows

section Verdict

omit [NodeKey N] in
theorem exact_cost_of_free (free : ∀ edge ∈ costs.edges, toInt edge.weight = 0)
    (onEdges : Fin costs.edgeCount → Int) : exactCost costs onEdges = 0 := by
  apply Finset.sum_eq_zero
  intro index _
  rw [free _ (costs.edge_mem index), zero_mul]

theorem Valid.primal_dual_of_free {supply : KeyedWeights N W} {capacity : Option (Graph N W)}
    {total : W} (valid : Valid costs supply capacity total)
    (free : ∀ edge ∈ costs.edges, toInt edge.weight = 0) :
    (primalDual costs supply capacity).outcome = .error .noFeasibleFlow ∨
      ∃ solution, (primalDual costs supply capacity).outcome = .ok solution ∧
        toInt solution.cost = 0 := by
  have inRange : ∀ edge ∈ costs.edges, InRange W (costs.nodeCount * toInt edge.weight) := by
    intro edge member
    rw [free edge member, mul_zero]
    exact in_range_zero
  obtain ⟨final, ended⟩ := valid.exists_route inRange
  rcases primal_dual_of_route valid.validate_eq ended with
    ⟨outcome, -⟩ | ⟨onEdges, -, -, ⟨⟨solution, outcome⟩, -⟩ | ⟨-, large⟩⟩
  · exact .inl outcome
  · obtain ⟨total, final, -, -, -, -, summed⟩ := primal_dual_eq_ok outcome
    exact .inr ⟨solution, outcome, (to_int_total_cost? summed).trans (exact_cost_of_free free _)⟩
  · rw [exact_cost_of_free free] at large
    exact absurd in_range_zero large

theorem primal_dual_transfer (costs graph : Graph N W) (source target : N) (amount : W)
    (same : costs.SameConnections graph)
    (costNonneg : ∀ edge ∈ costs.edges, 0 ≤ toInt edge.weight)
    (capacityNonneg : ∀ edge ∈ graph.edges, 0 ≤ toInt edge.weight)
    (sourceMem : source ∈ graph.nodes) (targetMem : target ∈ graph.nodes)
    (different : source ≠ target) (nonneg : 0 ≤ toInt amount) :
    ((primalDual costs (transfer source target amount) (some graph)).outcome =
        .error .noFeasibleFlow →
      ∃ value flow, (graph.maximumFlow source target).outcome = .ok (value, flow) ∧
        toInt value < toInt amount) ∧
    (∀ solution, (primalDual costs (transfer source target amount) (some graph)).outcome =
        .ok solution →
      (∃ value flow, (graph.maximumFlow source target).outcome = .ok (value, flow) ∧
        toInt amount ≤ toInt value) ∨
      (graph.maximumFlow source target).outcome = .error .arithmeticOverflow) ∧
    ((∀ edge ∈ costs.edges, toInt edge.weight = 0) →
      (primalDual costs (transfer source target amount) (some graph)).outcome =
        .error .noFeasibleFlow ∨
      ∃ solution, (primalDual costs (transfer source target amount) (some graph)).outcome =
        .ok solution ∧ toInt solution.cost = 0) := by
  have valid := valid_transfer ((same.mem_nodes_iff source).mpr sourceMem)
    ((same.mem_nodes_iff target).mpr targetMem) different nonneg costNonneg capacityNonneg
  have routable := exists_routes_transfer_iff same sourceMem targetMem different nonneg
  refine ⟨?_, ?_, valid.primal_dual_of_free⟩
  · intro failed
    have unroutable : ¬∃ onEdges, Routes costs (transfer source target amount) (some graph)
        onEdges := by
      intro routed
      obtain ⟨onEdges, routes⟩ := routed
      -- The run has routed less than the whole, although the whole can be routed.
      obtain ⟨total, final, checked, ended, short⟩ := primal_dual_eq_no_feasible_flow failed
      have alsoValid := validate_eq_ok checked
      have whole := routes.total_le_routed alsoValid (route_extended_exhausted alsoValid ended)
      omega
    rw [routable] at unroutable
    cases outcome : (graph.maximumFlow source target).outcome with
    | error failure =>
        obtain ⟨-, every⟩ :=
          exists_flow_of_error sourceMem targetMem different capacityNonneg outcome
        exact absurd (every amount nonneg) unroutable
    | ok answer =>
        rw [exists_flow_iff_le outcome nonneg] at unroutable
        exact ⟨answer.1, answer.2, rfl, not_le.mp unroutable⟩
  · intro solution found
    obtain ⟨total, final, alsoValid, routed, whole, -⟩ := primal_dual_eq_ok found
    have worth := routable.mp ⟨_, edge_amounts_routes alsoValid routed whole⟩
    cases outcome : (graph.maximumFlow source target).outcome with
    | error failure =>
        obtain ⟨overflow, -⟩ :=
          exists_flow_of_error sourceMem targetMem different capacityNonneg outcome
        exact .inr (overflow ▸ rfl)
    | ok answer =>
        rw [exists_flow_iff_le outcome nonneg] at worth
        exact .inl ⟨answer.1, answer.2, rfl, worth⟩

/-- Three units fit between 1 and 4, of which one changes over from 2 to 3. -/
def lanes : Graph Int Int32 :=
  Graph.ofEdges [⟨1, 2, 2⟩, ⟨1, 3, 1⟩, ⟨2, 3, 1⟩, ⟨2, 4, 1⟩, ⟨3, 4, 2⟩]

def fares : Graph Int Int32 :=
  Graph.ofEdges [⟨3, 4, 1⟩, ⟨2, 4, 6⟩, ⟨2, 3, 2⟩, ⟨1, 3, 5⟩, ⟨1, 2, 0⟩]

theorem primal_dual_transfer_lanes :
    (∃ value flow, (lanes.maximumFlow 1 4).outcome = .ok (value, flow) ∧ toInt value = 3) ∧
    (∃ solution, (primalDual fares (transfer 1 4 3) (some lanes)).outcome = .ok solution) ∧
    (primalDual fares (transfer 1 4 4) (some lanes)).outcome = .error .noFeasibleFlow ∧
    ∃ solution, (primalDual (lanes.reweight fun _ => 0) (transfer 1 4 3) (some lanes)).outcome =
      .ok solution ∧ toInt solution.cost = 0 := by
  have lanesNonneg : ∀ edge ∈ lanes.edges, 0 ≤ toInt edge.weight := by decide +kernel
  have faresNonneg : ∀ edge ∈ fares.edges, 0 ≤ toInt edge.weight := by decide +kernel
  have sourceMem : 1 ∈ lanes.nodes := by decide +kernel
  have targetMem : 4 ∈ lanes.nodes := by decide +kernel
  have same : fares.SameConnections lanes := by decide +kernel
  have free : ∀ edge ∈ (lanes.reweight fun _ => (0 : Int32)).edges, toInt edge.weight = 0 := by
    decide +kernel
  have cost : (primalDual fares (transfer 1 4 3) (some lanes)).outcome.toOption.map Solution.cost =
      some 15 := by
    decide +kernel
  have failed : (primalDual fares (transfer 1 4 4) (some lanes)).outcome =
      .error .noFeasibleFlow := by
    decide +kernel
  obtain ⟨short, -, -⟩ := primal_dual_transfer fares lanes 1 4 4 same faresNonneg lanesNonneg
    sourceMem targetMem (by decide) (by decide)
  obtain ⟨-, enough, -⟩ := primal_dual_transfer fares lanes 1 4 3 same faresNonneg lanesNonneg
    sourceMem targetMem (by decide) (by decide)
  obtain ⟨freeShort, -, freely⟩ := primal_dual_transfer (lanes.reweight fun _ => 0) lanes 1 4 3
    (by decide +kernel) (fun edge member => (free edge member).ge) lanesNonneg sourceMem targetMem
    (by decide) (by decide)
  obtain ⟨value, flow, found, below⟩ := short failed
  cases outcome : (primalDual fares (transfer 1 4 3) (some lanes)).outcome with
  | error failure => simp [outcome, Except.toOption] at cost
  | ok solution =>
      have atLeast : 3 ≤ toInt value := by
        rcases enough solution outcome with ⟨other, otherFlow, again, atMost⟩ | overflow
        · cases found.symm.trans again
          exact atMost
        · cases found.symm.trans overflow
      have exact : toInt value = 3 := le_antisymm (Int.lt_add_one_iff.mp below) atLeast
      refine ⟨⟨value, flow, found, exact⟩, ⟨solution, rfl⟩, failed, ?_⟩
      rcases freely free with stranded | answered
      · obtain ⟨other, otherFlow, again, less⟩ := freeShort stranded
        cases found.symm.trans again
        exact absurd atLeast (not_le.mpr less)
      · exact answered

end Verdict

end FlowTour.MinCostFlow
