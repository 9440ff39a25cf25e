import FlowTour.Proofs.MaximumFlow.Duality

/-!
Source sides of minimum cuts. No set of nodes around the source has less capacity on the edges out of it
than a maximum flow is worth; the nodes that the source still reaches are such a set of just that
capacity, and every other one of that capacity has all of them. So the reported cut is made of the
edges out of what all of these sets share.
-/

namespace FlowTour.Graph

open IntegerWeight Residual MaximumFlow

variable {N W : Type} [NodeKey N] [IntegerWeight W] {graph : Graph N W} {source target : N}

section Sides

/-- The capacity of the edges out of a set of nodes. -/
def sideCapacity (graph : Graph N W) (side : Finset N) : Int :=
  (graph.edges.map fun edge =>
    if edge.source ∈ side ∧ edge.target ∉ side then toInt edge.weight else 0).sum

/-- A set of nodes around the source and without the target. -/
structure IsSide (graph : Graph N W) (source target : N) (side : Finset N) : Prop where
  within : ∀ node ∈ side, node ∈ graph.nodes
  source_mem : source ∈ side
  target_not_mem : target ∉ side

/-- The source side of a minimum cut. -/
structure IsMinimumSide (graph : Graph N W) (source target : N) (side : Finset N) : Prop
    extends graph.IsSide source target side where
  least : ∀ other, graph.IsSide source target other → graph.sideCapacity side ≤ graph.sideCapacity other

/-- The node is on the source side of every minimum cut. -/
def InCore (graph : Graph N W) (source target node : N) : Prop :=
  ∀ side, graph.IsMinimumSide source target side → node ∈ side

def places (graph : Graph N W) (side : Finset N) : Finset (Fin graph.nodeCount) :=
  Finset.univ.filter fun index => graph.key index ∈ side

omit [IntegerWeight W] in
theorem mem_places {side : Finset N} {index : Fin graph.nodeCount} :
    index ∈ graph.places side ↔ graph.key index ∈ side := by
  simp [places]

theorem side_capacity_eq_sum (side : Finset N) :
    graph.sideCapacity side = ∑ index ∈ crossing (MaximumFlow.links graph) (graph.places side),
      toInt (graph.edge index).weight := by
  rw [sideCapacity, crossing, Finset.sum_filter, Fin.sum_univ_def, ← graph.map_edge_fin_range,
    List.map_map]
  simp only [links_tail, links_head, mem_places, key_source_index, key_target_index]
  rfl

end Sides

section Reached

variable {start finish : Fin graph.nodeCount} {final : State graph.nodeCount graph.edgeCount W}

noncomputable def reachedSide (graph : Graph N W)
    (final : State graph.nodeCount graph.edgeCount W) (start : Fin graph.nodeCount) : Finset N :=
  (final.network.reachedFrom start).image graph.key

theorem key_mem_reached_side {index : Fin graph.nodeCount} :
    graph.key index ∈ graph.reachedSide final start ↔ index ∈ final.network.reachedFrom start := by
  rw [reachedSide, graph.key_injective.mem_finset_image]

theorem places_reached_side :
    graph.places (graph.reachedSide final start) = final.network.reachedFrom start := by
  ext index
  rw [mem_places, key_mem_reached_side]

theorem is_side_reached_side (solved : Solved graph source target start finish final) :
    graph.IsSide source target (graph.reachedSide final start) where
  within node member := by
    obtain ⟨index, -, rfl⟩ := Finset.mem_image.mp member
    exact graph.key_mem index
  source_mem := by
    rw [← solved.start_key, key_mem_reached_side, mem_reached_from]
    exact reaches_self final.network start
  target_not_mem := by
    rw [← solved.finish_key, key_mem_reached_side, mem_reached_from]
    exact solved.unreachable

theorem side_capacity_reached_side (solved : Solved graph source target start finish final) :
    graph.sideCapacity (graph.reachedSide final start) = toInt final.value := by
  rw [side_capacity_eq_sum, places_reached_side, solved.value_eq_crossing]

omit [IntegerWeight W] in
theorem IsSide.start_mem {side : Finset N} (isSide : graph.IsSide source target side)
    (atStart : graph.key start = source) : start ∈ graph.places side := by
  rw [mem_places, atStart]
  exact isSide.source_mem

omit [IntegerWeight W] in
theorem IsSide.finish_not_mem {side : Finset N} (isSide : graph.IsSide source target side)
    (atFinish : graph.key finish = target) : finish ∉ graph.places side := by
  rw [mem_places, atFinish]
  exact isSide.target_not_mem

theorem IsSide.value_le {side : Finset N} (isSide : graph.IsSide source target side)
    (atStart : graph.key start = source) (atFinish : graph.key finish = target)
    {amount : Fin graph.edgeCount → Int} (isFlow : graph.IsFlow source target amount) :
    graph.outflow amount source - graph.inflow amount source ≤ graph.sideCapacity side := by
  rw [← atStart, ← net_outflow_links, side_capacity_eq_sum]
  exact (net_outflow_le_crossing (net_outflow_eq_zero atStart atFinish isFlow)
    (isSide.start_mem atStart) (isSide.finish_not_mem atFinish) isFlow.nonneg).trans
      (Finset.sum_le_sum fun index _ => isFlow.le_capacity index)

theorem is_minimum_side_iff (solved : Solved graph source target start finish final)
    {side : Finset N} : graph.IsMinimumSide source target side ↔
      graph.IsSide source target side ∧ graph.sideCapacity side = toInt final.value := by
  have atLeast : ∀ other, graph.IsSide source target other →
      toInt final.value ≤ graph.sideCapacity other := by
    intro other isSide
    have value := solved.flowing.value_eq
    rw [net_outflow_links, solved.start_key] at value
    exact value.symm.trans_le (isSide.value_le solved.start_key solved.finish_key solved.is_flow)
  constructor
  · intro minimum
    have atMost := minimum.least _ (is_side_reached_side solved)
    rw [side_capacity_reached_side solved] at atMost
    exact ⟨minimum.toIsSide, le_antisymm atMost (atLeast side minimum.toIsSide)⟩
  · intro tight
    exact ⟨tight.1, fun other isSide => tight.2.trans_le (atLeast other isSide)⟩

theorem reached_side_subset (solved : Solved graph source target start finish final)
    {side : Finset N} (minimum : graph.IsMinimumSide source target side) :
    graph.reachedSide final start ⊆ side := by
  obtain ⟨isSide, capacity⟩ := (is_minimum_side_iff solved).mp minimum
  have isFlow := solved.is_flow
  have linksEq := solved.flowing.links_eq
  have tight : ∑ index ∈ crossing (MaximumFlow.links graph) (graph.places side),
      toInt (graph.edge index).weight ≤
        netOutflow (MaximumFlow.links graph) final.network.flow start := by
    rw [solved.flowing.value_eq, ← capacity, side_capacity_eq_sum]
  obtain ⟨full, empty⟩ := tight_of_le solved.flowing.conserved (isSide.start_mem solved.start_key)
    (isSide.finish_not_mem solved.finish_key) isFlow.nonneg isFlow.le_capacity tight
  intro node member
  obtain ⟨index, reached, rfl⟩ := Finset.mem_image.mp member
  rw [← mem_places]
  -- The links out of the side are full and nothing comes back, so no route leads out of it.
  apply solved.flowing.sound.mem_of_reaches (isSide.start_mem solved.start_key)
  · intro edge crosses
    rw [linksEq] at crosses ⊢
    exact ⟨_, links_capacity edge, full edge crosses⟩
  · intro edge outside inside
    rw [linksEq] at outside inside
    exact empty edge outside inside
  · exact mem_reached_from.mp reached

theorem in_core_iff (solved : Solved graph source target start finish final) {node : N} :
    graph.InCore source target node ↔ node ∈ graph.reachedSide final start := by
  constructor
  · intro inCore
    apply inCore
    rw [is_minimum_side_iff solved]
    exact ⟨is_side_reached_side solved, side_capacity_reached_side solved⟩
  · intro reached side minimum
    exact reached_side_subset solved minimum reached

/-- A minimum cut is the edges out of the core. -/
theorem mem_minimum_cut_iff {cut : Std.TreeSet (N × N)}
    (found : (graph.minimumCut source target).outcome = .ok cut) {pair : N × N} :
    pair ∈ cut ↔ (graph.weight? pair.1 pair.2).isSome = true ∧
      graph.InCore source target pair.1 ∧ ¬graph.InCore source target pair.2 := by
  obtain ⟨start, final, solution, mem_cut⟩ := minimum_cut_eq_ok found
  obtain ⟨finish, solved⟩ := solve_eq_ok solution
  have inCore : ∀ index, graph.InCore source target (graph.key index) ↔
      index ∈ final.network.reachedFrom start := by
    intro index
    rw [in_core_iff solved, key_mem_reached_side]
  have crosses : ∀ index, index ∈ crossing (MaximumFlow.links graph)
      (final.network.reachedFrom start) ↔
        graph.InCore source target (graph.edge index).source ∧
          ¬graph.InCore source target (graph.edge index).target := by
    intro index
    rw [mem_crossing, links_tail, links_head, ← inCore, ← inCore, key_source_index, key_target_index]
  rw [mem_cut]
  constructor
  · intro listed
    obtain ⟨index, leaves, rfl⟩ := listed
    exact ⟨Option.isSome_iff_exists.mpr ⟨_, graph.weight?_edge index⟩, (crosses index).mp leaves⟩
  · intro leaves
    obtain ⟨joined, sides⟩ := leaves
    obtain ⟨index, rfl⟩ := exists_edge_of_is_some joined
    exact ⟨index, (crosses index).mpr sides, rfl⟩

end Reached

end FlowTour.Graph
