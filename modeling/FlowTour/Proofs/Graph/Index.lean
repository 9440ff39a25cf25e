import FlowTour.Graph.Basic
import FlowTour.Proofs.Weight.Exact
import Mathlib.Data.List.FinRange
import Mathlib.Data.List.Nodup

/-!
Nodes and edges by index and by key. Indices and listed keys correspond to each other, the weight of
a connection is the weight of the one edge with these ends, and a graph with new weights has them on
the same connections.
-/

namespace FlowTour.Graph

open IntegerWeight

variable {N W V : Type} (graph : Graph N W)

theorem key_injective : Function.Injective graph.key :=
  List.nodup_iff_injective_get.mp graph.nodes_nodup

theorem key_mem (index : Fin graph.nodeCount) : graph.key index ∈ graph.nodes :=
  List.get_mem graph.nodes index

theorem edge_mem (index : Fin graph.edgeCount) : graph.edge index ∈ graph.edges :=
  List.get_mem graph.edges index

theorem exists_edge_eq {edge : Edge N W} (member : edge ∈ graph.edges) :
    ∃ index, graph.edge index = edge :=
  List.get_of_mem member

theorem eq_of_ends_eq {first second : Fin graph.edgeCount}
    (same : (graph.edge first).ends = (graph.edge second).ends) : first = second := by
  have sameEdge := List.inj_on_of_nodup_map graph.ends_nodup (graph.edge_mem first)
    (graph.edge_mem second) same
  exact List.nodup_iff_injective_get.mp (List.Nodup.of_map _ graph.ends_nodup) sameEdge

theorem map_edge_fin_range : (List.finRange graph.edgeCount).map graph.edge = graph.edges := by
  rw [← List.ofFn_eq_map]
  exact List.ofFn_get graph.edges

theorem map_key_fin_range : (List.finRange graph.nodeCount).map graph.key = graph.nodes := by
  rw [← List.ofFn_eq_map]
  exact List.ofFn_get graph.nodes

theorem map_ends_reweight (weights : Fin graph.edgeCount → V) :
    (graph.reweight weights).edges.map Edge.ends = graph.edges.map Edge.ends := by
  rw [← graph.map_edge_fin_range]
  simp only [reweight, List.ofFn_eq_map, List.map_map]
  rfl

theorem mem_edges_reweight {weights : Fin graph.edgeCount → V} {edge : Edge N V} :
    edge ∈ (graph.reweight weights).edges ↔ ∃ index,
      edge = ⟨(graph.edge index).source, (graph.edge index).target, weights index⟩ := by
  simp only [reweight, List.mem_ofFn, eq_comm]

variable [NodeKey N]

@[simp] theorem key_index {node : N} (member : node ∈ graph.nodes) :
    graph.key (graph.index node member) = node :=
  List.getElem_idxOf (List.idxOf_lt_length_of_mem member)

theorem index_ne {first second : N} (firstMem : first ∈ graph.nodes)
    (secondMem : second ∈ graph.nodes) (different : first ≠ second) :
    graph.index first firstMem ≠ graph.index second secondMem := by
  intro same
  apply different
  rw [← graph.key_index firstMem, same, graph.key_index]

@[simp] theorem key_source_index (index : Fin graph.edgeCount) :
    graph.key (graph.sourceIndex index) = (graph.edge index).source :=
  graph.key_index _

@[simp] theorem key_target_index (index : Fin graph.edgeCount) :
    graph.key (graph.targetIndex index) = (graph.edge index).target :=
  graph.key_index _

theorem source_index_eq_iff {index : Fin graph.edgeCount} {node : Fin graph.nodeCount} :
    graph.sourceIndex index = node ↔ (graph.edge index).source = graph.key node := by
  rw [← key_source_index, graph.key_injective.eq_iff]

theorem target_index_eq_iff {index : Fin graph.edgeCount} {node : Fin graph.nodeCount} :
    graph.targetIndex index = node ↔ (graph.edge index).target = graph.key node := by
  rw [← key_target_index, graph.key_injective.eq_iff]

theorem index?_eq_some_iff {node : N} {index : Fin graph.nodeCount} :
    graph.index? node = some index ↔ graph.key index = node := by
  apply Iff.trans (List.finIdxOf?_eq_some_iff (l := graph.nodes))
  constructor
  · exact And.left
  · rintro rfl
    refine ⟨rfl, ?_⟩
    intro other earlier same
    exact absurd (graph.key_injective same) (Fin.ne_of_lt earlier)

theorem require_eq_ok_iff {node : N} {index : Fin graph.nodeCount} :
    graph.require node = .ok index ↔ graph.key index = node := by
  rw [← index?_eq_some_iff, require]
  split <;> simp [*]

variable {graph} in
theorem require_of_mem {node : N} (member : node ∈ graph.nodes) :
    graph.require node = .ok (graph.index node member) :=
  graph.require_eq_ok_iff.mpr (graph.key_index member)

variable {graph} in
theorem require_of_not_mem {node : N} (unknown : node ∉ graph.nodes) :
    graph.require node = .error (.nodeNotFound node) := by
  cases found : graph.index? node with
  | none => rw [require, found]
  | some index =>
      rw [index?_eq_some_iff] at found
      exact absurd (found ▸ graph.key_mem index) unknown

theorem weight?_edge (index : Fin graph.edgeCount) :
    graph.weight? (graph.edge index).source (graph.edge index).target =
      some (graph.edge index).weight := by
  have member := graph.edge_mem index
  cases found : graph.edges.find? fun edge =>
      edge.source = (graph.edge index).source ∧ edge.target = (graph.edge index).target with
  | none => simpa using List.find?_eq_none.mp found _ member
  | some other =>
      have ends : other.source = (graph.edge index).source ∧
          other.target = (graph.edge index).target := by
        simpa using List.find?_some found
      obtain ⟨place, rfl⟩ := graph.exists_edge_eq (List.mem_of_find?_eq_some found)
      obtain rfl := graph.eq_of_ends_eq (Prod.ext ends.1 ends.2 : _ = (graph.edge index).ends)
      rw [weight?, found, Option.map_some]

theorem weight?_eq_some_iff {source target : N} {weight : W} :
    graph.weight? source target = some weight ↔
      ∃ index, graph.edge index = ⟨source, target, weight⟩ := by
  constructor
  · intro found
    obtain ⟨edge, listed, rfl⟩ := Option.map_eq_some_iff.mp found
    have ends : edge.source = source ∧ edge.target = target := by
      simpa using List.find?_some listed
    obtain ⟨index, rfl⟩ := graph.exists_edge_eq (List.mem_of_find?_eq_some listed)
    exact ⟨index, by rw [← ends.1, ← ends.2]⟩
  · rintro ⟨index, same⟩
    have found := graph.weight?_edge index
    rwa [same] at found

theorem weight?_reweight (weights : Fin graph.edgeCount → V) (index : Fin graph.edgeCount) :
    (graph.reweight weights).weight? (graph.edge index).source (graph.edge index).target =
      some (weights index) := by
  rw [weight?_eq_some_iff]
  exact exists_edge_eq _ ((graph.mem_edges_reweight).mpr ⟨index, rfl⟩)

omit [NodeKey N] in
theorem refuse_negative_eq_ok_iff [IntegerWeight W] {role : WeightRole} :
    graph.refuseNegative role = .ok () ↔ ∀ edge ∈ graph.edges, 0 ≤ toInt edge.weight := by
  rw [refuseNegative]
  split
  case h_1 missing =>
    have none := List.find?_eq_none.mp missing
    simp only [is_negative_iff] at none
    simpa using none
  case h_2 edge found =>
    have negative : toInt edge.weight < 0 := by simpa [is_negative_iff] using List.find?_some found
    simp only [reduceCtorEq, false_iff, not_forall]
    exact ⟨edge, List.mem_of_find?_eq_some found, by omega⟩

omit [NodeKey N] in
variable {graph} in
theorem refuse_negative_eq_error [IntegerWeight W] {role : WeightRole} {failure : Failure N W}
    (refused : graph.refuseNegative role = .error failure) :
    ∃ edge ∈ graph.edges, failure = .negativeWeight role edge := by
  unfold refuseNegative at refused
  split at refused
  · cases refused
  · next edge found =>
    exact ⟨edge, List.mem_of_find?_eq_some found, (Except.error.inj refused).symm⟩

end FlowTour.Graph
