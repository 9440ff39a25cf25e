import FlowTour.Proofs.Graph.Amounts
import Mathlib.Algebra.BigOperators.Fin

/-!
Graphs that list the same connections in another order. Amounts that depend on the ends of an edge
alone leave and enter every node alike in both of them, and all amounts on the edges of one graph are
of this kind.
-/

namespace FlowTour.Graph

variable {N V W : Type} [NodeKey N]

section Listing

variable {graph : Graph N W}

theorem weight?_eq_some_iff_mem {source target : N} {weight : W} :
    graph.weight? source target = some weight ↔ ⟨source, target, weight⟩ ∈ graph.edges := by
  rw [weight?_eq_some_iff]
  constructor
  · intro listed
    obtain ⟨index, same⟩ := listed
    have member := graph.edge_mem index
    rwa [same] at member
  · exact graph.exists_edge_eq

theorem mem_edges_iff {edge : Edge N W} :
    edge ∈ graph.edges ↔ graph.weight? edge.source edge.target = some edge.weight :=
  weight?_eq_some_iff_mem.symm

theorem mem_map_ends_iff {pair : N × N} :
    pair ∈ graph.edges.map Edge.ends ↔ (graph.weight? pair.1 pair.2).isSome = true := by
  rw [Option.isSome_iff_exists, List.mem_map]
  constructor
  · intro listed
    obtain ⟨edge, member, rfl⟩ := listed
    exact ⟨edge.weight, mem_edges_iff.mp member⟩
  · intro joined
    obtain ⟨weight, found⟩ := joined
    exact ⟨⟨pair.1, pair.2, weight⟩, mem_edges_iff.mpr found, rfl⟩

end Listing

/-- The same nodes, joined by edges of the same weights. -/
structure Rearranged (first second : Graph N W) : Prop where
  mem_nodes_iff : ∀ node, node ∈ first.nodes ↔ node ∈ second.nodes
  weight?_eq : ∀ source target, first.weight? source target = second.weight? source target

namespace Rearranged

variable {first second : Graph N W} (rearranged : first.Rearranged second)
include rearranged

theorem symm : second.Rearranged first where
  mem_nodes_iff node := (rearranged.mem_nodes_iff node).symm
  weight?_eq source target := (rearranged.weight?_eq source target).symm

theorem edges_perm : first.edges.Perm second.edges := by
  rw [List.perm_ext_iff_of_nodup (List.Nodup.of_map _ first.ends_nodup)
    (List.Nodup.of_map _ second.ends_nodup)]
  intro edge
  rw [mem_edges_iff, mem_edges_iff, rearranged.weight?_eq]

end Rearranged

theorem rearranged_iff {first second : Graph N W} : first.Rearranged second ↔
    first.nodes.Perm second.nodes ∧ first.edges.Perm second.edges := by
  constructor
  · intro rearranged
    exact ⟨(List.perm_ext_iff_of_nodup first.nodes_nodup second.nodes_nodup).mpr
      rearranged.mem_nodes_iff, rearranged.edges_perm⟩
  · intro perm
    obtain ⟨nodes, edges⟩ := perm
    refine ⟨fun node => nodes.mem_iff, ?_⟩
    intro source target
    ext weight
    rw [weight?_eq_some_iff_mem, weight?_eq_some_iff_mem, edges.mem_iff]

instance [DecidableEq W] {first second : Graph N W} : Decidable (first.Rearranged second) :=
  decidable_of_iff _ rearranged_iff.symm

section Amounts

variable {graph : Graph N V}

omit [NodeKey N] in
theorem exists_share (amount : Fin graph.edgeCount → Int) :
    ∃ share : N × N → Int, (fun index => share (graph.edge index).ends) = amount := by
  have injective : Function.Injective fun index => (graph.edge index).ends :=
    fun _ _ same => graph.eq_of_ends_eq same
  exact ⟨Function.extend _ amount 0, funext (injective.extend_apply amount 0)⟩

theorem outflow_ends (share : N × N → Int) (node : N) :
    graph.outflow (fun index => share (graph.edge index).ends) node =
      ((graph.edges.map Edge.ends).map fun pair => if pair.1 = node then share pair else 0).sum := by
  rw [outflow, Finset.sum_filter, Fin.sum_univ_def, ← graph.map_edge_fin_range, List.map_map,
    List.map_map]
  rfl

theorem inflow_ends (share : N × N → Int) (node : N) :
    graph.inflow (fun index => share (graph.edge index).ends) node =
      ((graph.edges.map Edge.ends).map fun pair => if pair.2 = node then share pair else 0).sum := by
  rw [inflow, Finset.sum_filter, Fin.sum_univ_def, ← graph.map_edge_fin_range, List.map_map,
    List.map_map]
  rfl

end Amounts

/-- The same nodes, joined by edges of whatever weights. -/
structure SameConnections (first : Graph N V) (second : Graph N W) : Prop where
  mem_nodes_iff : ∀ node, node ∈ first.nodes ↔ node ∈ second.nodes
  joined : ∀ source target,
    (first.weight? source target).isSome = (second.weight? source target).isSome

namespace SameConnections

variable {first : Graph N V} {second : Graph N W} (same : first.SameConnections second)
include same

theorem symm : second.SameConnections first where
  mem_nodes_iff node := (same.mem_nodes_iff node).symm
  joined source target := (same.joined source target).symm

theorem ends_perm : (first.edges.map Edge.ends).Perm (second.edges.map Edge.ends) := by
  rw [List.perm_ext_iff_of_nodup first.ends_nodup second.ends_nodup]
  intro pair
  rw [mem_map_ends_iff, mem_map_ends_iff, same.joined]

theorem forall_ends (property : N × N → Prop) (holds : ∀ index, property (first.edge index).ends)
    (index : Fin second.edgeCount) : property (second.edge index).ends := by
  have listed := same.ends_perm.mem_iff.mpr (List.mem_map_of_mem (second.edge_mem index))
  obtain ⟨edge, member, ends⟩ := List.mem_map.mp listed
  obtain ⟨place, rfl⟩ := first.exists_edge_eq member
  exact ends ▸ holds place

theorem outflow_eq (share : N × N → Int) (node : N) :
    first.outflow (fun index => share (first.edge index).ends) node =
      second.outflow (fun index => share (second.edge index).ends) node := by
  rw [outflow_ends, outflow_ends]
  exact (same.ends_perm.map _).sum_eq

theorem inflow_eq (share : N × N → Int) (node : N) :
    first.inflow (fun index => share (first.edge index).ends) node =
      second.inflow (fun index => share (second.edge index).ends) node := by
  rw [inflow_ends, inflow_ends]
  exact (same.ends_perm.map _).sum_eq

end SameConnections

theorem same_connections_iff {first : Graph N V} {second : Graph N W} :
    first.SameConnections second ↔ first.nodes.Perm second.nodes ∧
      (first.edges.map Edge.ends).Perm (second.edges.map Edge.ends) := by
  constructor
  · intro same
    exact ⟨(List.perm_ext_iff_of_nodup first.nodes_nodup second.nodes_nodup).mpr
      same.mem_nodes_iff, same.ends_perm⟩
  · intro perm
    obtain ⟨nodes, ends⟩ := perm
    refine ⟨fun node => nodes.mem_iff, ?_⟩
    intro source target
    rw [Bool.eq_iff_iff]
    have listed := ends.mem_iff (a := (source, target))
    rwa [mem_map_ends_iff, mem_map_ends_iff] at listed

instance {first : Graph N V} {second : Graph N W} : Decidable (first.SameConnections second) :=
  decidable_of_iff _ same_connections_iff.symm

end FlowTour.Graph
