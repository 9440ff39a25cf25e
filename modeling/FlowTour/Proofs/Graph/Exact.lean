import FlowTour.Proofs.Graph.Index
import FlowTour.Proofs.Weight.Range

/-!
Graphs with their weights among all integers. Nodes and connections keep their places.
-/

namespace FlowTour

open IntegerWeight

variable {N W : Type} [IntegerWeight W]

def Edge.exact (edge : Edge N W) : Edge N Unbounded :=
  ⟨edge.source, edge.target, IntegerWeight.exact edge.weight⟩

namespace Graph

/-- The same graph with its weights among all integers. -/
def exact (graph : Graph N W) : Graph N Unbounded :=
  graph.reweight fun index => IntegerWeight.exact (graph.edge index).weight

variable (graph : Graph N W)

theorem exact_edges : graph.exact.edges = graph.edges.map Edge.exact := by
  rw [← graph.map_edge_fin_range, List.map_map]
  simp only [exact, reweight, List.ofFn_eq_map]
  rfl

theorem edge_count_exact : graph.exact.edgeCount = graph.edgeCount := by
  rw [edgeCount, exact_edges, List.length_map, edgeCount]

theorem edge_exact (index : Fin graph.edgeCount) :
    graph.exact.edge (Fin.cast graph.edge_count_exact.symm index) = (graph.edge index).exact := by
  have listed := List.get_of_eq graph.exact_edges (Fin.cast graph.edge_count_exact.symm index)
  exact listed.trans (List.getElem_map Edge.exact)

theorem eq_of_lists {V : Type} {first second : Graph N V} (nodes : first.nodes = second.nodes)
    (edges : first.edges = second.edges) : first = second := by
  cases first
  cases second
  cases nodes
  cases edges
  rfl

theorem exact_reweight (weights : Fin graph.edgeCount → W) :
    (graph.reweight weights).exact =
      graph.reweight fun index => IntegerWeight.exact (weights index) := by
  apply eq_of_lists
  · rfl
  · rw [exact_edges]
    exact List.map_ofFn

theorem reweight_exact (weights : Fin graph.exact.edgeCount → Unbounded) :
    graph.exact.reweight weights =
      graph.reweight fun index => weights (Fin.cast graph.edge_count_exact.symm index) := by
  apply eq_of_lists
  · rfl
  · refine (List.ofFn_congr graph.edge_count_exact _).trans (congrArg List.ofFn ?_)
    funext index
    rw [edge_exact]
    rfl

section Key

variable [NodeKey N]

theorem weight?_exact (source target : N) :
    graph.exact.weight? source target =
      (graph.weight? source target).map IntegerWeight.exact := by
  rw [weight?, exact_edges, List.find?_map, weight?, Option.map_map, Option.map_map]
  rfl

theorem source_index_exact (index : Fin graph.edgeCount) :
    graph.exact.sourceIndex (Fin.cast graph.edge_count_exact.symm index) =
      graph.sourceIndex index := by
  apply Fin.ext
  simp only [sourceIndex, Graph.index, edge_exact]
  rfl

theorem target_index_exact (index : Fin graph.edgeCount) :
    graph.exact.targetIndex (Fin.cast graph.edge_count_exact.symm index) =
      graph.targetIndex index := by
  apply Fin.ext
  simp only [targetIndex, Graph.index, edge_exact]
  rfl

end Key

end Graph

end FlowTour
