import FlowTour.Proofs.Graph.Building
import FlowTour.Proofs.Graph.Exact

/-!
Graphs from adjacency listings. A listing mentions its keys besides the edges it lists, so it builds the
edges of the flattened listing, and no other nodes than the keys are added to those of the edges. A key
with a target is mentioned by its first edge anyway: where no key is listed without targets, the
listing and its edges build the very same graph.
-/

namespace FlowTour.Graph

variable {N W : Type}

/-- The edges of an adjacency listing, entry by entry. -/
def listedEdges (listing : List (N × List (N × W))) : List (Edge N W) :=
  listing.flatMap fun (source, targets) =>
    targets.map fun (target, weight) => ⟨source, target, weight⟩

theorem listed_edges_cons (source : N) (targets : List (N × W)) (rest : List (N × List (N × W))) :
    listedEdges ((source, targets) :: rest) =
      targets.map (fun (target, weight) => ⟨source, target, weight⟩) ++ listedEdges rest :=
  List.flatMap_cons

theorem adjacency_insertions_cons (source : N) (targets : List (N × W))
    (rest : List (N × List (N × W))) :
    adjacencyInsertions ((source, targets) :: rest) =
      .node source :: ((targets.map fun (target, weight) => ⟨source, target, weight⟩).map .edge ++
        adjacencyInsertions rest) := by
  rw [adjacencyInsertions, List.flatMap_cons, List.map_map]
  rfl

theorem mem_mentions_adjacency {node : N} {listing : List (N × List (N × W))} :
    node ∈ mentions (adjacencyInsertions listing) ↔
      node ∈ mentions ((listedEdges listing).map .edge) ∨ node ∈ listing.map Prod.fst := by
  induction listing with
  | nil => simp [adjacencyInsertions, listedEdges, mentions]
  | cons entry rest induction =>
      obtain ⟨source, targets⟩ := entry
      rw [adjacency_insertions_cons, listed_edges_cons, List.map_append, List.map_cons,
        List.mem_cons]
      simp only [mentions, List.flatMap_cons, List.flatMap_append, List.mem_append, mentioned,
        List.mem_singleton] at induction ⊢
      rw [induction]
      tauto

variable [NodeKey N]

theorem joinings_adjacency (listing : List (N × List (N × W))) :
    joinings (adjacencyInsertions listing) = joinings ((listedEdges listing).map .edge) := by
  induction listing with
  | nil => rfl
  | cons entry rest induction =>
      obtain ⟨source, targets⟩ := entry
      rw [adjacency_insertions_cons, listed_edges_cons, List.map_append, joinings,
        List.filterMap_cons_none rfl, List.filterMap_append, joinings, List.filterMap_append]
      exact congrArg (_ ++ ·) induction

/-- An edge mentions its source first, so mentioning it before changes nothing. -/
theorem insert_edge_insert_node (graph : Graph N W) (edge : Edge N W) :
    (graph.insertNode edge.source).insertEdge edge = graph.insertEdge edge := by
  have again : mention (mention graph.nodes edge.source) edge.source =
      mention graph.nodes edge.source := if_pos (mem_mention.mpr (.inr rfl))
  apply eq_of_lists
  · have twice := nodes_insert (graph.insertNode edge.source) (.edge edge)
    have once := nodes_insert graph (.edge edge)
    simp only [insert, mentioned, List.foldl_cons, List.foldl_nil] at twice once
    rw [twice, once, insertNode, again]
  · exact (edges_insert (graph.insertNode edge.source) (.edge edge)).trans
      (edges_insert graph (.edge edge)).symm

theorem insert_all_adjacency (graph : Graph N W) (listing : List (N × List (N × W)))
    (targeted : ∀ entry ∈ listing, entry.2 ≠ []) :
    graph.insertAll (adjacencyInsertions listing) =
      graph.insertAll ((listedEdges listing).map .edge) := by
  induction listing generalizing graph with
  | nil => rfl
  | cons entry rest induction =>
      obtain ⟨source, targets⟩ := entry
      obtain ⟨here, later⟩ := List.forall_mem_cons.mp targeted
      cases targets with
      | nil => exact absurd rfl here
      | cons target targets =>
          have first := graph.insert_edge_insert_node ⟨source, target.1, target.2⟩
          rw [adjacency_insertions_cons, listed_edges_cons, List.map_append]
          simp only [insertAll, List.map_cons, List.cons_append, List.foldl_cons,
            List.foldl_append, insert, first]
          exact induction _ later

theorem mem_node_set_build {insertions : List (Insertion N W)} {node : N} :
    node ∈ (build insertions).nodeSet ↔ node ∈ mentions insertions := by
  rw [nodeSet, Std.TreeSet.mem_ofList, List.contains_iff_mem, nodes_build, List.mem_eraseDups]

/-- A listing builds the edges that its flattened edges build, in the same order and with the same
weights, and its keys are nodes besides theirs. Where no key is listed without targets it is the same
graph, down to the places of the nodes, so that no solver can tell the two apart. -/
theorem of_adjacency_flattened (listing : List (N × List (N × W))) :
    (ofAdjacency listing).edges = (ofEdges (listedEdges listing)).edges ∧
    (∀ node, node ∈ (ofAdjacency listing).nodeSet ↔
      node ∈ (ofEdges (listedEdges listing)).nodeSet ∨ node ∈ listing.map Prod.fst) ∧
    ((∀ entry ∈ listing, entry.2 ≠ []) →
      ofAdjacency listing = ofEdges (listedEdges listing)) := by
  refine ⟨?_, ?_, insert_all_adjacency empty listing⟩
  · rw [ofAdjacency, ofEdges, build, build, edges_insert_all, edges_insert_all, joinings_adjacency]
  · intro node
    rw [ofAdjacency, ofEdges, mem_node_set_build, mem_node_set_build, mem_mentions_adjacency]

theorem of_adjacency_flattened_repeated :
    let listing : List (Int × List (Int × Int32)) :=
      [(3, [(1, 10), (3, 20)]), (2, [(2, 30)]), (3, [(4, 40), (1, 50)])]
    ofAdjacency listing = ofEdges (listedEdges listing) ∧
      (ofAdjacency listing).nodes = [3, 1, 2, 4] ∧
      (ofAdjacency listing).edges = [⟨3, 1, 50⟩, ⟨3, 4, 40⟩] :=
  ⟨(of_adjacency_flattened _).2.2 (by decide), by decide +kernel, by decide +kernel⟩

end FlowTour.Graph
