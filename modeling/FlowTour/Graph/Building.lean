import FlowTour.Graph.Basic
import FlowTour.Report

/-!
Building graphs one insertion at a time. Joining two nodes that are joined already replaces the
weight and keeps the edge's place; an edge from a node to itself only mentions the node. Both of
these leave a notice.
-/

namespace FlowTour

inductive Insertion (N W : Type) where
  | node (node : N)
  | edge (edge : Edge N W)

namespace Graph

variable {N W : Type} [NodeKey N]

/-- Mentions a node: it goes to the end of the list unless it is there. -/
def mention (nodes : List N) (node : N) : List N :=
  if node ∈ nodes then nodes else nodes ++ [node]

theorem mem_mention {nodes : List N} {node other : N} :
    other ∈ mention nodes node ↔ other ∈ nodes ∨ other = node := by
  unfold mention
  split
  · constructor
    · exact Or.inl
    · rintro (member | rfl) <;> assumption
  · simp

theorem nodup_mention {nodes : List N} (distinct : nodes.Nodup) (node : N) :
    (mention nodes node).Nodup := by
  unfold mention
  split
  · exact distinct
  · next absent =>
    rw [List.nodup_append]
    exact ⟨distinct, by simp, by simp; intro other member same; exact absent (same ▸ member)⟩

/-- Replaces the edge with the same ends, or else goes to the end of the list. -/
def placeEdge (edge : Edge N W) : List (Edge N W) → List (Edge N W)
  | [] => [edge]
  | other :: rest =>
      if other.ends = edge.ends then edge :: rest else other :: placeEdge edge rest

theorem map_ends_place_edge (edge : Edge N W) (edges : List (Edge N W)) :
    (placeEdge edge edges).map Edge.ends = mention (edges.map Edge.ends) edge.ends := by
  induction edges with
  | nil => simp [placeEdge, mention]
  | cons other rest induction =>
      by_cases same : other.ends = edge.ends
      · simp [placeEdge, mention, same]
      · simp only [placeEdge, if_neg same, List.map_cons, induction, mention, List.mem_cons,
          Ne.symm same, false_or]
        split <;> rfl

theorem mem_of_mem_place_edge {edge other : Edge N W} {edges : List (Edge N W)}
    (member : other ∈ placeEdge edge edges) : other ∈ edges ∨ other = edge := by
  induction edges with
  | nil => simpa [placeEdge] using member
  | cons first rest induction =>
      simp only [placeEdge] at member
      split at member <;> simp only [List.mem_cons] at member ⊢
      · rcases member with rfl | member <;> simp [*]
      · rcases member with rfl | member
        · simp
        · rcases induction member with found | rfl <;> simp [*]

def insertNode (graph : Graph N W) (node : N) : Graph N W where
  nodes := mention graph.nodes node
  edges := graph.edges
  nodes_nodup := nodup_mention graph.nodes_nodup node
  ends_nodup := graph.ends_nodup
  ends_mem := by
    intro edge member
    have ends := graph.ends_mem edge member
    exact ⟨mem_mention.mpr (.inl ends.1), mem_mention.mpr (.inl ends.2)⟩
  no_loop := graph.no_loop

/-- The source of a new edge is mentioned before its target. -/
def insertEdge (graph : Graph N W) (edge : Edge N W) : Graph N W :=
  if loop : edge.source = edge.target then graph.insertNode edge.source
  else
    { nodes := mention (mention graph.nodes edge.source) edge.target
      edges := placeEdge edge graph.edges
      nodes_nodup := nodup_mention (nodup_mention graph.nodes_nodup _) _
      ends_nodup := by
        rw [map_ends_place_edge]
        exact nodup_mention graph.ends_nodup _
      ends_mem := by
        intro other member
        simp only [mem_mention]
        rcases mem_of_mem_place_edge member with found | rfl
        · have ends := graph.ends_mem other found
          exact ⟨.inl (.inl ends.1), .inl (.inl ends.2)⟩
        · exact ⟨.inl (.inr rfl), .inr rfl⟩
      no_loop := by
        intro other member
        rcases mem_of_mem_place_edge member with found | rfl
        · exact graph.no_loop other found
        · exact loop }

def insert (graph : Graph N W) : Insertion N W → Graph N W
  | .node node => graph.insertNode node
  | .edge edge => graph.insertEdge edge

/-- What has to be said about an insertion into this graph. -/
def notice? (graph : Graph N W) : Insertion N W → Option (Notice N W)
  | .node _ => none
  | .edge edge =>
      if edge.source = edge.target then some (.ignoredLoop edge.source)
      else
        (graph.weight? edge.source edge.target).map fun old =>
          .replacedWeight edge.source edge.target old edge.weight

def insertAll (graph : Graph N W) (insertions : List (Insertion N W)) : Graph N W :=
  insertions.foldl insert graph

def notices (graph : Graph N W) : List (Insertion N W) → List (Notice N W)
  | [] => []
  | insertion :: rest =>
      (graph.notice? insertion).toList ++ (graph.insert insertion).notices rest

def build (insertions : List (Insertion N W)) : Graph N W := empty.insertAll insertions

/-- An adjacency listing mentions each of its keys before the edges that leave it. -/
def adjacencyInsertions (listing : List (N × List (N × W))) : List (Insertion N W) :=
  listing.flatMap fun (source, targets) =>
    .node source :: targets.map fun (target, weight) => .edge ⟨source, target, weight⟩

def ofEdges (edges : List (Edge N W)) : Graph N W := build (edges.map .edge)

def ofAdjacency (listing : List (N × List (N × W))) : Graph N W :=
  build (adjacencyInsertions listing)

end Graph

end FlowTour
