import FlowTour.Graph.Building
import FlowTour.Proofs.Graph.Rearranged

/-!
What a graph built by insertions holds, told from the insertions alone. The nodes are the keys in the
order of their first mention, the edges join the ordered pairs in the order in which they were first
joined, and the weight of a connection is the one it was given last.
-/

namespace FlowTour.Graph

variable {N W : Type}

def mentioned : Insertion N W → List N
  | .node node => [node]
  | .edge edge => [edge.source, edge.target]

def mentions (insertions : List (Insertion N W)) : List N := insertions.flatMap mentioned

variable [NodeKey N]

/-- The connection that an insertion makes, which is none from a node to itself. -/
def joined? : Insertion N W → Option (Edge N W)
  | .node _ => none
  | .edge edge => if edge.source = edge.target then none else some edge

def joinings (insertions : List (Insertion N W)) : List (Edge N W) :=
  insertions.filterMap joined?

/-- The weight of the last of these edges from the first node to the second one. -/
def lastWeight? (edges : List (Edge N W)) (source target : N) : Option W :=
  (edges.reverse.find? fun edge => edge.source = source ∧ edge.target = target).map Edge.weight

section Mention

variable [BEq N] [LawfulBEq N]

theorem mention_erase_dups (nodes : List N) (node : N) :
    mention nodes.eraseDups node = (nodes ++ [node]).eraseDups := by
  rw [List.eraseDups_append, mention]
  by_cases known : node ∈ nodes
  · simp [List.mem_eraseDups, known, List.removeAll]
  · simp [List.mem_eraseDups, known, List.removeAll, List.eraseDups_cons]

theorem foldl_mention_erase_dups (nodes more : List N) :
    more.foldl mention nodes.eraseDups = (nodes ++ more).eraseDups := by
  induction more generalizing nodes with
  | nil => simp
  | cons node more induction =>
      rw [List.foldl_cons, mention_erase_dups, induction, List.append_assoc, List.singleton_append]

theorem foldl_mention (more : List N) : more.foldl mention [] = more.eraseDups :=
  foldl_mention_erase_dups [] more

omit [NodeKey N] [LawfulBEq N] in
theorem head?_erase_dups (nodes : List N) : nodes.eraseDups.head? = nodes.head? := by
  cases nodes with
  | nil => rfl
  | cons node rest => rw [List.eraseDups_cons, List.head?_cons, List.head?_cons]

end Mention

section Place

variable (edge : Edge N W) (edges more : List (Edge N W))

theorem map_ends_foldl_place_edge :
    (more.foldl (fun edges edge => placeEdge edge edges) edges).map Edge.ends =
      (more.map Edge.ends).foldl mention (edges.map Edge.ends) := by
  induction more generalizing edges with
  | nil => rfl
  | cons edge more induction =>
      rw [List.foldl_cons, induction, map_ends_place_edge, List.map_cons, List.foldl_cons]

theorem find?_place_edge (source target : N) :
    (placeEdge edge edges).find? (fun other => other.source = source ∧ other.target = target) =
      if edge.source = source ∧ edge.target = target then some edge
      else edges.find? fun other => other.source = source ∧ other.target = target := by
  induction edges with
  | nil =>
      by_cases sought : edge.source = source ∧ edge.target = target
      · simp [placeEdge, sought]
      · rw [if_neg sought, placeEdge, List.find?_cons_of_neg (by simpa using sought)]
  | cons first rest induction =>
      by_cases same : first.ends = edge.ends
      · obtain ⟨sources, targets⟩ := Prod.mk.inj same
        simp only [placeEdge, if_pos same, List.find?_cons, sources, targets]
        split <;> simp_all
      · by_cases sought : edge.source = source ∧ edge.target = target
        · have other : ¬(first.source = source ∧ first.target = target) := by
            intro found
            exact same (Prod.ext (found.1.trans sought.1.symm) (found.2.trans sought.2.symm))
          rw [placeEdge, if_neg same, List.find?_cons_of_neg (by simpa using other), induction]
          rw [if_pos sought, if_pos sought]
        · rw [placeEdge, if_neg same, List.find?_cons, List.find?_cons, induction, if_neg sought,
            if_neg sought]

theorem find?_foldl_place_edge (source target : N) :
    ((more.foldl (fun edges edge => placeEdge edge edges) []).find? fun edge =>
        edge.source = source ∧ edge.target = target) =
      more.reverse.find? fun edge => edge.source = source ∧ edge.target = target := by
  induction more using List.reverseRecOn with
  | nil => rfl
  | append_singleton earlier edge induction =>
      rw [List.foldl_append, List.foldl_cons, List.foldl_nil, find?_place_edge, induction,
        List.reverse_concat, List.find?_cons]
      by_cases sought : edge.source = source ∧ edge.target = target
      · simp [sought]
      · rw [if_neg sought, decide_eq_false sought]

end Place

section Insertions

variable (graph : Graph N W)

theorem nodes_insert (insertion : Insertion N W) :
    (graph.insert insertion).nodes = (mentioned insertion).foldl mention graph.nodes := by
  cases insertion with
  | node node => rfl
  | edge edge =>
      by_cases loop : edge.source = edge.target
      · have known : edge.target ∈ mention graph.nodes edge.target := mem_mention.mpr (.inr rfl)
        simp [insert, insertEdge, insertNode, mentioned, loop,
          mention.eq_def (mention graph.nodes edge.target), known]
      · simp [insert, insertEdge, mentioned, loop]

theorem edges_insert (insertion : Insertion N W) :
    (graph.insert insertion).edges =
      (joined? insertion).toList.foldl (fun edges edge => placeEdge edge edges) graph.edges := by
  cases insertion with
  | node node => rfl
  | edge edge =>
      by_cases loop : edge.source = edge.target
      · simp [insert, insertEdge, insertNode, joined?, loop]
      · simp [insert, insertEdge, joined?, loop]

theorem nodes_insert_all (insertions : List (Insertion N W)) :
    (graph.insertAll insertions).nodes = (mentions insertions).foldl mention graph.nodes := by
  induction insertions generalizing graph with
  | nil => rfl
  | cons insertion rest induction =>
      have later := induction (graph.insert insertion)
      rw [nodes_insert, ← List.foldl_append] at later
      exact later

theorem edges_insert_all (insertions : List (Insertion N W)) :
    (graph.insertAll insertions).edges =
      (joinings insertions).foldl (fun edges edge => placeEdge edge edges) graph.edges := by
  induction insertions generalizing graph with
  | nil => rfl
  | cons insertion rest induction =>
      have later := induction (graph.insert insertion)
      rw [edges_insert, ← List.foldl_append] at later
      rw [joinings, List.filterMap_cons]
      cases joined : joined? insertion <;> simpa [joined, joinings, insertAll] using later

end Insertions

section Build

variable (insertions : List (Insertion N W))

theorem nodes_build [BEq N] [LawfulBEq N] :
    (build insertions).nodes = (mentions insertions).eraseDups :=
  (nodes_insert_all empty insertions).trans (foldl_mention _)

theorem ends_build [BEq (N × N)] [LawfulBEq (N × N)] :
    (build insertions).edges.map Edge.ends = ((joinings insertions).map Edge.ends).eraseDups := by
  rw [build, edges_insert_all, map_ends_foldl_place_edge]
  exact foldl_mention _

theorem weight?_build (source target : N) :
    (build insertions).weight? source target = lastWeight? (joinings insertions) source target := by
  rw [weight?, build, edges_insert_all]
  exact congrArg (Option.map Edge.weight) (find?_foldl_place_edge (joinings insertions) source target)

theorem head?_build : (build insertions).nodes.head? = (mentions insertions).head? := by
  rw [nodes_build, head?_erase_dups]

end Build

end FlowTour.Graph
