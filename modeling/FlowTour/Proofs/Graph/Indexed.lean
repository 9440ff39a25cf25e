import FlowTour.Graph.Indexed
import FlowTour.Proofs.Graph.Building

/-!
Graphs kept in an arena and an index follow the graphs that list their nodes and edges. Every insertion
keeps the two in step: a number in the index is the place of its key, and a joint is its edge with
places for keys.
-/

namespace FlowTour

/-- What an arena promises. It finds some joint between two nodes where there is one, and promises
nothing about joints of nodes or weights of joints that it does not have. -/
class LawfulArena (A : Type) {N W : outParam Type} [Arena A N W] : Prop where
  nodes_empty : Arena.nodes (Arena.empty : A) = []
  joints_empty : Arena.joints (Arena.empty : A) = []
  add_node_snd : ∀ (arena : A) (node : N),
    (Arena.addNode arena node).2 = (Arena.nodes arena).length
  nodes_add_node : ∀ (arena : A) (node : N),
    Arena.nodes (Arena.addNode arena node).1 = Arena.nodes arena ++ [node]
  joints_add_node : ∀ (arena : A) (node : N),
    Arena.joints (Arena.addNode arena node).1 = Arena.joints arena
  nodes_add_joint : ∀ (arena : A) (joint : Joint W),
    joint.source < (Arena.nodes arena).length → joint.target < (Arena.nodes arena).length →
      Arena.nodes (Arena.addJoint arena joint) = Arena.nodes arena
  joints_add_joint : ∀ (arena : A) (joint : Joint W),
    joint.source < (Arena.nodes arena).length → joint.target < (Arena.nodes arena).length →
      Arena.joints (Arena.addJoint arena joint) = Arena.joints arena ++ [joint]
  of_find_joint_some : ∀ (arena : A) (source target place : Nat),
    Arena.findJoint arena source target = some place →
      ∃ weight, (Arena.joints arena)[place]? = some ⟨source, target, weight⟩
  of_find_joint_none : ∀ (arena : A) (source target : Nat),
    Arena.findJoint arena source target = none →
      ∀ weight, ⟨source, target, weight⟩ ∉ Arena.joints arena
  nodes_set_weight : ∀ (arena : A) (place : Nat) (joint : Joint W) (weight : W),
    (Arena.joints arena)[place]? = some joint →
      Arena.nodes (Arena.setWeight arena place weight) = Arena.nodes arena
  joints_set_weight : ∀ (arena : A) (place : Nat) (joint : Joint W) (weight : W),
    (Arena.joints arena)[place]? = some joint →
      Arena.joints (Arena.setWeight arena place weight) =
        (Arena.joints arena).set place { joint with weight }

/-- An arena of two lists. -/
structure ListArena (N W : Type) where
  nodes : List N
  joints : List (Joint W)

namespace ListArena

variable {N W : Type}

instance : Arena (ListArena N W) N W where
  empty := ⟨[], []⟩
  nodes := nodes
  joints := joints
  addNode arena node := (⟨arena.nodes ++ [node], arena.joints⟩, arena.nodes.length)
  addJoint arena joint := ⟨arena.nodes, arena.joints ++ [joint]⟩
  findJoint arena source target :=
    arena.joints.findIdx? fun joint => joint.source = source ∧ joint.target = target
  setWeight arena place weight :=
    ⟨arena.nodes, arena.joints.modify place fun joint => { joint with weight }⟩

instance : LawfulArena (ListArena N W) where
  nodes_empty := rfl
  joints_empty := rfl
  add_node_snd _ _ := rfl
  nodes_add_node _ _ := rfl
  joints_add_node _ _ := rfl
  nodes_add_joint _ _ _ _ := rfl
  joints_add_joint _ _ _ _ := rfl
  of_find_joint_some arena source target place found := by
    obtain ⟨inside, ends, -⟩ := List.findIdx?_eq_some_iff_getElem.mp found
    obtain ⟨rfl, rfl⟩ := of_decide_eq_true ends
    exact ⟨arena.joints[place].weight, List.getElem?_eq_getElem inside⟩
  of_find_joint_none arena source target missing weight member := by
    have other := List.findIdx?_eq_none_iff.mp missing _ member
    simp at other
  nodes_set_weight _ _ _ _ _ := rfl
  joints_set_weight arena place joint weight listed := by
    refine (List.modify_eq_set_getElem? _ place arena.joints).trans ?_
    rw [show arena.joints[place]? = some joint from listed]
    rfl

end ListArena

namespace Graph

variable {N W : Type} [NodeKey N]

theorem insert_node_of_mem {graph : Graph N W} {node : N} (known : node ∈ graph.nodes) :
    graph.insertNode node = graph := by
  cases graph
  simp [insertNode, mention, known]

theorem place_edge_of_absent {edge : Edge N W} {edges : List (Edge N W)}
    (absent : ∀ other ∈ edges, other.ends ≠ edge.ends) : placeEdge edge edges = edges ++ [edge] := by
  induction edges with
  | nil => rfl
  | cons first rest induction =>
      have different := absent first (List.mem_cons_self ..)
      rw [placeEdge, if_neg different,
        induction fun other member => absent other (List.mem_cons_of_mem _ member)]
      rfl

theorem place_edge_eq_set {edge other : Edge N W} {edges : List (Edge N W)}
    (distinct : (edges.map Edge.ends).Nodup) {place : Nat} (listed : edges[place]? = some other)
    (same : other.ends = edge.ends) : placeEdge edge edges = edges.set place edge := by
  induction edges generalizing place with
  | nil => simp at listed
  | cons first rest induction =>
      have parts := List.nodup_cons.mp distinct
      cases place with
      | zero =>
          obtain rfl : first = other := by simpa using listed
          rw [placeEdge, if_pos same]
          rfl
      | succ place =>
          have later : rest[place]? = some other := by simpa using listed
          have different : first.ends ≠ edge.ends := by
            intro again
            apply parts.1
            rw [again, ← same]
            exact List.mem_map_of_mem (List.mem_of_getElem? later)
          rw [placeEdge, if_neg different, induction parts.2 later]
          rfl

def jointOf (nodes : List N) (edge : Edge N W) : Joint W :=
  ⟨nodes.idxOf edge.source, nodes.idxOf edge.target, edge.weight⟩

theorem idx_of_mention {nodes : List N} {node : N} (known : node ∈ nodes) (other : N) :
    (mention nodes other).idxOf node = nodes.idxOf node := by
  unfold mention
  split
  · rfl
  · exact List.idxOf_append_of_mem known

theorem joint_of_append {nodes : List N} {edge : Edge N W} (source : edge.source ∈ nodes)
    (target : edge.target ∈ nodes) (more : List N) :
    jointOf (nodes ++ more) edge = jointOf nodes edge := by
  simp only [jointOf, List.idxOf_append_of_mem, source, target]

end Graph

namespace Indexed

open FlowTour.Graph (jointOf mentions joinings lastWeight? adjacencyInsertions)

variable {A N W : Type} [NodeKey N] [Arena A N W]

omit [NodeKey N] in
theorem get_elem?_concat_eq_some_iff {nodes : List N} {node other : N} {place : Nat} :
    (nodes ++ [node])[place]? = some other ↔
      nodes[place]? = some other ∨ place = nodes.length ∧ node = other := by
  grind

theorem places_insert_eq_some_iff {places : Std.TreeMap N Nat} {node other : N} {number place : Nat}
    (unknown : places[node]? = none) :
    (places.insert node number)[other]? = some place ↔
      places[other]? = some place ∨ place = number ∧ node = other := by
  by_cases same : node = other
  · subst same
    simp [unknown, eq_comm]
  · have different : compare node other ≠ .eq :=
      fun equal => same (Std.LawfulEqCmp.eq_of_compare equal)
    simp [Std.TreeMap.getElem?_insert, different, same]

/-- The two structures hold what the lists of the graph hold. -/
structure Mirrors (store : Indexed A N) (graph : Graph N W) : Prop where
  nodes : Arena.nodes store.arena = graph.nodes
  places : ∀ (node : N) (place : Nat),
    store.places[node]? = some place ↔ graph.nodes[place]? = some node
  joints : Arena.joints store.arena = graph.edges.map (jointOf graph.nodes)

namespace Mirrors

section Step

variable {store : Indexed A N} {graph : Graph N W} (mirrors : store.Mirrors graph)
include mirrors

theorem places_eq_some {node : N} (known : node ∈ graph.nodes) :
    store.places[node]? = some (graph.nodes.idxOf node) := by
  rw [mirrors.places]
  exact List.getElem?_idxOf known

theorem places_eq_none {node : N} (unknown : node ∉ graph.nodes) : store.places[node]? = none := by
  rw [Option.eq_none_iff_forall_ne_some]
  intro place found
  exact unknown (List.mem_of_getElem? ((mirrors.places node place).mp found))

theorem eq_idx_of {node : N} {place : Nat} (found : store.places[node]? = some place) :
    place = graph.nodes.idxOf node := by
  have known := List.mem_of_getElem? ((mirrors.places node place).mp found)
  exact Option.some.inj (found.symm.trans (mirrors.places_eq_some known))

theorem get_elem?_edges {source target : N} {place : Nat} {weight : W}
    (listed : (Arena.joints store.arena)[place]? =
      some ⟨graph.nodes.idxOf source, graph.nodes.idxOf target, weight⟩) :
    graph.edges[place]? = some ⟨source, target, weight⟩ := by
  rw [mirrors.joints, List.getElem?_map] at listed
  obtain ⟨edge, found, same⟩ := Option.map_eq_some_iff.mp listed
  have ends := graph.ends_mem edge (List.mem_of_getElem? found)
  have sources := (List.idxOf_inj ends.1).mp (congrArg Joint.source same)
  have targets := (List.idxOf_inj ends.2).mp (congrArg Joint.target same)
  have weights := congrArg Joint.weight same
  cases edge
  cases sources
  cases targets
  cases weights
  exact found

variable [LawfulArena A]

theorem locate (node : N) : (store.locate node).1.Mirrors (graph.insertNode node) ∧
    (store.locate node).2 = (graph.insertNode node).nodes.idxOf node := by
  by_cases known : node ∈ graph.nodes
  · rw [Indexed.locate, mirrors.places_eq_some known, Graph.insert_node_of_mem known]
    exact ⟨mirrors, rfl⟩
  · have nodes : (graph.insertNode node).nodes = graph.nodes ++ [node] := if_neg known
    have number : (Arena.addNode store.arena node).2 = graph.nodes.length := by
      rw [LawfulArena.add_node_snd, mirrors.nodes]
    rw [Indexed.locate, mirrors.places_eq_none known]
    refine ⟨⟨?_, ?_, ?_⟩, ?_⟩
    · rw [nodes, ← mirrors.nodes]
      exact LawfulArena.nodes_add_node store.arena node
    · intro other place
      simp only [number, nodes]
      rw [places_insert_eq_some_iff (mirrors.places_eq_none known), mirrors.places,
        get_elem?_concat_eq_some_iff]
    · rw [LawfulArena.joints_add_node, mirrors.joints, nodes]
      apply List.map_congr_left
      intro edge member
      have ends := graph.ends_mem edge member
      exact (Graph.joint_of_append ends.1 ends.2 [node]).symm
    · rw [nodes, List.idxOf_append_of_notMem known, List.idxOf_cons_self]
      exact number

theorem join {edge : Edge N W} (first : edge.source ∈ graph.nodes)
    (second : edge.target ∈ graph.nodes) :
    Arena.nodes (join store.arena (jointOf graph.nodes edge)) = graph.nodes ∧
      Arena.joints (join store.arena (jointOf graph.nodes edge)) =
        (Graph.placeEdge edge graph.edges).map (jointOf graph.nodes) := by
  unfold Indexed.join
  split
  case h_1 place found =>
    obtain ⟨weight, joint⟩ := LawfulArena.of_find_joint_some _ _ _ _ found
    have listed := mirrors.get_elem?_edges joint
    have placed : Graph.placeEdge edge graph.edges = graph.edges.set place edge :=
      Graph.place_edge_eq_set graph.ends_nodup listed rfl
    constructor
    · rw [LawfulArena.nodes_set_weight _ _ _ _ joint, mirrors.nodes]
    · rw [LawfulArena.joints_set_weight _ _ _ _ joint, mirrors.joints, placed, List.map_set]
  case h_2 missing =>
    have inside : ∀ node ∈ graph.nodes,
        graph.nodes.idxOf node < (Arena.nodes store.arena).length := by
      intro node member
      rw [mirrors.nodes]
      exact List.idxOf_lt_length_of_mem member
    have absent : ∀ other ∈ graph.edges, other.ends ≠ edge.ends := by
      intro other member same
      obtain ⟨sources, targets⟩ := Prod.mk.inj same
      apply LawfulArena.of_find_joint_none _ _ _ missing other.weight
      rw [mirrors.joints]
      exact List.mem_map.mpr ⟨other, member, by simp [jointOf, sources, targets]⟩
    have placed := Graph.place_edge_of_absent absent
    constructor
    · rw [LawfulArena.nodes_add_joint _ _ (inside _ first) (inside _ second), mirrors.nodes]
    · rw [LawfulArena.joints_add_joint _ _ (inside _ first) (inside _ second), mirrors.joints, placed,
        List.map_append, List.map_singleton]

theorem insert_edge (edge : Edge N W) :
    (store.insertEdge edge).1.Mirrors (graph.insertEdge edge) := by
  by_cases loop : edge.source = edge.target
  · rw [Indexed.insertEdge, if_pos loop, Graph.insertEdge, dif_pos loop]
    exact (mirrors.locate edge.source).1
  · obtain ⟨firstMirrors, firstPlace⟩ := mirrors.locate edge.source
    obtain ⟨secondMirrors, secondPlace⟩ := firstMirrors.locate edge.target
    have source : edge.source ∈ (graph.insertNode edge.source).nodes :=
      Graph.mem_mention.mpr (.inr rfl)
    have joint : jointOf ((graph.insertNode edge.source).insertNode edge.target).nodes edge =
        ⟨(store.locate edge.source).2, ((store.locate edge.source).1.locate edge.target).2,
          edge.weight⟩ := by
      rw [firstPlace, secondPlace, jointOf]
      exact congrArg (Joint.mk · _ _) (Graph.idx_of_mention source edge.target)
    have joined := secondMirrors.join (Graph.mem_mention.mpr (.inl source))
      (Graph.mem_mention.mpr (.inr rfl))
    rw [Indexed.insertEdge, if_neg loop, Graph.insertEdge, dif_neg loop]
    rw [joint] at joined
    exact ⟨joined.1, secondMirrors.places, joined.2⟩

theorem insert (insertion : Insertion N W) :
    (store.insert insertion).Mirrors (graph.insert insertion) := by
  cases insertion with
  | node node => exact (mirrors.locate node).1
  | edge edge => exact mirrors.insert_edge edge

theorem insert_all (insertions : List (Insertion N W)) :
    (insertions.foldl Indexed.insert store).Mirrors (graph.insertAll insertions) := by
  induction insertions generalizing store graph with
  | nil => exact mirrors
  | cons insertion rest induction => exact induction (mirrors.insert insertion)

end Step

theorem build [LawfulArena A] (insertions : List (Insertion N W)) :
    (build insertions : Indexed A N).Mirrors (Graph.build insertions) := by
  have start : (empty : Indexed A N).Mirrors (Graph.empty : Graph N W) := by
    refine ⟨LawfulArena.nodes_empty, ?_, LawfulArena.joints_empty⟩
    intro node place
    simp [empty, Graph.empty]
  exact start.insert_all insertions

section Queries

variable {store : Indexed A N} {graph : Graph N W} (mirrors : store.Mirrors graph)
include mirrors

theorem edges?_eq : store.edges? = some graph.edges := by
  have standsFor : ∀ edge ∈ graph.edges, store.edgeOf? (jointOf graph.nodes edge) = some edge := by
    intro edge member
    have ends := graph.ends_mem edge member
    simp [edgeOf?, jointOf, mirrors.nodes, List.getElem?_idxOf ends.1, List.getElem?_idxOf ends.2]
  rw [edges?, mirrors.joints]
  generalize graph.edges = edges at standsFor
  induction edges with
  | nil => rfl
  | cons edge rest induction =>
      rw [List.map_cons, List.mapM_cons, standsFor edge (List.mem_cons_self ..),
        induction fun other member => standsFor other (List.mem_cons_of_mem _ member)]
      rfl

theorem mem_node_set {node : N} : node ∈ store.nodeSet ↔ node ∈ graph.nodes := by
  have listed : node ∈ store.places ↔ node ∈ graph.nodes := by
    by_cases known : node ∈ graph.nodes
    · simp [Std.TreeMap.mem_iff_isSome_getElem?, mirrors.places_eq_some known, known]
    · simp [Std.TreeMap.mem_iff_isSome_getElem?, mirrors.places_eq_none known, known]
  rw [nodeSet, Std.TreeSet.mem_ofList, List.contains_iff_mem, Std.TreeMap.mem_keys, listed]

theorem size_node_set : store.nodeSet.size = graph.nodes.length := by
  have distinct : store.places.keys.Nodup := by
    apply Std.TreeMap.distinct_keys.imp
    intro first second different same
    exact different (same ▸ Std.ReflCmp.compare_self)
  have perm : store.places.keys.Perm graph.nodes := by
    rw [List.perm_ext_iff_of_nodup distinct graph.nodes_nodup]
    intro node
    rw [← mirrors.mem_node_set, nodeSet, Std.TreeSet.mem_ofList, List.contains_iff_mem]
  rw [nodeSet, Std.TreeSet.size_ofList Std.TreeMap.distinct_keys, perm.length_eq]

theorem no_loop : ∀ joint ∈ Arena.joints store.arena, joint.source ≠ joint.target := by
  rw [mirrors.joints]
  intro joint member same
  obtain ⟨edge, listed, rfl⟩ := List.mem_map.mp member
  exact graph.no_loop edge listed ((List.idxOf_inj (graph.ends_mem edge listed).1).mp same)

theorem weight?_eq [LawfulArena A] (source target : N) :
    store.weight? source target = graph.weight? source target := by
  ext weight
  rw [Graph.weight?_eq_some_iff_mem]
  constructor
  · intro found
    simp only [weight?, Option.bind_eq_bind, Option.bind_eq_some_iff, Option.pure_def,
      Option.some.injEq] at found
    obtain ⟨first, firstPlace, second, secondPlace, place, answer, joint, listed, rfl⟩ := found
    obtain ⟨held, same⟩ := LawfulArena.of_find_joint_some _ _ _ _ answer
    obtain rfl := Option.some.inj (same.symm.trans listed)
    rw [mirrors.eq_idx_of firstPlace, mirrors.eq_idx_of secondPlace] at listed
    exact List.mem_of_getElem? (mirrors.get_elem?_edges listed)
  · intro member
    have ends := graph.ends_mem _ member
    have joint : ⟨graph.nodes.idxOf source, graph.nodes.idxOf target, weight⟩ ∈
        Arena.joints store.arena := by
      rw [mirrors.joints]
      exact List.mem_map_of_mem member
    rw [weight?, mirrors.places_eq_some ends.1, mirrors.places_eq_some ends.2]
    cases answer : Arena.findJoint store.arena (graph.nodes.idxOf source)
        (graph.nodes.idxOf target) with
    | none => exact absurd joint (LawfulArena.of_find_joint_none _ _ _ answer weight)
    | some place =>
        obtain ⟨held, listed⟩ := LawfulArena.of_find_joint_some _ _ _ _ answer
        have found := Graph.weight?_eq_some_iff_mem.mpr
          (List.mem_of_getElem? (mirrors.get_elem?_edges listed))
        obtain rfl := Option.some.inj
          ((Graph.weight?_eq_some_iff_mem.mpr member).symm.trans found)
        simp [answer, listed]

end Queries

end Mirrors

section Loops

theorem of_edges_eq_build (edges : List (Edge N W)) :
    (ofEdges edges : Indexed A N) = build (edges.map .edge) := by
  rw [build, List.foldl_map]
  rfl

theorem of_adjacency_eq_build (listing : List (N × List (N × W))) :
    (ofAdjacency listing : Indexed A N) = build (adjacencyInsertions listing) := by
  rw [build, adjacencyInsertions, List.foldl_flatMap, ofAdjacency]
  congr 1
  funext store entry
  rw [List.foldl_cons, List.foldl_map]
  rfl

end Loops

/-- What a store holds after these insertions. -/
structure Holds (store : Indexed A N) (insertions : List (Insertion N W)) : Prop where
  places_iff : ∀ (node : N) (place : Nat),
    store.places[node]? = some place ↔ (Arena.nodes store.arena)[place]? = some node
  mem_node_set : ∀ node, node ∈ store.nodeSet ↔ node ∈ mentions insertions
  nodeCount : store.nodeCount = store.nodeSet.size
  edges : ∃ edges, store.edges? = some edges ∧ store.edgeCount = edges.length ∧
    (edges.map Edge.ends).Nodup ∧
    edges.map Edge.ends = ((joinings insertions).map Edge.ends).eraseDups ∧
    ∀ edge ∈ edges, lastWeight? (joinings insertions) edge.source edge.target = some edge.weight
  weight? : ∀ source target,
    store.weight? source target = lastWeight? (joinings insertions) source target
  no_loop : ∀ joint ∈ Arena.joints store.arena, joint.source ≠ joint.target
  nodes_eq : Arena.nodes store.arena = (Graph.build insertions).nodes
  edges_eq : store.edges? = some (Graph.build insertions).edges

theorem Mirrors.holds [LawfulArena A] {store : Indexed A N} {insertions : List (Insertion N W)}
    (mirrors : store.Mirrors (Graph.build insertions)) : store.Holds insertions where
  places_iff node place := by rw [mirrors.nodes, mirrors.places]
  mem_node_set node := by rw [mirrors.mem_node_set, Graph.nodes_build, List.mem_eraseDups]
  nodeCount := by rw [nodeCount, mirrors.nodes, mirrors.size_node_set]
  edges := by
    refine ⟨(Graph.build insertions).edges, mirrors.edges?_eq, ?_,
      (Graph.build insertions).ends_nodup, Graph.ends_build insertions, ?_⟩
    · rw [edgeCount, mirrors.joints, List.length_map]
    · intro edge member
      rw [← Graph.weight?_build, ← Graph.mem_edges_iff]
      exact member
  weight? source target := by rw [mirrors.weight?_eq, Graph.weight?_build]
  no_loop := mirrors.no_loop
  nodes_eq := mirrors.nodes
  edges_eq := mirrors.edges?_eq

/-- Whatever is inserted, one by one or from a listing, is held in step by both structures. -/
theorem holds_of_insertions [LawfulArena A] :
    (∀ insertions : List (Insertion N W), (build insertions : Indexed A N).Holds insertions) ∧
    (∀ edges : List (Edge N W), (ofEdges edges : Indexed A N).Holds (edges.map .edge)) ∧
    (∀ listing : List (N × List (N × W)),
      (ofAdjacency listing : Indexed A N).Holds (adjacencyInsertions listing)) := by
  have built : ∀ insertions : List (Insertion N W),
      (build insertions : Indexed A N).Holds insertions :=
    fun insertions => (Mirrors.build insertions).holds
  refine ⟨built, ?_, ?_⟩
  · intro edges
    rw [of_edges_eq_build]
    exact built (edges.map .edge)
  · intro listing
    rw [of_adjacency_eq_build]
    exact built (adjacencyInsertions listing)

theorem holds_of_insertions_overwritten :
    let insertions : List (Insertion Int Int) :=
      [.edge ⟨2, 1, 10⟩, .edge ⟨1, 3, 20⟩, .edge ⟨4, 4, 30⟩, .edge ⟨2, 1, 40⟩, .node 0]
    let store : Indexed (ListArena Int Int) Int := build insertions
    store.Holds insertions ∧ store.places.toList = [(0, 4), (1, 1), (2, 0), (3, 2), (4, 3)] ∧
      store.edges? = some [⟨2, 1, 40⟩, ⟨1, 3, 20⟩] :=
  ⟨holds_of_insertions.1 _, by decide +kernel, by decide +kernel⟩

end Indexed

end FlowTour
