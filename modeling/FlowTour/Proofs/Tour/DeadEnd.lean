import FlowTour.Proofs.Graph.Rearranged
import FlowTour.Proofs.Tour.Answers
import FlowTour.Proofs.Tour.Budget

/-!
Nodes that cannot be left or cannot be entered. No round trip goes through such a node, so the walk to
the nearest node gets stuck somewhere, and the search finds no bound for the path of its first node
and has nothing to expand. Where the walk blames a dead end there is one, and where it does not every
node has an edge of both kinds.
-/

namespace FlowTour

/-- No edge leaves the node, or no edge enters it. -/
def Graph.IsDeadEnd {N W : Type} (graph : Graph N W) (node : N) : Prop :=
  (∀ edge ∈ graph.edges, edge.source ≠ node) ∨ ∀ edge ∈ graph.edges, edge.target ≠ node

theorem Graph.not_is_dead_end_iff {N W : Type} {graph : Graph N W} {node : N} :
    ¬graph.IsDeadEnd node ↔
      (∃ edge ∈ graph.edges, edge.source = node) ∧ ∃ edge ∈ graph.edges, edge.target = node := by
  simp [Graph.IsDeadEnd]

namespace Tour

variable {n : Nat} {N W : Type}

section Table

variable {distances : Distances n W} {start node : Fin n} {cycle : List (Fin n)}

/-- There is no distance to any node, or none from any node. -/
def Distances.IsDeadEnd (distances : Distances n W) (node : Fin n) : Prop :=
  (∀ target, distances.get node target = none) ∨ ∀ source, distances.get source node = none

theorem has_dead_end_iff (several : 1 < n) :
    distances.hasDeadEnd = true ↔ ∃ node, distances.IsDeadEnd node := by
  simp [Distances.hasDeadEnd, Distances.IsDeadEnd, several]

theorem Distances.Circuit.not_is_dead_end (circuit : distances.Circuit start cycle) (node : Fin n) :
    ¬distances.IsDeadEnd node := by
  have visited : node ∈ cycle := circuit.perm.mem_iff.mpr (List.mem_finRange node)
  rintro (unleft | unentered)
  · rw [← Distances.round_steps_map_fst cycle] at visited
    obtain ⟨step, member, rfl⟩ := List.mem_map.mp visited
    have joined := circuit.joins step member
    rw [unleft step.2] at joined
    cases joined
  · rw [← List.mem_rotate (n := 1), ← Distances.round_steps_map_snd cycle] at visited
    obtain ⟨step, member, rfl⟩ := List.mem_map.mp visited
    have joined := circuit.joins step member
    rw [unentered step.1] at joined
    cases joined

end Table

section Bound

variable [Weight W] {distances : Distances n W} {start last node : Fin n} {remaining : List (Fin n)}

theorem exists_of_least? {edge? : Fin n → Option W} {nodes : List (Fin n)} {least : W}
    (found : Weight.least? (nodes.filterMap edge?) = some least) :
    ∃ node, (edge? node).isSome = true := by
  cases listed : nodes.filterMap edge? with
  | nil =>
      rw [listed] at found
      cases found
  | cons weight rest =>
      have member : weight ∈ nodes.filterMap edge? := by
        rw [listed]
        exact List.mem_cons_self ..
      obtain ⟨node, -, edge⟩ := List.mem_filterMap.mp member
      exact ⟨node, by rw [edge, Option.isSome_some]⟩

theorem exists_share_of_foldlm {share? : Fin n → Option W} {nodes : List (Fin n)} {first sum : W}
    (summed : nodes.foldlM (fun sum node => do
      let share ← share? node
      return sum + share) first = some sum) :
    ∀ node ∈ nodes, ∃ share, share? node = some share := by
  induction nodes generalizing first with
  | nil => exact fun node member => nomatch member
  | cons node rest induction =>
      rw [List.foldlM_cons] at summed
      obtain ⟨next, added, others⟩ := Option.bind_eq_some_iff.mp summed
      obtain ⟨share, here, -⟩ := Option.bind_eq_some_iff.mp added
      intro other member
      rcases List.mem_cons.mp member with rfl | later
      · exact ⟨share, here⟩
      · exact induction others other later

theorem exists_target_of_leaving_bound? {bound : W}
    (found : leavingBound? distances start last remaining = some bound)
    (listed : node ∈ last :: remaining) :
    ∃ target, (distances.get node target).isSome = true := by
  rw [leavingBound?, sumLeaving, result?_add_shares] at found
  obtain ⟨first, least, summed⟩ := Option.bind_eq_some_iff.mp found
  rcases List.mem_cons.mp listed with rfl | later
  · exact exists_of_least? least
  · obtain ⟨share, smallest⟩ := exists_share_of_foldlm summed node later
    exact exists_of_least? smallest

theorem exists_source_of_entering_bound? {bound : W}
    (found : enteringBound? distances start last remaining = some bound)
    (listed : node ∈ start :: remaining) :
    ∃ source, (distances.get source node).isSome = true := by
  rw [enteringBound?, sumEntering, result?_add_shares] at found
  obtain ⟨final, least, summed⟩ := Option.bind_eq_some_iff.mp found
  rcases List.mem_cons.mp listed with rfl | later
  · exact exists_of_least? least
  · obtain ⟨share, smallest⟩ := exists_share_of_foldlm summed node later
    exact exists_of_least? smallest

theorem lower_bound?_start_eq_none (isDeadEnd : distances.IsDeadEnd node) (distance : W) :
    lowerBound? distances start ⟨start, []⟩ distance = none := by
  have ahead : node ∈ start :: (⟨start, []⟩ : Trail n).remaining := by
    rw [List.mem_cons, Trail.mem_remaining]
    simp [Trail.nodes, em]
  rw [Option.eq_none_iff_forall_ne_some]
  intro bound found
  obtain ⟨leaving, left, entering, entered, -⟩ := lower_bound?_eq_some_iff.mp found
  rcases isDeadEnd with unleft | unentered
  · obtain ⟨target, joined⟩ := exists_target_of_leaving_bound? left ahead
    rw [unleft target] at joined
    cases joined
  · obtain ⟨source, joined⟩ := exists_source_of_entering_bound? entered ahead
    rw [unentered source] at joined
    cases joined

end Bound

section Search

variable [Weight W] {distances : Distances n W} {start node : Fin n} {Cause : Type}

theorem nearest_neighbor?_eq_none (several : 1 < n) (isDeadEnd : distances.IsDeadEnd node) :
    nearestNeighbor? distances start = none := by
  rw [Option.eq_none_iff_forall_ne_some]
  intro stops walked
  exact (nearest_neighbor?_eq_some several walked).not_is_dead_end node isDeadEnd

/-- With a dead end there is nothing to begin with, so the search is at its end at once. -/
theorem run_search_of_is_dead_end (several : 1 < n) (isDeadEnd : distances.IsDeadEnd node)
    (budget : Option Nat) :
    (runSearch distances start budget : Traced (Progress W) Cause (Search n W)) =
      ⟨[.searchEnded 0 0], .ok ⟨none, Heap.empty, 0, false⟩⟩ := by
  have initial : initialSearch distances start = ⟨none, Heap.empty, 0, false⟩ := by
    rw [initialSearch, nearest_neighbor?_eq_none several isDeadEnd,
      lower_bound?_start_eq_none isDeadEnd]
    rfl
  rw [runSearch, begin_search_eq_pure, initial]
  rfl

end Search

section Graphs

variable [NodeKey N] {graph : Graph N W} {distances : Distances graph.nodeCount W}

theorem Distances.Shows.unleft_iff (shows : distances.Shows) (index : Fin graph.nodeCount) :
    (∀ target, distances.get index target = none) ↔
      ∀ edge ∈ graph.edges, edge.source ≠ graph.key index := by
  constructor
  · intro unleft edge member leaving
    have toTarget := unleft (graph.index edge.target (graph.ends_mem edge member).2)
    rw [shows, graph.key_index, ← leaving, Graph.mem_edges_iff.mp member] at toTarget
    cases toTarget
  · intro unleft target
    rw [shows, Option.eq_none_iff_forall_ne_some]
    intro weight found
    exact unleft _ (Graph.weight?_eq_some_iff_mem.mp found) rfl

theorem Distances.Shows.unentered_iff (shows : distances.Shows) (index : Fin graph.nodeCount) :
    (∀ source, distances.get source index = none) ↔
      ∀ edge ∈ graph.edges, edge.target ≠ graph.key index := by
  constructor
  · intro unentered edge member entering
    have fromSource := unentered (graph.index edge.source (graph.ends_mem edge member).1)
    rw [shows, graph.key_index, ← entering, Graph.mem_edges_iff.mp member] at fromSource
    cases fromSource
  · intro unentered source
    rw [shows, Option.eq_none_iff_forall_ne_some]
    intro weight found
    exact unentered _ (Graph.weight?_eq_some_iff_mem.mp found) rfl

theorem Distances.Shows.is_dead_end_iff (shows : distances.Shows) (index : Fin graph.nodeCount) :
    distances.IsDeadEnd index ↔ graph.IsDeadEnd (graph.key index) := by
  rw [Distances.IsDeadEnd, shows.unleft_iff, shows.unentered_iff, Graph.IsDeadEnd]

theorem Distances.Shows.exists_is_dead_end_iff (shows : distances.Shows) :
    (∃ index, distances.IsDeadEnd index) ↔ ∃ node ∈ graph.nodes, graph.IsDeadEnd node := by
  constructor
  · rintro ⟨index, isDeadEnd⟩
    exact ⟨graph.key index, graph.key_mem index, (shows.is_dead_end_iff index).mp isDeadEnd⟩
  · rintro ⟨node, member, isDeadEnd⟩
    refine ⟨graph.index node member, (shows.is_dead_end_iff _).mpr ?_⟩
    rwa [graph.key_index]

theorem Distances.Shows.not_is_round_trip (shows : distances.Shows) (several : 1 < graph.nodeCount)
    {index : Fin graph.nodeCount} (isDeadEnd : distances.IsDeadEnd index) (cycle : List N) :
    ¬graph.IsRoundTrip cycle := by
  intro trip
  obtain ⟨indices, places, circuit, turned⟩ := shows.exists_circuit_eq several index trip
  exact circuit.not_is_dead_end index isDeadEnd

variable [Weight W]

theorem greedy_of_stuck (accepted : Distances.ofGraph graph = .ok distances)
    (filled : 0 < graph.nodeCount) (stuck : nearestNeighbor? distances ⟨0, filled⟩ = none) :
    (greedy graph).outcome =
      .error (if distances.hasDeadEnd then .noTour else .heuristicFailed) := by
  unfold greedy walkTour
  rw [Traced.outcome_bind, Traced.outcome_of_except, accepted]
  dsimp only [Except.bind]
  rw [dif_pos filled, stuck]
  rfl

theorem greedy_of_walked (accepted : Distances.ofGraph graph = .ok distances)
    (filled : 0 < graph.nodeCount) (several : 1 < graph.nodeCount)
    {stops : List (Fin graph.nodeCount)}
    (walked : nearestNeighbor? distances ⟨0, filled⟩ = some stops) :
    ∃ tour, (greedy graph).outcome = .ok tour := by
  have circuit := nearest_neighbor?_eq_some several walked
  have nonempty : stops ≠ [] := by
    rintro rfl
    cases circuit.head
  obtain ⟨length, measured⟩ := Distances.exists_tour_length circuit.joins nonempty
  unfold greedy walkTour
  rw [Traced.outcome_bind, Traced.outcome_of_except, accepted]
  dsimp only [Except.bind]
  rw [dif_pos filled, walked]
  simp only [attempt_sum_tour, Traced.pure_bind, measured, Traced.outcome_bind,
    Traced.outcome_of_option]
  exact ⟨_, rfl⟩

theorem greedy_eq_error (accepted : Distances.ofGraph graph = .ok distances)
    (several : 1 < graph.nodeCount) {failure : Failure N W}
    (failed : (greedy graph).outcome = .error failure) :
    failure = if distances.hasDeadEnd then .noTour else .heuristicFailed := by
  have filled : 0 < graph.nodeCount := by omega
  cases walked : nearestNeighbor? distances ⟨0, filled⟩ with
  | none => exact Except.error.inj (failed.symm.trans (greedy_of_stuck accepted filled walked))
  | some stops =>
      obtain ⟨tour, answered⟩ := greedy_of_walked accepted filled several walked
      cases failed.symm.trans answered

theorem branch_and_bound_of_is_dead_end (accepted : Distances.ofGraph graph = .ok distances)
    (several : 1 < graph.nodeCount) {index : Fin graph.nodeCount}
    (isDeadEnd : distances.IsDeadEnd index) (budget : Option Nat) :
    (branchAndBound graph budget).outcome = .error .noTour ∧
      (branchAndBound graph budget).events = [.searchEnded 0 0] := by
  have filled : 0 < graph.nodeCount := by omega
  have run : (runSearch distances ⟨0, filled⟩ budget :
      Traced (Progress W) (Failure N W) (Search graph.nodeCount W)) =
        ⟨[.searchEnded 0 0], .ok ⟨none, Heap.empty, 0, false⟩⟩ :=
    run_search_of_is_dead_end several isDeadEnd budget
  have ran := congrArg Traced.outcome run
  constructor
  · exact branch_and_bound_several accepted filled several ran
  · rw [branch_and_bound_events accepted filled several ran, run]

/-- A dead end leaves both solvers without a tour and the search with nothing to do. The walk that gets
stuck says that there is no tour just where it has found a dead end. -/
theorem dead_ends_rule_out_tours (graph : Graph N W) (several : 1 < graph.nodeCount)
    (distances : Distances graph.nodeCount W) (accepted : Distances.ofGraph graph = .ok distances) :
    ((∃ node ∈ graph.nodes, graph.IsDeadEnd node) →
      (greedy graph).outcome = .error .noTour ∧
        ∀ budget, (branchAndBound graph budget).outcome = .error .noTour ∧
          (branchAndBound graph budget).events = [.searchEnded 0 0]) ∧
      ((greedy graph).outcome = .error .noTour →
        (∃ node ∈ graph.nodes, graph.IsDeadEnd node) ∧ ¬∃ cycle, graph.IsRoundTrip cycle) ∧
      ((greedy graph).outcome = .error .heuristicFailed →
        ∀ node ∈ graph.nodes, (∃ edge ∈ graph.edges, edge.source = node) ∧
          ∃ edge ∈ graph.edges, edge.target = node) := by
  have filled : 0 < graph.nodeCount := by omega
  have shows := (Distances.accepted_eq accepted).1
  refine ⟨?_, ?_, ?_⟩
  · intro deadEnd
    obtain ⟨index, isDeadEnd⟩ := shows.exists_is_dead_end_iff.mpr deadEnd
    have stuck := greedy_of_stuck accepted filled (nearest_neighbor?_eq_none several isDeadEnd)
    rw [if_pos ((has_dead_end_iff several).mpr ⟨index, isDeadEnd⟩)] at stuck
    exact ⟨stuck, branch_and_bound_of_is_dead_end accepted several isDeadEnd⟩
  · intro failed
    have blamed := greedy_eq_error accepted several failed
    cases deadEnd : distances.hasDeadEnd with
    | false =>
        rw [deadEnd] at blamed
        cases blamed
    | true =>
        obtain ⟨index, isDeadEnd⟩ := (has_dead_end_iff several).mp deadEnd
        refine ⟨shows.exists_is_dead_end_iff.mp ⟨index, isDeadEnd⟩, ?_⟩
        rintro ⟨cycle, trip⟩
        exact shows.not_is_round_trip several isDeadEnd cycle trip
  · intro failed node member
    have blamed := greedy_eq_error accepted several failed
    rw [← Graph.not_is_dead_end_iff]
    intro isDeadEnd
    have deadEnd : distances.hasDeadEnd = true :=
      (has_dead_end_iff several).mpr (shows.exists_is_dead_end_iff.mpr ⟨node, member, isDeadEnd⟩)
    rw [if_pos deadEnd] at blamed
    cases blamed

/-- Three nodes, the last of which cannot be left. -/
def stranded : Graph Int Int32 :=
  Graph.ofEdges [⟨1, 2, 1⟩, ⟨2, 1, 1⟩, ⟨2, 3, 1⟩]

theorem dead_ends_rule_out_tours_stranded :
    (greedy stranded).outcome = .error .noTour ∧
      (∀ budget, (branchAndBound stranded budget).outcome = .error .noTour ∧
        (branchAndBound stranded budget).events = [.searchEnded 0 0]) ∧
      (¬∃ cycle, stranded.IsRoundTrip cycle) ∧
      (greedy misled).outcome = .error .heuristicFailed ∧
      ∀ node ∈ misled.nodes, (∃ edge ∈ misled.edges, edge.source = node) ∧
        ∃ edge ∈ misled.edges, edge.target = node := by
  have strandedAccepted : (Distances.ofGraph stranded).toOption.isSome = true := by decide +kernel
  have misledAccepted : (Distances.ofGraph misled).toOption.isSome = true := by decide +kernel
  have unleft : ∃ node ∈ stranded.nodes, stranded.IsDeadEnd node :=
    ⟨3, by decide +kernel, .inl (by decide +kernel)⟩
  have stuck : (greedy misled).outcome = .error .heuristicFailed := by decide +kernel
  cases strandedTable : Distances.ofGraph stranded with
  | error failure => simp [strandedTable, Except.toOption] at strandedAccepted
  | ok distances =>
      cases misledTable : Distances.ofGraph misled with
      | error failure => simp [misledTable, Except.toOption] at misledAccepted
      | ok others =>
          obtain ⟨ruledOut, blamed, -⟩ :=
            dead_ends_rule_out_tours stranded (by decide) distances strandedTable
          obtain ⟨-, -, bothWays⟩ := dead_ends_rule_out_tours misled (by decide) others misledTable
          obtain ⟨walked, searched⟩ := ruledOut unleft
          exact ⟨walked, searched, (blamed walked).2, stuck, bothWays stuck⟩

end Graphs

end Tour

end FlowTour
