import FlowTour.Graph.Building
import FlowTour.Proofs.Tour.Search

/-!
The search for a shortest round trip as a whole. It begins with every round trip on its frontier, no
step of it fails, and it ends with nothing left there; so what it has found is a shortest round trip,
and it has found one whenever the graph has any.
-/

namespace FlowTour.Tour

open IntegerWeight

variable {n : Nat} {W : Type} [IntegerWeight W] {distances : Distances n W} {ceiling : W}
  {start : Fin n} {cycle : List (Fin n)}

section Whole

variable {Cause : Type} {final : Search n W}

theorem lower_bound?_start (fits : distances.Fits ceiling) (several : 1 < n)
    (circuit : distances.Circuit start cycle) :
    ∃ bound, lowerBound? distances start ⟨start, []⟩ 0 = some bound := by
  have exact : toInt (0 : W) = distances.span (steps (⟨start, []⟩ : Trail n).nodes) := to_int_zero
  obtain ⟨bound, found, -⟩ := lower_bound?_le_of_extends fits (Trail.is_path_single distances start)
    exact several circuit (extends_start circuit)
  exact ⟨bound, found⟩

theorem Searching.initial (fits : distances.Fits ceiling) (several : 1 < n) :
    Searching distances start [] (initialSearch distances start) where
  sound best stops found := by
    obtain ⟨circuit, summed⟩ := incumbent_initial_search several found
    have size := length_of_circuit circuit
    exact ⟨circuit, (Distances.tour_length_eq_some fits circuit.nodup (by omega) summed).2⟩
  promising partialTour member := by
    obtain ⟨found, same⟩ := mem_initial_search member
    rw [same]
    exact ⟨Trail.is_path_single distances start, to_int_zero, found, several⟩
  covered := initial_search_covers _ fun _ circuit => lower_bound?_start fits several circuit
  running := rfl

/-- The end of a search without a budget: what it has found is a shortest round trip, and it has
found one if there is any. -/
theorem run_search_exact (fits : distances.Fits ceiling) (several : 1 < n)
    (ran : (runSearch distances start none : Traced (Progress W) Cause (Search n W)).outcome =
      .ok final) :
    final.stopped = false ∧
      (∀ best stops, final.incumbent = some (best, stops) →
        distances.Circuit start stops ∧ toInt best = distances.span (roundSteps stops)) ∧
      ∀ cycle, distances.Circuit start cycle → final.Matches distances cycle := by
  have initial : Searching distances start [] (initialSearch distances start) :=
    Searching.initial fits several
  have paths := frontier_paths_initial_search distances start
  have kept : ∀ before after : Search n W, Searching distances start [] before →
      (Tour.expand distances start none before :
        Traced (Progress W) Cause (Option (Search n W))).outcome = .ok (some after) →
        Searching distances start [] after ∧ frontierPaths after < frontierPaths before :=
    fun before after searching stepped => searching.expand fits stepped
  obtain ⟨searching, stopped⟩ := Answering.ofTraced.iterate_ends frontierPaths kept initial
    (by omega) (run_search_eq_ok_iff.mp ran)
  have empty := frontier_of_expand_eq_none searching.running stopped
  refine ⟨searching.running, searching.sound, ?_⟩
  intro cycle circuit
  rcases searching.covered cycle circuit with matched | ⟨partialTour, member, -⟩ |
    ⟨trail, member, -⟩
  · exact matched
  · rw [empty] at member
    cases member
  · cases member

end Whole

section Graphs

variable {N : Type} [NodeKey N] {graph : Graph N W}

theorem closed_length_single (node : N) : graph.closedLength [node] = 0 := by
  have missing : graph.weight? node node = none := by
    rw [Option.eq_none_iff_forall_ne_some]
    intro weight found
    obtain ⟨index, edge⟩ := graph.weight?_eq_some_iff.mp found
    have different := graph.no_loop _ (graph.edge_mem index)
    rw [edge] at different
    exact different rfl
  have pairs : roundSteps [node] = [(node, node)] := round_steps_cons node []
  rw [Graph.closedLength, pairs, List.map_singleton, List.sum_singleton, missing, Option.getD_none,
    to_int_zero]

theorem is_round_trip_single (single : graph.nodeCount = 1) (index : Fin graph.nodeCount) :
    graph.IsRoundTrip [graph.key index] ∧
      ∀ cycle, graph.IsRoundTrip cycle → graph.closedLength cycle = 0 := by
  obtain ⟨node, nodes⟩ := List.length_eq_one_iff.mp single
  have key : graph.key index = node := by
    have member := graph.key_mem index
    rwa [nodes, List.mem_singleton] at member
  constructor
  · refine ⟨?_, fun several => absurd single (Nat.ne_of_gt several)⟩
    rw [key, nodes]
  · intro cycle trip
    have perm := trip.perm
    rw [nodes, List.perm_singleton] at perm
    rw [perm]
    exact closed_length_single node

theorem branch_and_bound_is_exact (graph : Graph N W) (filled : 0 < graph.nodeCount)
    (distances : Distances graph.nodeCount W)
    (accepted : Distances.ofGraph graph = .ok distances) :
    ((∃ cycle, graph.IsRoundTrip cycle) →
      ∃ tour, (branchAndBound graph none).outcome = .ok tour ∧ tour.optimal = true ∧
        graph.IsRoundTrip tour.nodes ∧ graph.closedLength tour.nodes = toInt tour.distance ∧
        (∀ cycle, graph.IsRoundTrip cycle → toInt tour.distance ≤ graph.closedLength cycle) ∧
        (graph.nodeCount = 1 → toInt tour.distance = 0)) ∧
      ((¬∃ cycle, graph.IsRoundTrip cycle) →
        (branchAndBound graph none).outcome = .error .noTour) := by
  by_cases single : graph.nodeCount = 1
  · obtain ⟨trip, free⟩ := is_round_trip_single single ⟨0, filled⟩
    constructor
    · intro _
      refine ⟨_, branch_and_bound_single accepted filled single, rfl, trip, ?_, ?_,
        fun _ => to_int_zero⟩
      · exact (free _ trip).trans to_int_zero.symm
      · intro cycle other
        rw [free cycle other]
        exact to_int_zero.le
    · intro none
      exact absurd ⟨_, trip⟩ none
  · have several : 1 < graph.nodeCount := by omega
    obtain ⟨shows, ceiling, fits⟩ := Distances.of_graph_eq_ok accepted
    obtain ⟨final, ran⟩ : ∃ final, (runSearch distances ⟨0, filled⟩ none :
        Traced (Progress W) (Failure N W) (Search graph.nodeCount W)).outcome = .ok final :=
      run_search_answers distances ⟨0, filled⟩ none
    obtain ⟨running, sound, matched⟩ := run_search_exact fits several ran
    have outcome := branch_and_bound_several accepted filled several ran
    constructor
    · rintro ⟨cycle, trip⟩
      obtain ⟨indices, circuit, -⟩ := shows.exists_circuit several ⟨0, filled⟩ trip
      obtain ⟨best, stops, found, -⟩ := matched indices circuit
      obtain ⟨stopsCircuit, exact⟩ := sound best stops found
      rw [found] at outcome
      refine ⟨_, outcome, by rw [running]; rfl, shows.is_round_trip stopsCircuit, ?_, ?_, ?_⟩
      · exact (shows.closed_length_map stops).trans exact.symm
      · intro other otherTrip
        obtain ⟨otherIndices, otherCircuit, length⟩ :=
          shows.exists_circuit several ⟨0, filled⟩ otherTrip
        obtain ⟨same, otherStops, again, atMost⟩ := matched otherIndices otherCircuit
        rw [found] at again
        obtain ⟨rfl, rfl⟩ := Prod.mk.inj (Option.some.inj again)
        exact length ▸ atMost
      · exact fun alone => absurd alone single
    · intro none
      cases found : final.incumbent with
      | none => simpa [found, running] using outcome
      | some best =>
          obtain ⟨circuit, -⟩ := sound best.1 best.2 found
          exact absurd ⟨_, shows.is_round_trip circuit⟩ none

/-- Four nodes with a single round trip, on which the walk to the nearest node gets stuck. -/
def oneWay : Graph Int Int32 :=
  Graph.ofEdges [⟨1, 2, 1⟩, ⟨1, 3, 5⟩, ⟨3, 2, 5⟩, ⟨2, 4, 5⟩, ⟨4, 1, 5⟩]

theorem branch_and_bound_one_way : ∃ tour : Tour Int Int32,
    (branchAndBound oneWay none).outcome = .ok tour ∧ tour.optimal = true ∧ tour.distance = 20 ∧
      oneWay.IsRoundTrip tour.nodes ∧
      ∀ cycle, oneWay.IsRoundTrip cycle → 20 ≤ oneWay.closedLength cycle := by
  have accepted : (Distances.ofGraph oneWay).toOption.isSome = true := by decide +kernel
  have shortest : (branchAndBound oneWay none).outcome.toOption.map Tour.distance = some 20 := by
    decide +kernel
  have trip : oneWay.IsRoundTrip [1, 3, 2, 4] :=
    ⟨by decide +kernel, fun _ => by decide +kernel⟩
  cases table : Distances.ofGraph oneWay with
  | error failure => simp [table, Except.toOption] at accepted
  | ok distances =>
      obtain ⟨tour, outcome, optimal, roundTrip, -, least, -⟩ :=
        (branch_and_bound_is_exact oneWay (by decide) distances table).1 ⟨_, trip⟩
      have distance : tour.distance = 20 := by
        simpa [outcome, Except.toOption] using shortest
      rw [distance] at least
      exact ⟨tour, outcome, optimal, distance, roundTrip, least⟩

end Graphs

end FlowTour.Tour
