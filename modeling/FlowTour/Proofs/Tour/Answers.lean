import FlowTour.Proofs.Graph.Building
import FlowTour.Proofs.Graph.Distance
import FlowTour.Proofs.Tour.BranchAndBound
import FlowTour.Proofs.Tour.Feasibility

/-!
What the two solvers answer with, whatever the budget: a round trip that begins at the first node of the
graph. Between whole-number weights, what they report as its distance is what the edges sum up to along
the trip and back.
-/

namespace FlowTour.Tour

open IntegerWeight

section Seeking

variable {n : Nat} {W : Type} [Weight W] {distances : Distances n W} {start : Fin n}
  {final : Search n W} {budget : Option Nat} {Cause : Type}

theorem run_search_sound (several : 1 < n) (ran : (runSearch distances start budget :
      Traced (Progress W) Cause (Search n W)).outcome = .ok final) :
    Seeking distances start [] final :=
  Answering.ofTraced.iterate_keeps (Seeking distances start [])
    (fun _ _ seeking stepped => seeking.expand (expand_step_of_expand stepped))
    (Seeking.initial several) (run_search_eq_ok_iff.mp ran)

end Seeking

section Measured

variable {n : Nat} {W : Type} [IntegerWeight W] {distances : Distances n W} {ceiling : W}
  {start : Fin n} {search next final : Search n W} {partialTour : Partial n W}
  {nodes : List (Fin n)} {budget : Option Nat} {Cause : Type}

/-- A search that has measured what it has found and all paths on its frontier. -/
structure Measured (distances : Distances n W) (start : Fin n) (search : Search n W) : Prop where
  sound : ∀ best stops, search.incumbent = some (best, stops) →
    distances.Circuit start stops ∧ toInt best = distances.span (roundSteps stops)
  promising : ∀ partialTour ∈ search.frontier.listed, Promising distances start partialTour

theorem Measured.branched {trail : Trail n} (measured : Measured distances start search)
    (branched : Branched distances start trail search next) : Measured distances start next := by
  cases branched with
  | dropped same matched => exact same ▸ measured
  | recorded length circuit exact shorter same =>
      subst same
      refine ⟨?_, measured.promising⟩
      intro best stops found
      obtain ⟨rfl, rfl⟩ := Prod.mk.inj (Option.some.inj found)
      exact ⟨circuit, exact⟩
  | pushed longer isTrail promising same =>
      subst same
      refine ⟨measured.sound, ?_⟩
      intro other member
      cases (Heap.mem_push _).mp member with
      | inl same => exact same ▸ promising
      | inr earlier => exact measured.promising other earlier

theorem Measured.branch_all (fits : distances.Fits ceiling)
    (promising : Promising distances start partialTour)
    (fresh : ∀ node ∈ nodes, node ∈ partialTour.trail.remaining)
    (measured : Measured distances start search)
    (branched : BranchSteps distances start partialTour search nodes next) :
    Measured distances start next := by
  apply branched.keep (Measured distances start) _ measured
  intro before node member after kept step
  exact kept.branched (branched_of_step fits promising (fresh node member) step)

theorem Measured.expand (fits : distances.Fits ceiling) (measured : Measured distances start search)
    (step : ExpandStep distances start budget search (some next)) :
    Measured distances start next := by
  have pop {taken : Partial n W} {frontier : Heap (Partial n W)}
      (popped : search.frontier.pop? Partial.below = some (taken, frontier)) :
      Promising distances start taken ∧ ∀ other ∈ frontier.listed,
        Promising distances start other := by
    constructor
    · exact measured.promising taken ((Heap.mem_pop? _ popped).mpr (.inl rfl))
    · intro other member
      exact measured.promising other ((Heap.mem_pop? _ popped).mpr (.inr member))
  cases step with
  | discarded running popped notBeating => exact ⟨measured.sound, (pop popped).2⟩
  | cutShort running popped beating limited spent => exact ⟨measured.sound, (pop popped).2⟩
  | @expanded taken frontier _ running popped beating unspent branched =>
      have counted : Measured distances start
          { search with frontier, expansions := search.expansions + 1 } :=
        ⟨measured.sound, (pop popped).2⟩
      exact counted.branch_all fits (pop popped).1 (fun _ member => member) branched

theorem Measured.initial (fits : distances.Fits ceiling) (several : 1 < n) :
    Measured distances start (initialSearch distances start) :=
  ⟨(Searching.initial fits several).sound, (Searching.initial fits several).promising⟩

theorem run_search_measured (fits : distances.Fits ceiling) (several : 1 < n)
    (ran : (runSearch distances start budget :
      Traced (Progress W) Cause (Search n W)).outcome = .ok final) :
    Measured distances start final :=
  Answering.ofTraced.iterate_keeps (Measured distances start)
    (fun _ _ measured stepped => measured.expand fits (expand_step_of_expand stepped))
    (Measured.initial fits several) (run_search_eq_ok_iff.mp ran)

end Measured

section Answers

variable {N W : Type} [NodeKey N] {graph : Graph N W} {tour : Tour N W}

theorem nearest_neighbor?_single [Weight W] {n : Nat} {distances : Distances n W} (start : Fin n)
    (single : n = 1) : nearestNeighbor? distances start = some [start] := by
  subst single
  rfl

theorem greedy_eq_ok [Weight W] (answered : (greedy graph).outcome = .ok tour) :
    ∃ distances, ∃ filled : 0 < graph.nodeCount, ∃ stops length,
      Distances.ofGraph graph = .ok distances ∧
      nearestNeighbor? distances ⟨0, filled⟩ = some stops ∧
      distances.tourLength stops = some length ∧
      tour = ofIndices graph length stops (graph.nodeCount = 1) := by
  obtain ⟨distances, accepted, rest⟩ := Traced.bind_eq_ok_iff.mp answered
  by_cases filled : 0 < graph.nodeCount
  · rw [dif_pos filled] at rest
    split at rest
    · cases rest
    · next stops walked =>
      rw [attempt_sum_tour, Traced.pure_bind] at rest
      obtain ⟨length, measured, last⟩ := Traced.bind_eq_ok_iff.mp rest
      obtain ⟨_, -, same⟩ := Traced.bind_eq_ok_iff.mp last
      exact ⟨distances, filled, stops, length, accepted, walked,
        Traced.of_option_eq_ok_iff.mp measured, (Except.ok.inj same).symm⟩
  · rw [dif_neg filled] at rest
    cases rest

theorem branch_and_bound_eq_ok [Weight W] {budget : Option Nat}
    (answered : (branchAndBound graph budget).outcome = .ok tour) :
    ∃ distances, ∃ filled : 0 < graph.nodeCount, Distances.ofGraph graph = .ok distances ∧
      (graph.nodeCount = 1 ∧ tour = ofIndices graph 0 [⟨0, filled⟩] true ∨
        1 < graph.nodeCount ∧ ∃ final length stops,
          (runSearch distances ⟨0, filled⟩ budget :
            Traced (Progress W) (Failure N W) (Search graph.nodeCount W)).outcome = .ok final ∧
          final.incumbent = some (length, stops) ∧
          tour = ofIndices graph length stops (!final.stopped)) := by
  obtain ⟨distances, accepted, rest⟩ := Traced.bind_eq_ok_iff.mp answered
  by_cases filled : 0 < graph.nodeCount
  · rw [Traced.outcome_of_except] at accepted
    refine ⟨distances, filled, accepted, ?_⟩
    by_cases single : graph.nodeCount = 1
    · rw [branch_and_bound_single accepted filled single] at answered
      exact .inl ⟨single, (Except.ok.inj answered).symm⟩
    · have several : 1 < graph.nodeCount := by omega
      obtain ⟨final, ran⟩ : ∃ final, (runSearch distances ⟨0, filled⟩ budget :
          Traced (Progress W) (Failure N W) (Search graph.nodeCount W)).outcome = .ok final :=
        run_search_answers distances ⟨0, filled⟩ budget
      rw [branch_and_bound_several accepted filled several ran] at answered
      split at answered
      · next length stops found =>
        exact .inr ⟨several, final, length, stops, ran, found, (Except.ok.inj answered).symm⟩
      · cases answered
  · rw [dif_neg filled] at rest
    cases rest

/-- The tour is an answer to this graph, walked to the nearest node or searched for with a budget. -/
def Answers [Weight W] (graph : Graph N W) (tour : Tour N W) : Prop :=
  (greedy graph).outcome = .ok tour ∨ ∃ budget, (branchAndBound graph budget).outcome = .ok tour

section Round

variable [Weight W]

theorem Answers.exists_stops (answers : Answers graph tour) :
    ∃ distances, ∃ filled : 0 < graph.nodeCount, ∃ stops,
      Distances.ofGraph graph = .ok distances ∧ tour.nodes = stops.map graph.key ∧
      (graph.nodeCount = 1 → stops = [⟨0, filled⟩]) ∧
      (1 < graph.nodeCount → distances.Circuit ⟨0, filled⟩ stops) := by
  rcases answers with walked | ⟨budget, searched⟩
  · obtain ⟨distances, filled, stops, length, accepted, found, -, rfl⟩ := greedy_eq_ok walked
    refine ⟨distances, filled, stops, accepted, rfl, ?_, ?_⟩
    · intro single
      exact Option.some.inj (found.symm.trans (nearest_neighbor?_single _ single))
    · intro several
      exact nearest_neighbor?_eq_some several found
  · obtain ⟨distances, filled, accepted, ⟨single, rfl⟩ | ⟨several, final, length, stops, ran, found,
      rfl⟩⟩ := branch_and_bound_eq_ok searched
    · refine ⟨distances, filled, [⟨0, filled⟩], accepted, rfl, fun _ => rfl, ?_⟩
      intro several
      omega
    · refine ⟨distances, filled, stops, accepted, rfl, ?_, ?_⟩
      · intro single
        omega
      · intro _
        exact (run_search_sound several ran).sound length stops found

theorem Answers.is_tour (answers : Answers graph tour) :
    graph.isTour tour.nodes = true ∧
      ∃ first, tour.nodes.head? = some first ∧ graph.nodes.head? = some first := by
  obtain ⟨distances, filled, stops, accepted, nodes, alone, circuit⟩ := answers.exists_stops
  have shows := (Distances.accepted_eq accepted).1
  have first : graph.nodes.head? = some (graph.key ⟨0, filled⟩) := by
    rw [List.head?_eq_getElem?]
    exact List.getElem?_eq_getElem filled
  rw [nodes]
  by_cases single : graph.nodeCount = 1
  · rw [alone single]
    obtain ⟨only, listed⟩ := List.length_eq_one_iff.mp single
    have same : graph.nodes = [graph.key ⟨0, filled⟩] := by
      rw [listed, List.head?_cons] at first
      rw [listed, Option.some.inj first]
    have trip : graph.IsRoundTrip [graph.key ⟨0, filled⟩] :=
      ⟨same ▸ List.Perm.refl _, fun several => absurd single (Nat.ne_of_gt several)⟩
    exact ⟨Graph.is_tour_of_is_round_trip trip, _, rfl, first⟩
  · have trip := circuit (by omega)
    refine ⟨Graph.is_tour_of_is_round_trip (shows.is_round_trip trip), _, ?_, first⟩
    rw [List.head?_map, trip.head]
    rfl

end Round

section Length

variable [IntegerWeight W]

theorem Answers.exists_measured (answers : Answers graph tour) (several : 1 < graph.nodeCount) :
    ∃ distances, ∃ filled : 0 < graph.nodeCount, ∃ stops,
      Distances.ofGraph graph = .ok distances ∧ tour.nodes = stops.map graph.key ∧
      distances.Circuit ⟨0, filled⟩ stops ∧
      toInt tour.distance = distances.span (roundSteps stops) := by
  rcases answers with walked | ⟨budget, searched⟩
  · obtain ⟨distances, filled, stops, length, accepted, found, measured, rfl⟩ := greedy_eq_ok walked
    obtain ⟨ceiling, fits⟩ := (Distances.of_graph_eq_ok accepted).2
    have circuit := nearest_neighbor?_eq_some several found
    have size := length_of_circuit circuit
    exact ⟨distances, filled, stops, accepted, rfl, circuit,
      (Distances.tour_length_eq_some fits circuit.nodup (by omega) measured).2⟩
  · obtain ⟨distances, filled, accepted, ⟨single, -⟩ | ⟨-, final, length, stops, ran, found, rfl⟩⟩ :=
      branch_and_bound_eq_ok searched
    · omega
    · obtain ⟨ceiling, fits⟩ := (Distances.of_graph_eq_ok accepted).2
      obtain ⟨circuit, exact⟩ := (run_search_measured fits several ran).sound length stops found
      exact ⟨distances, filled, stops, accepted, rfl, circuit, exact⟩

theorem Answers.path_distance_eq (answers : Answers graph tour) (several : 1 < graph.nodeCount)
    {first : N} (head : tour.nodes.head? = some first) :
    graph.pathDistance (tour.nodes ++ [first]) = .ok tour.distance := by
  obtain ⟨distances, filled, stops, accepted, nodes, circuit, exact⟩ :=
    answers.exists_measured several
  obtain ⟨shows, ceiling, fits⟩ := Distances.of_graph_eq_ok accepted
  have around := (round_steps_of_head head).symm
  rw [nodes] at around
  rw [nodes]
  apply Graph.path_distance_eq_ok
  · rw [around]
    exact (shows.joins_iff stops).mp circuit.joins
  · intro step member
    rw [around, round_steps_map] at member
    obtain ⟨pair, -, rfl⟩ := List.mem_map.mp member
    have notNegative := fits.hop_nonneg pair
    rwa [Distances.hop, shows] at notNegative
  · rw [around, exact, ← shows.closed_length_map]
    rfl

end Length

/-- Every answer is a round trip from the node that was inserted first, and along it the weights sum up
to the distance it reports. -/
theorem tour_of_answers {N : Type} [NodeKey N] :
    (∀ (W : Type) [Weight W] (graph : Graph N W) (tour : Tour N W), Answers graph tour →
      graph.isTour tour.nodes = true ∧ ∃ first, tour.nodes.head? = some first ∧
        graph.nodes.head? = some first ∧
        ∀ insertions, graph = Graph.build insertions →
          (Graph.mentions insertions).head? = some first) ∧
    ∀ (W : Type) [IntegerWeight W] (graph : Graph N W) (tour : Tour N W), Answers graph tour →
      1 < graph.nodeCount → ∀ first, tour.nodes.head? = some first →
        graph.pathDistance (tour.nodes ++ [first]) = .ok tour.distance := by
  constructor
  · intro W _ graph tour answers
    obtain ⟨isTour, first, head, leading⟩ := answers.is_tour
    refine ⟨isTour, first, head, leading, ?_⟩
    rintro insertions rfl
    rwa [← Graph.head?_build]
  · intro W _ graph tour answers several first head
    exact answers.path_distance_eq several head

theorem tour_of_answers_misled : ∃ tour : Tour Int Int32,
    (branchAndBound misled none).outcome = .ok tour ∧ misled.isTour tour.nodes = true ∧
      tour.nodes.head? = some 1 ∧ misled.pathDistance (tour.nodes ++ [1]) = .ok 15 := by
  have searched : (branchAndBound misled none).outcome.toOption.any (·.distance = 15) = true := by
    decide +kernel
  obtain ⟨tour, answered, distance⟩ := Traced.exists_ok_of_any searched
  obtain ⟨trips, lengths⟩ := @tour_of_answers Int _
  obtain ⟨isTour, first, head, -, built⟩ := trips Int32 misled tour (.inr ⟨none, answered⟩)
  obtain rfl : 1 = first := Option.some.inj (built _ rfl)
  have length := lengths Int32 misled tour (.inr ⟨none, answered⟩) (by decide) 1 head
  rw [of_decide_eq_true distance] at length
  exact ⟨tour, answered, isTour, head, length⟩

end Answers

end FlowTour.Tour
