import FlowTour.Graph.Building
import FlowTour.Proofs.Tour.Branching
import FlowTour.Proofs.Tour.LowerBound
import FlowTour.Proofs.Tour.Recognition

/-!
Whether the search finds a round trip, for weights that may compare in any way at all. As long as
nothing has been found, everything beats it; so a path is dropped only if no round trip extends it, and
every round trip extends a path on the frontier until a first one is found.
-/

namespace FlowTour.Tour

variable {n : Nat} {W : Type} [Weight W] {distances : Distances n W} {start node : Fin n}
  {search next final : Search n W} {partialTour : Partial n W}

def Search.Found (search : Search n W) : Prop := search.incumbent.isSome = true

/-- A search that has lost no round trip before it was stopped or has found a first one. -/
structure Seeking (distances : Distances n W) (start : Fin n) (waiting : List (Trail n))
    (search : Search n W) : Prop where
  sound : ∀ best stops, search.incumbent = some (best, stops) → distances.Circuit start stops
  isPath : ∀ partialTour ∈ search.frontier.listed, partialTour.trail.IsPath distances start
  short : ∀ partialTour ∈ search.frontier.listed, partialTour.trail.length < n
  covered : search.stopped = false →
    search.Covers distances start (fun _ => search.Found) waiting

section Branch

theorem found_of_not_beats {length : W} (notBeaten : ¬search.beats length = true) :
    search.Found := by
  unfold Search.beats at notBeaten
  split at notBeaten
  · exact absurd rfl notBeaten
  · next best stops found => rw [Search.Found, found, Option.isSome_some]

theorem exists_lower_bound?_of_extends {trail : Trail n} {cycle : List (Fin n)}
    (isPath : trail.IsPath distances start) (short : trail.length < n)
    (circuit : distances.Circuit start cycle) (extending : trail.nodes <+: cycle) (distance : W) :
    ∃ bound, lowerBound? distances start trail distance = some bound := by
  have size := length_of_circuit circuit
  obtain ⟨rest, rfl⟩ := extending
  apply exists_lower_bound? isPath.head circuit
  intro none
  rw [none, List.append_nil, Trail.length_nodes] at size
  omega

theorem BranchStep.found (step : BranchStep distances start partialTour search node next)
    (found : search.Found) : next.Found := by
  cases step with
  | recorded joined full returning beating => rfl
  | _ => exact found

theorem BranchStep.handed_on (isPath : partialTour.trail.IsPath distances start)
    (fresh : node ∈ partialTour.trail.remaining)
    (step : BranchStep distances start partialTour search node next) {cycle : List (Fin n)}
    (circuit : distances.Circuit start cycle)
    (extending : (partialTour.trail.extend node).nodes <+: cycle) :
    next.Found ∨ ∃ longer ∈ next.frontier.listed, longer.trail.nodes <+: cycle := by
  have joined := joined_of_extends circuit extending
  cases step with
  | unjoined missing =>
      rw [missing] at joined
      cases joined
  | notShorter _ full notBeating =>
      obtain rfl := eq_of_extends full circuit extending
      obtain ⟨back, returning⟩ := Option.isSome_iff_exists.mp (returns_of_circuit circuit)
      exact .inl (found_of_not_beats (notBeating back returning))
  | recorded _ full returning beating => exact .inl rfl
  | hopeless _ unfinished notBeating =>
      have longer := isPath.extend fresh joined
      obtain ⟨bound, bounded⟩ := exists_lower_bound?_of_extends longer
        (longer.length_lt unfinished) circuit extending _
      exact .inl (found_of_not_beats (notBeating bound bounded))
  | pushed _ unfinished bounded beating =>
      exact .inr ⟨_, (Heap.mem_push _).mpr (.inl rfl), extending⟩

end Branch

section Keeping

variable {waiting : List (Trail n)} {nodes : List (Fin n)} {frontier : Heap (Partial n W)}
  {budget : Option Nat}

theorem Seeking.branched (isPath : partialTour.trail.IsPath distances start)
    (fresh : node ∈ partialTour.trail.remaining)
    (seeking : Seeking distances start (partialTour.trail.extend node :: waiting) search)
    (step : BranchStep distances start partialTour search node next) :
    Seeking distances start waiting next := by
  have covers : next.stopped = false →
      next.Covers distances start (fun _ => next.Found) waiting := by
    intro running
    rw [step.stopped_eq] at running
    apply (seeking.covered running).hand_over
    · exact fun _ => step.found
    · intro earlier member
      cases step with
      | pushed joined unfinished bounded beating => exact (Heap.mem_push _).mpr (.inr member)
      | _ => exact member
    · exact fun _ circuit extending => step.handed_on isPath fresh circuit extending
  cases step with
  | @recorded weight back joined full returning beating =>
      refine ⟨?_, seeking.isPath, seeking.short, covers⟩
      intro best stops found
      obtain ⟨-, rfl⟩ := Prod.mk.inj (Option.some.inj found)
      have longer := isPath.extend fresh (by rw [joined, Option.isSome_some])
      exact longer.circuit full (Option.isSome_iff_exists.mpr ⟨back, returning⟩)
  | pushed joined unfinished bounded beating =>
      have longer := isPath.extend fresh (by rw [joined, Option.isSome_some])
      refine ⟨seeking.sound, ?_, ?_, covers⟩
      · intro other member
        cases (Heap.mem_push _).mp member with
        | inl same => exact same ▸ longer
        | inr earlier => exact seeking.isPath other earlier
      · intro other member
        cases (Heap.mem_push _).mp member with
        | inl same => exact same ▸ longer.length_lt unfinished
        | inr earlier => exact seeking.short other earlier
  | _ => exact ⟨seeking.sound, seeking.isPath, seeking.short, covers⟩

theorem Seeking.branch_all (isPath : partialTour.trail.IsPath distances start)
    (fresh : ∀ node ∈ nodes, node ∈ partialTour.trail.remaining)
    (seeking : Seeking distances start (nodes.map partialTour.trail.extend) search)
    (branched : BranchSteps distances start partialTour search nodes next) :
    Seeking distances start [] next := by
  induction branched with
  | nil search => exact seeking
  | cons first others induction =>
      apply induction
      · exact fun node member => fresh node (List.mem_cons_of_mem _ member)
      · exact seeking.branched isPath (fresh _ (List.mem_cons_self ..)) first

theorem Seeking.pop (seeking : Seeking distances start [] search)
    (popped : search.frontier.pop? Partial.below = some (partialTour, frontier)) :
    Seeking distances start [partialTour.trail] { search with frontier } where
  sound := seeking.sound
  isPath other member := seeking.isPath other ((Heap.mem_pop? _ popped).mpr (.inr member))
  short other member := seeking.short other ((Heap.mem_pop? _ popped).mpr (.inr member))
  covered running := (seeking.covered running).pop popped

theorem Seeking.expand (seeking : Seeking distances start [] search)
    (step : ExpandStep distances start budget search (some next)) :
    Seeking distances start [] next := by
  cases step with
  | discarded running popped notBeating =>
      have waiting := seeking.pop popped
      refine ⟨waiting.sound, waiting.isPath, waiting.short, ?_⟩
      intro _ cycle _
      exact .inl (found_of_not_beats notBeating)
  | cutShort running popped beating limited spent =>
      have waiting := seeking.pop popped
      exact ⟨waiting.sound, waiting.isPath, waiting.short, nofun⟩
  | @expanded partialTour frontier _ running popped beating unspent branched =>
      have first := (Heap.mem_pop? _ popped).mpr (.inl rfl)
      have waiting := seeking.pop popped
      have counted : Seeking distances start
          (partialTour.trail.remaining.map partialTour.trail.extend)
            { search with frontier, expansions := search.expansions + 1 } :=
        ⟨waiting.sound, waiting.isPath, waiting.short,
          fun running => (waiting.covered running).spread (seeking.short _ first)⟩
      exact counted.branch_all (seeking.isPath _ first) (fun _ member => member) branched

theorem Seeking.initial (several : 1 < n) :
    Seeking distances start [] (initialSearch distances start) where
  sound _ _ found := (incumbent_initial_search several found).1
  isPath partialTour member := by
    rw [(mem_initial_search member).2]
    exact Trail.is_path_single distances start
  short partialTour member := by
    rw [(mem_initial_search member).2]
    exact several
  covered _ := by
    apply initial_search_covers
    intro cycle circuit
    exact exists_lower_bound?_of_extends (Trail.is_path_single distances start) several circuit
      (extends_start circuit) 0

end Keeping

section Runs

variable {budget : Option Nat} {fuel : Nat} {Cause : Type}

theorem ExpandStep.found (step : ExpandStep distances start budget search (some next))
    (found : search.Found) : next.Found := by
  cases step with
  | expanded running popped beating unspent branched =>
      exact branched.keep Search.Found (fun _ _ _ _ earlier step => step.found earlier) found
  | _ => exact found

theorem run_search_running (ran : (runSearch distances start none :
      Traced (Progress W) Cause (Search n W)).outcome = .ok final) : final.stopped = false :=
  Answering.ofTraced.iterate_keeps (fun state => state.stopped = false)
    (fun _ _ running stepped => (expand_step_of_expand stepped).stopped_eq_false running)
    rfl (run_search_eq_ok_iff.mp ran)

theorem run_search_found (several : 1 < n) {walk : List (Fin n)}
    (walked : nearestNeighbor? distances start = some walk)
    (ran : (runSearch distances start budget :
      Traced (Progress W) Cause (Search n W)).outcome = .ok final) : final.Found := by
  have circuit := nearest_neighbor?_eq_some several walked
  have nonempty : walk ≠ [] := by
    intro none
    have head := circuit.head
    rw [none] at head
    cases head
  obtain ⟨length, measured⟩ := Distances.exists_tour_length circuit.joins nonempty
  have initially : (initialSearch distances start).Found := by
    rw [Search.Found, initialSearch, walked, Option.bind_some, measured]
    rfl
  exact Answering.ofTraced.iterate_keeps Search.Found
    (fun _ _ found stepped => (expand_step_of_expand stepped).found found)
    initially (run_search_eq_ok_iff.mp ran)

/-- What has been found is a round trip, and a search that was not stopped has found one if there is
any. -/
theorem run_search_feasible (several : 1 < n) (ran : (runSearch distances start budget :
      Traced (Progress W) Cause (Search n W)).outcome = .ok final) :
    (final.Found → ∃ cycle, distances.Circuit start cycle) ∧
      (final.stopped = false → ∀ cycle, distances.Circuit start cycle → final.Found) := by
  have kept : ∀ before after : Search n W, Seeking distances start [] before →
      (Tour.expand distances start budget before :
        Traced (Progress W) Cause (Option (Search n W))).outcome = .ok (some after) →
        Seeking distances start [] after ∧ frontierPaths after < frontierPaths before := by
    intro before after seeking stepped
    have step := expand_step_of_expand stepped
    refine ⟨seeking.expand step, step.frontier_paths_lt ?_⟩
    exact fun partialTour member =>
      ⟨(seeking.isPath partialTour member).nodup, seeking.short partialTour member⟩
  have paths := frontier_paths_initial_search distances start
  obtain ⟨seeking, ended⟩ := Answering.ofTraced.iterate_ends frontierPaths kept
    (Seeking.initial several) (by omega) (run_search_eq_ok_iff.mp ran)
  constructor
  · intro found
    obtain ⟨best, incumbent⟩ := Option.isSome_iff_exists.mp found
    exact ⟨best.2, seeking.sound best.1 best.2 incumbent⟩
  · intro running cycle circuit
    cases expand_step_of_expand ended with
    | stopped stopped => cases running.symm.trans stopped
    | exhausted _ empty =>
        have nothing := Heap.pop?_eq_none _ empty
        rcases seeking.covered running cycle circuit with found | ⟨other, member, -⟩ | ⟨_, member, -⟩
        · exact found
        · rw [nothing] at member
          cases member
        · cases member

end Runs

section Graphs

variable {N : Type} [NodeKey N] {graph : Graph N W} {distances : Distances graph.nodeCount W}

theorem branch_and_bound_of_found (accepted : Distances.ofGraph graph = .ok distances)
    (filled : 0 < graph.nodeCount) (several : 1 < graph.nodeCount) {budget : Option Nat}
    {final : Search graph.nodeCount W}
    (ran : (runSearch distances ⟨0, filled⟩ budget :
      Traced (Progress W) (Failure N W) (Search graph.nodeCount W)).outcome = .ok final)
    (found : final.Found) : ∃ tour, (branchAndBound graph budget).outcome = .ok tour := by
  obtain ⟨best, incumbent⟩ := Option.isSome_iff_exists.mp found
  rw [branch_and_bound_several accepted filled several ran, incumbent]
  exact ⟨_, rfl⟩

theorem branch_and_bound_of_not_found (accepted : Distances.ofGraph graph = .ok distances)
    (filled : 0 < graph.nodeCount) (several : 1 < graph.nodeCount) {budget : Option Nat}
    {final : Search graph.nodeCount W}
    (ran : (runSearch distances ⟨0, filled⟩ budget :
      Traced (Progress W) (Failure N W) (Search graph.nodeCount W)).outcome = .ok final)
    (missed : ¬final.Found) : (branchAndBound graph budget).outcome =
      .error (if final.stopped then .searchBudgetExhausted else .noTour) := by
  have nothing : final.incumbent = none := by
    rwa [Search.Found, Bool.not_eq_true, Option.isSome_eq_false_iff, Option.isNone_iff_eq_none]
      at missed
  rw [branch_and_bound_several accepted filled several ran, nothing]

/-- Every failure is that of a run that found nothing. -/
theorem branch_and_bound_eq_error (accepted : Distances.ofGraph graph = .ok distances)
    (filled : 0 < graph.nodeCount) (several : 1 < graph.nodeCount) {budget : Option Nat}
    {failure : Failure N W} (failed : (branchAndBound graph budget).outcome = .error failure) :
    ∃ final, (runSearch distances ⟨0, filled⟩ budget :
        Traced (Progress W) (Failure N W) (Search graph.nodeCount W)).outcome = .ok final ∧
      ¬final.Found ∧
        failure = if final.stopped then .searchBudgetExhausted else .noTour := by
  obtain ⟨final, ran⟩ : ∃ final, (runSearch distances ⟨0, filled⟩ budget :
      Traced (Progress W) (Failure N W) (Search graph.nodeCount W)).outcome = .ok final :=
    run_search_answers distances ⟨0, filled⟩ budget
  have missed : ¬final.Found := by
    intro found
    obtain ⟨tour, answered⟩ := branch_and_bound_of_found accepted filled several ran found
    cases answered.symm.trans failed
  have outcome := branch_and_bound_of_not_found accepted filled several ran missed
  exact ⟨final, ran, missed, Except.error.inj (failed.symm.trans outcome)⟩

theorem branch_and_bound_feasibility (graph : Graph N W) (filled : 0 < graph.nodeCount)
    (distances : Distances graph.nodeCount W)
    (accepted : Distances.ofGraph graph = .ok distances) :
    ((∃ stops, graph.isTour stops = true) →
        ∃ tour, (branchAndBound graph none).outcome = .ok tour) ∧
      ((¬∃ stops, graph.isTour stops = true) →
        (branchAndBound graph none).outcome = .error .noTour) ∧
      ∀ budget,
        ((branchAndBound graph budget).outcome = .error .noTour →
          ∀ stops, graph.isTour stops = false) ∧
        ((branchAndBound graph budget).outcome = .error .searchBudgetExhausted →
          nearestNeighbor? distances ⟨0, filled⟩ = none) := by
  by_cases single : graph.nodeCount = 1
  · have answered : ∀ budget, (branchAndBound graph budget).outcome =
        .ok (ofIndices graph 0 [⟨0, filled⟩] true) :=
      fun _ => branch_and_bound_single accepted filled single
    refine ⟨fun _ => ⟨_, answered none⟩,
      fun none => absurd (graph.exists_is_tour_single single) none, ?_⟩
    intro budget
    constructor
    · intro failed
      cases (answered budget).symm.trans failed
    · intro failed
      cases (answered budget).symm.trans failed
  · have several : 1 < graph.nodeCount := by omega
    have shows := (Distances.accepted_eq accepted).1
    have exists_iff := shows.exists_is_tour_iff several ⟨0, filled⟩
    obtain ⟨final, ran⟩ : ∃ final, (runSearch distances ⟨0, filled⟩ none :
        Traced (Progress W) (Failure N W) (Search graph.nodeCount W)).outcome = .ok final :=
      run_search_answers distances ⟨0, filled⟩ none
    have running := run_search_running ran
    obtain ⟨sound, complete⟩ := run_search_feasible several ran
    refine ⟨?_, ?_, ?_⟩
    · intro feasible
      obtain ⟨cycle, circuit⟩ := exists_iff.mp feasible
      exact branch_and_bound_of_found accepted filled several ran (complete running cycle circuit)
    · intro infeasible
      have missed : ¬final.Found := fun found => infeasible (exists_iff.mpr (sound found))
      rw [branch_and_bound_of_not_found accepted filled several ran missed, running]
      rfl
    · intro budget
      constructor
      · intro failed stops
        obtain ⟨last, ended, missed, cause⟩ :=
          branch_and_bound_eq_error accepted filled several failed
        obtain ⟨-, lastComplete⟩ := run_search_feasible several ended
        have notStopped : last.stopped = false := by
          cases stopped : last.stopped with
          | false => rfl
          | true =>
              rw [stopped] at cause
              cases cause
        rw [Bool.eq_false_iff]
        intro passed
        obtain ⟨cycle, circuit⟩ := exists_iff.mp ⟨stops, passed⟩
        exact missed (lastComplete notStopped cycle circuit)
      · intro failed
        obtain ⟨last, ended, missed, -⟩ :=
          branch_and_bound_eq_error accepted filled several failed
        rw [Option.eq_none_iff_forall_ne_some]
        intro walk walked
        exact missed (run_search_found several walked ended)

/-- Three nodes with a single round trip, which the walk to the nearest node misses at once. -/
def misled : Graph Int Int32 :=
  Graph.ofEdges [⟨1, 2, 1⟩, ⟨1, 3, 5⟩, ⟨3, 2, 5⟩, ⟨2, 1, 5⟩]

theorem branch_and_bound_feasibility_misled : ∃ distances : Distances misled.nodeCount Int32,
    Distances.ofGraph misled = .ok distances ∧
      (∃ tour, (branchAndBound misled none).outcome = .ok tour) ∧
      (branchAndBound misled (some 0)).outcome = .error .searchBudgetExhausted ∧
      nearestNeighbor? distances ⟨0, by decide⟩ = none := by
  have accepted : (Distances.ofGraph misled).toOption.isSome = true := by decide +kernel
  have passed : misled.isTour [1, 3, 2] = true := by decide +kernel
  have exhausted : (match (branchAndBound misled (some 0)).outcome with
      | .error .searchBudgetExhausted => true
      | _ => false) = true := by decide +kernel
  cases table : Distances.ofGraph misled with
  | error failure => simp [table, Except.toOption] at accepted
  | ok distances =>
      obtain ⟨feasible, -, limited⟩ :=
        branch_and_bound_feasibility misled (by decide) distances table
      have stopped : (branchAndBound misled (some 0)).outcome = .error .searchBudgetExhausted := by
        split at exhausted
        · assumption
        · cases exhausted
      exact ⟨distances, rfl, feasible ⟨_, passed⟩, stopped, (limited (some 0)).2 stopped⟩

end Graphs

end FlowTour.Tour
