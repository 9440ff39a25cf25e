import FlowTour.Proofs.Tour.Branching
import FlowTour.Proofs.Tour.LowerBound

/-!
Steps of the search for a shortest round trip. Every round trip is matched by the best one found so
far or extends a path on the frontier: a path is dropped only when its bound does not beat the best
one, and branching hands over all its extensions. Every expansion uses up some of the paths that the
frontier still stands for.
-/

namespace FlowTour.Tour

open IntegerWeight

variable {n : Nat} {W : Type} [IntegerWeight W] {distances : Distances n W} {ceiling : W}
  {start node : Fin n} {search next : Search n W} {partialTour : Partial n W}
  {cycle : List (Fin n)}

/-- A path with its exact distance and its bound, shorter than a round trip. -/
structure Promising (distances : Distances n W) (start : Fin n) (partialTour : Partial n W) :
    Prop where
  isPath : partialTour.trail.IsPath distances start
  distance_eq : toInt partialTour.distance = distances.span (steps partialTour.trail.nodes)
  bound_eq : lowerBound? distances start partialTour.trail partialTour.distance =
    some partialTour.bound
  short : partialTour.trail.length < n

/-- The best round trip found so far is no longer. -/
def Search.Matches (search : Search n W) (distances : Distances n W) (cycle : List (Fin n)) : Prop :=
  ∃ best stops, search.incumbent = some (best, stops) ∧
    toInt best ≤ distances.span (roundSteps cycle)

/-- A search whose frontier and waiting trails stand for all round trips it has not matched. -/
structure Searching (distances : Distances n W) (start : Fin n) (waiting : List (Trail n))
    (search : Search n W) : Prop where
  sound : ∀ best stops, search.incumbent = some (best, stops) →
    distances.Circuit start stops ∧ toInt best = distances.span (roundSteps stops)
  promising : ∀ partialTour ∈ search.frontier.listed, Promising distances start partialTour
  covered : ∀ cycle, distances.Circuit start cycle → search.Matches distances cycle ∨
    (∃ partialTour ∈ search.frontier.listed, partialTour.trail.nodes <+: cycle) ∨
      ∃ trail ∈ waiting, trail.nodes <+: cycle
  running : search.stopped = false

section Circuits

variable {trail : Trail n}

/-- The bound of a path is at most the length of any round trip that extends it. -/
theorem lower_bound?_le_of_extends (fits : distances.Fits ceiling)
    (isPath : trail.IsPath distances start) {distance : W}
    (exact : toInt distance = distances.span (steps trail.nodes)) (short : trail.length < n)
    (circuit : distances.Circuit start cycle) (extending : trail.nodes <+: cycle) :
    ∃ bound, lowerBound? distances start trail distance = some bound ∧
      toInt bound ≤ distances.span (roundSteps cycle) := by
  have size := length_of_circuit circuit
  obtain ⟨rest, rfl⟩ := extending
  apply lower_bound?_le fits isPath.head exact circuit
  rintro rfl
  rw [List.append_nil, Trail.length_nodes] at size
  omega

theorem Promising.bound_le (promising : Promising distances start partialTour)
    (fits : distances.Fits ceiling) (circuit : distances.Circuit start cycle)
    (extending : partialTour.trail.nodes <+: cycle) :
    toInt partialTour.bound ≤ distances.span (roundSteps cycle) := by
  obtain ⟨bound, found, atMost⟩ := lower_bound?_le_of_extends fits promising.isPath
    promising.distance_eq promising.short circuit extending
  rw [promising.bound_eq] at found
  exact Option.some.inj found ▸ atMost

end Circuits

section Beating

theorem matches_of_not_beats {length : W} (notBeaten : ¬search.beats length = true)
    (atMost : toInt length ≤ distances.span (roundSteps cycle)) : search.Matches distances cycle := by
  unfold Search.beats at notBeaten
  split at notBeaten
  · exact absurd rfl notBeaten
  · next best stops found =>
    rw [decide_eq_true_iff, lt_iff_to_int_lt] at notBeaten
    exact ⟨best, stops, found, by omega⟩

theorem lt_of_beats {length best : W} {stops : List (Fin n)} (beaten : search.beats length = true)
    (found : search.incumbent = some (best, stops)) : toInt length < toInt best := by
  rw [Search.beats, found] at beaten
  exact lt_iff_to_int_lt.mp (decide_eq_true_iff.mp beaten)

end Beating

section Branch

/-- What branching to a node does: nothing, and then every round trip that goes on there is matched
already; or it records a shorter round trip, or puts the longer path on the frontier. -/
inductive Branched (distances : Distances n W) (start : Fin n) (trail : Trail n)
    (search next : Search n W) : Prop where
  | dropped (same : next = search)
      (matched : ∀ cycle, distances.Circuit start cycle → trail.nodes <+: cycle →
        search.Matches distances cycle)
  | recorded (length : W) (circuit : distances.Circuit start trail.nodes)
      (exact : toInt length = distances.span (roundSteps trail.nodes))
      (shorter : search.beats length = true)
      (same : next = { search with incumbent := some (length, trail.nodes) })
  | pushed (longer : Partial n W) (isTrail : longer.trail = trail)
      (promising : Promising distances start longer)
      (same : next = { search with frontier := search.frontier.push Partial.below longer })

theorem span_of_full {trail : Trail n} (isPath : trail.IsPath distances start) {distance back : W}
    (exact : toInt distance = distances.span (steps trail.nodes))
    (returning : distances.get trail.last start = some back) :
    distances.span (roundSteps trail.nodes) = toInt distance + toInt back := by
  rw [round_steps_of_head isPath.head, steps_concat start trail.get_last?_nodes,
    Distances.span_append, Distances.span_cons, Distances.span_nil,
    Distances.hop_of_get returning, exact, Int.add_zero]

theorem branch_complete (fits : distances.Fits ceiling) {trail : Trail n}
    (isPath : trail.IsPath distances start) (full : trail.length = n) {distance back : W}
    (exact : toInt distance = distances.span (steps trail.nodes))
    (returning : distances.get trail.last start = some back) :
    distances.Circuit start trail.nodes ∧
      toInt (distance + back) = distances.span (roundSteps trail.nodes) := by
  have circuit := isPath.circuit full (by rw [returning]; rfl)
  have closed := span_of_full isPath exact returning
  have most := fits.span_round_steps_le circuit.nodup
  have before : 0 ≤ toInt distance := exact ▸ fits.span_nonneg _
  have sum := to_int_add_of_le before (fits.nonneg _ _ _ returning) (closed ▸ most)
  exact ⟨circuit, sum.trans closed.symm⟩

theorem span_extend {trail : Trail n} {distance weight : W}
    (exact : toInt distance = distances.span (steps trail.nodes))
    (joined : distances.get trail.last node = some weight) :
    distances.span (steps (trail.extend node).nodes) = toInt distance + toInt weight := by
  rw [Trail.steps_extend, Distances.span_append, Distances.span_cons, Distances.span_nil,
    Distances.hop_of_get joined, exact, Int.add_zero]

theorem extend_exact (fits : distances.Fits ceiling) {trail : Trail n}
    (isPath : trail.IsPath distances start) {distance weight : W}
    (exact : toInt distance = distances.span (steps trail.nodes)) (fresh : node ∈ trail.remaining)
    (joined : distances.get trail.last node = some weight) :
    (trail.extend node).IsPath distances start ∧
      toInt (distance + weight) = distances.span (steps (trail.extend node).nodes) := by
  have longerPath := isPath.extend fresh (by rw [joined]; rfl)
  have longer := span_extend exact joined
  have most := fits.span_steps_le longerPath.nodup
  have before : 0 ≤ toInt distance := exact ▸ fits.span_nonneg _
  have sum := to_int_add_of_le before (fits.nonneg _ _ _ joined) (longer ▸ most)
  exact ⟨longerPath, sum.trans longer.symm⟩

theorem Promising.extend (promising : Promising distances start partialTour)
    (fits : distances.Fits ceiling) (fresh : node ∈ partialTour.trail.remaining) {weight : W}
    (joined : distances.get partialTour.trail.last node = some weight) :
    (partialTour.trail.extend node).IsPath distances start ∧
      toInt (partialTour.distance + weight) =
        distances.span (steps (partialTour.trail.extend node).nodes) :=
  extend_exact fits promising.isPath promising.distance_eq fresh joined

theorem Branched.of_full (fits : distances.Fits ceiling) {trail : Trail n}
    (isPath : trail.IsPath distances start) (full : trail.length = n) {distance : W}
    (exact : toInt distance = distances.span (steps trail.nodes))
    (notShorter : ∀ back, distances.get trail.last start = some back →
      ¬search.beats (distance + back) = true) :
    Branched distances start trail search search := by
  apply Branched.dropped rfl
  intro cycle circuit extending
  obtain rfl := eq_of_extends full circuit extending
  obtain ⟨back, returning⟩ := Option.isSome_iff_exists.mp (returns_of_circuit circuit)
  obtain ⟨-, length⟩ := branch_complete fits isPath full exact returning
  exact matches_of_not_beats (notShorter back returning) length.le

theorem Branched.of_bound (fits : distances.Fits ceiling) {trail : Trail n}
    (isPath : trail.IsPath distances start) (short : trail.length < n) {distance : W}
    (exact : toInt distance = distances.span (steps trail.nodes))
    (notBeating : ∀ bound, lowerBound? distances start trail distance = some bound →
      ¬search.beats bound = true) :
    Branched distances start trail search search := by
  apply Branched.dropped rfl
  intro cycle circuit extending
  obtain ⟨bound, bounded, atMost⟩ :=
    lower_bound?_le_of_extends fits isPath exact short circuit extending
  exact matches_of_not_beats (notBeating bound bounded) atMost

theorem branched_of_step (fits : distances.Fits ceiling)
    (promising : Promising distances start partialTour) (fresh : node ∈ partialTour.trail.remaining)
    (step : BranchStep distances start partialTour search node next) :
    Branched distances start (partialTour.trail.extend node) search next := by
  cases step with
  | unjoined missing =>
      apply Branched.dropped rfl
      intro cycle circuit extending
      have joined := joined_of_extends circuit extending
      rw [missing] at joined
      cases joined
  | notShorter joined full notBeating =>
      obtain ⟨isPath, exact⟩ := promising.extend fits fresh joined
      exact Branched.of_full fits isPath full exact notBeating
  | recorded joined full returning beating =>
      obtain ⟨isPath, exact⟩ := promising.extend fits fresh joined
      obtain ⟨circuit, length⟩ := branch_complete fits isPath full exact returning
      exact Branched.recorded _ circuit length beating rfl
  | hopeless joined unfinished notBeating =>
      obtain ⟨isPath, exact⟩ := promising.extend fits fresh joined
      exact Branched.of_bound fits isPath (isPath.length_lt unfinished) exact notBeating
  | @pushed weight bound joined unfinished bounded beating =>
      obtain ⟨isPath, exact⟩ := promising.extend fits fresh joined
      have longer : Promising distances start
          ⟨bound, partialTour.distance + weight, partialTour.trail.extend node⟩ :=
        ⟨isPath, exact, bounded, isPath.length_lt unfinished⟩
      exact Branched.pushed _ rfl longer rfl

end Branch

section Keeping

variable {trail : Trail n} {waiting : List (Trail n)}

theorem Searching.branched (searching : Searching distances start (trail :: waiting) search)
    (branched : Branched distances start trail search next) :
    Searching distances start waiting next := by
  cases branched with
  | dropped same matched =>
      subst same
      refine ⟨searching.sound, searching.promising, ?_, searching.running⟩
      apply Search.Covers.hand_over searching.covered
      · exact fun cycle => id
      · exact fun partialTour => id
      · intro cycle circuit extending
        exact .inl (matched cycle circuit extending)
  | recorded length circuit exact shorter same =>
      subst same
      refine ⟨?_, searching.promising, ?_, searching.running⟩
      · intro best stops found
        obtain ⟨rfl, rfl⟩ := Prod.mk.inj (Option.some.inj found)
        exact ⟨circuit, exact⟩
      · apply Search.Covers.hand_over searching.covered
        · rintro cycle ⟨best, stops, found, atMost⟩
          have improved := lt_of_beats shorter found
          exact ⟨length, trail.nodes, rfl, by omega⟩
        · exact fun partialTour => id
        · intro cycle other extending
          have full : trail.length = n := by rw [← Trail.length_nodes, length_of_circuit circuit]
          obtain rfl := eq_of_extends full other extending
          exact .inl ⟨length, trail.nodes, rfl, exact.le⟩
  | pushed longer isTrail promising same =>
      subst same isTrail
      refine ⟨searching.sound, ?_, ?_, searching.running⟩
      · intro partialTour member
        rcases (Heap.mem_push _).mp member with rfl | earlier
        · exact promising
        · exact searching.promising partialTour earlier
      · apply Search.Covers.hand_over searching.covered
        · exact fun cycle => id
        · intro partialTour member
          exact (Heap.mem_push _).mpr (.inr member)
        · intro cycle circuit extending
          exact .inr ⟨longer, (Heap.mem_push _).mpr (.inl rfl), extending⟩

theorem Searching.branch_all (fits : distances.Fits ceiling)
    (promising : Promising distances start partialTour) {nodes : List (Fin n)}
    (fresh : ∀ node ∈ nodes, node ∈ partialTour.trail.remaining)
    (searching : Searching distances start (nodes.map partialTour.trail.extend) search)
    (branched : BranchSteps distances start partialTour search nodes next) :
    Searching distances start [] next := by
  induction branched with
  | nil search => exact searching
  | cons first others induction =>
      apply induction
      · intro node member
        exact fresh node (List.mem_cons_of_mem _ member)
      · exact searching.branched
          (branched_of_step fits promising (fresh _ (List.mem_cons_self ..)) first)

/-- A path whose bound does not beat the best round trip need not wait any longer. -/
theorem Searching.discard (fits : distances.Fits ceiling)
    (promising : Promising distances start partialTour)
    (searching : Searching distances start [partialTour.trail] search)
    (notBeating : ¬search.beats partialTour.bound = true) :
    Searching distances start [] search := by
  refine ⟨searching.sound, searching.promising, ?_, searching.running⟩
  apply Search.Covers.hand_over searching.covered
  · exact fun cycle => id
  · exact fun other => id
  · intro cycle circuit extending
    exact .inl (matches_of_not_beats notBeating (promising.bound_le fits circuit extending))

theorem Searching.pop (searching : Searching distances start [] search)
    {frontier : Heap (Partial n W)}
    (popped : search.frontier.pop? Partial.below = some (partialTour, frontier)) :
    Promising distances start partialTour ∧
      Searching distances start [partialTour.trail] { search with frontier } := by
  refine ⟨searching.promising _ ((Heap.mem_pop? _ popped).mpr (.inl rfl)), searching.sound, ?_,
    Search.Covers.pop searching.covered popped, searching.running⟩
  intro other member
  exact searching.promising other ((Heap.mem_pop? _ popped).mpr (.inr member))

/-- One step keeps the round trips covered, unless it stops the search. -/
theorem Searching.step {budget : Option Nat} (fits : distances.Fits ceiling)
    (searching : Searching distances start [] search)
    (step : ExpandStep distances start budget search (some next)) (running : next.stopped = false) :
    Searching distances start [] next := by
  cases step with
  | discarded _ popped notBeating =>
      obtain ⟨promising, waiting⟩ := searching.pop popped
      exact waiting.discard fits promising notBeating
  | cutShort _ popped beating limited spent => cases running
  | @expanded partialTour frontier _ _ popped beating unspent branched =>
      obtain ⟨promising, waiting⟩ := searching.pop popped
      have counted : Searching distances start (partialTour.trail.remaining.map
          partialTour.trail.extend)
            { search with frontier, expansions := search.expansions + 1 } :=
        ⟨waiting.sound, waiting.promising, Search.Covers.spread waiting.covered promising.short,
          waiting.running⟩
      exact counted.branch_all fits promising (fun node member => member) branched

theorem Searching.expand {Cause : Type} (fits : distances.Fits ceiling)
    (searching : Searching distances start [] search)
    (stepped : (expand distances start none search :
      Traced (Progress W) Cause (Option (Search n W))).outcome = .ok (some next)) :
    Searching distances start [] next ∧ frontierPaths next < frontierPaths search := by
  have step := expand_step_of_expand stepped
  have running := step.stopped_eq_false searching.running
  refine ⟨searching.step fits step running, step.frontier_paths_lt ?_⟩
  intro partialTour member
  have promising := searching.promising partialTour member
  exact ⟨promising.isPath.nodup, promising.short⟩

theorem frontier_of_expand_eq_none {Cause : Type} (running : search.stopped = false)
    (stepped : (expand distances start none search :
      Traced (Progress W) Cause (Option (Search n W))).outcome = .ok none) :
    search.frontier.listed = [] := by
  cases expand_step_of_expand stepped with
  | stopped stopped => cases running.symm.trans stopped
  | exhausted running empty => exact Heap.pop?_eq_none _ empty

end Keeping

end FlowTour.Tour
