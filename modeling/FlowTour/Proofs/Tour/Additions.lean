import FlowTour.Proofs.Tour.Answers
import FlowTour.Proofs.Tour.Charges
import FlowTour.Proofs.Tour.OtherAddition

/-!
All additions that the two solvers make on an accepted graph are exact: those of the walk and of its
length, and those of the search, whatever its budget. A path on the frontier has its exact length and
the nodes ahead of it are entered and left by steps for which there is room, so one more edge, the way
back and the bound of a longer path are all added without loss. An addition that differs only where
it would not be exact is therefore as good as the plain one.
-/

namespace FlowTour.Tour

open IntegerWeight

section Table

variable {n : Nat} {W : Type} [IntegerWeight W] {distances : Distances n W} {ceiling high : W}
  {start node : Fin n} {trail : Trail n} {distance weight : W} {partialTour : Partial n W}
  {search : Search n W} {budget : Option Nat} {add : W → W → W} {Cause : Type}

theorem edge_addition (fits : distances.Fits ceiling) (isPath : trail.IsPath distances start)
    (exact : toInt distance = distances.span (steps trail.nodes)) (fresh : node ∈ trail.remaining)
    (joined : distances.get trail.last node = some weight) : Addition.Exact ⟨distance, weight⟩ := by
  have longerPath := isPath.extend fresh (by rw [joined]; rfl)
  have before : 0 ≤ toInt distance := exact ▸ fits.span_nonneg _
  have most := fits.span_steps_le longerPath.nodup
  rw [span_extend exact joined] at most
  exact Addition.exact_of_le before (fits.nonneg _ _ _ joined) most

theorem return_addition (fits : distances.Fits ceiling) (isPath : trail.IsPath distances start)
    (exact : toInt distance = distances.span (steps trail.nodes))
    (returning : distances.get trail.last start = some weight) :
    Addition.Exact ⟨distance, weight⟩ := by
  have before : 0 ≤ toInt distance := exact ▸ fits.span_nonneg _
  have most := fits.span_round_steps_le isPath.nodup
  rw [span_of_full isPath exact returning] at most
  exact Addition.exact_of_le before (fits.nonneg _ _ _ returning) most

theorem branch_reports (fits : distances.Fits ceiling)
    (entering : distances.FitsEntering high) (promising : Promising distances start partialTour)
    (fresh : node ∈ partialTour.trail.remaining) :
    (branch distances start partialTour search node :
      Ledger W Cause (Search n W)).Reports Addition.Exact := by
  unfold branch
  cases joined : distances.get partialTour.trail.last node with
  | none => exact Traced.reports_of_no_events rfl
  | some weight =>
      obtain ⟨isPath, exact⟩ := promising.extend fits fresh joined
      apply (reports_add
        (edge_addition fits promising.isPath promising.distance_eq fresh joined)).bind
      intro distance added
      obtain rfl := Except.ok.inj added
      dsimp only
      split
      · cases returning : distances.get node start with
        | none => exact Traced.reports_of_no_events rfl
        | some back =>
            apply (reports_add (return_addition fits isPath exact returning)).bind
            intro length _
            split <;> exact Traced.reports_of_no_events rfl
      · apply (lower_bound_ledger_charged fits entering isPath exact).1.attempt_bind
        split
        · exact Traced.reports_of_no_events rfl
        · split <;> exact Traced.reports_of_no_events rfl

theorem expand_reports (fits : distances.Fits ceiling)
    (entering : distances.FitsEntering high) (measured : Measured distances start search) :
    (expand distances start budget search :
      Ledger W Cause (Option (Search n W))).Reports Addition.Exact := by
  unfold expand
  split
  · exact Traced.reports_of_no_events rfl
  · cases popped : search.frontier.pop? Partial.below with
    | none => exact Traced.reports_of_no_events rfl
    | some taken =>
        have promising := measured.promising taken.1 ((Heap.mem_pop? _ popped).mpr (.inl rfl))
        dsimp only
        split
        · exact Traced.reports_of_no_events rfl
        · split
          · exact Traced.reports_of_no_events rfl
          · have branched : ∀ node ∈ taken.1.trail.remaining, ∀ before : Search n W,
                (branch distances start taken.1 before node :
                  Ledger W Cause (Search n W)).Reports Addition.Exact :=
              fun _ fresh _ => branch_reports fits entering promising fresh
            apply (Traced.reports_foldlm branched _).bind
            exact fun _ _ => Traced.reports_of_no_events rfl

omit [IntegerWeight W] in
theorem nodup_of_walk [Weight W] {stops : List (Fin n)}
    (walked : nearestNeighbor? distances start = some stops) : stops.Nodup := by
  obtain ⟨trail, reached, ends⟩ := Option.bind_eq_some_iff.mp walked
  have isPath := (nearest_from?_eq_some (Trail.is_path_single distances start) reached).1
  split at ends
  · exact Option.some.inj ends ▸ isPath.nodup
  · cases ends

theorem begin_search_reports (fits : distances.Fits ceiling)
    (entering : distances.FitsEntering high) (start : Fin n) :
    (beginSearch distances start : Ledger W Cause (Search n W)).Reports Addition.Exact := by
  have walk : (measuredWalk distances start :
      Ledger W Cause (Option (W × List (Fin n)))).Reports Addition.Exact := by
    unfold measuredWalk
    cases walked : nearestNeighbor? distances start with
    | none => exact Traced.reports_of_no_events rfl
    | some stops =>
        apply (tour_length_ledger_reports fits (nodup_of_walk walked)).attempt_bind
        exact Traced.reports_of_no_events rfl
  apply walk.bind
  intro incumbent _
  have bound := lower_bound_ledger_charged fits entering (Trail.is_path_single distances start)
    (to_int_zero : toInt (0 : W) = 0)
  apply bound.1.attempt_bind
  exact Traced.reports_of_no_events rfl

theorem run_search_reports_exact (fits : distances.Fits ceiling)
    (entering : distances.FitsEntering high) (several : 1 < n) (start : Fin n)
    (budget : Option Nat) :
    (runSearch distances start budget : Ledger W Cause (Search n W)).Reports Addition.Exact := by
  apply (begin_search_reports fits entering start).bind
  intro initial begun
  have same : (beginSearch distances start : Ledger W Cause (Search n W)).outcome =
      (beginSearch distances start : Traced (Progress W) Cause (Search n W)).outcome :=
    outcome_begin_search distances start
  rw [same, begin_search_eq_pure] at begun
  obtain rfl := Except.ok.inj begun
  have each : ∀ before, Measured distances start before →
      (expand distances start budget before :
        Ledger W Cause (Option (Search n W))).Reports Addition.Exact ∧
      ∀ after, (expand distances start budget before :
        Ledger W Cause (Option (Search n W))).outcome = .ok (some after) →
          Measured distances start after := by
    intro before measured
    refine ⟨expand_reports fits entering measured, ?_⟩
    intro after stepped
    have step : (expand distances start budget before :
        Traced (Progress W) Cause (Option (Search n W))).outcome = .ok (some after) :=
      (outcome_expand distances start budget before).trans stepped
    exact measured.expand fits (expand_step_of_expand step)
  have searched := Traced.reports_iterate _ each (extensionCount (n - 1) + 2)
    (Measured.initial fits several)
  have ended : ∀ run : Ledger W Cause (Search n W), run.Reports Addition.Exact →
      (do
        let final ← run
        Journal.tell (.searchEnded final.expansions final.frontier.size)
        return final : Ledger W Cause (Search n W)).Reports Addition.Exact :=
    fun _ reports => reports.bind fun _ _ => Traced.reports_of_no_events rfl
  dsimp only
  split
  · exact ended _ searched
  · exact (Traced.reports_of_no_events rfl).bind fun _ _ => ended _ searched

theorem same_of_exact {Result : Type} {plain other : Ledger W Cause Result}
    (keeps : ∀ addition : Addition W, addition.Exact → addition.Kept add)
    (follows : Follows add plain other) (reports : plain.Reports Addition.Exact) : other = plain :=
  follows fun addition entered => keeps addition (reports addition entered)

theorem tour_length_with_addition (fits : distances.Fits ceiling)
    (keeps : ∀ addition : Addition W, addition.Exact → addition.Kept add) {stops : List (Fin n)}
    (distinct : stops.Nodup) :
    @Distances.tourLength n W (Weight.withAddition add) distances stops =
      distances.tourLength stops := by
  have same := same_of_exact keeps (follows_sum_tour distances stops)
    (tour_length_ledger_reports fits distinct)
  calc @Distances.tourLength n W (Weight.withAddition add) distances stops
    _ = (@tourLengthLedger n W (Weight.withAddition add) distances stops).result? :=
      (@result?_sum_tour n W (Addition W) (Weight.withAddition add) _ distances stops).symm
    _ = (tourLengthLedger distances stops).result? := congrArg Traced.result? same
    _ = distances.tourLength stops := result?_sum_tour distances stops

theorem lower_bound?_with_addition (fits : distances.Fits ceiling)
    (entering : distances.FitsEntering high)
    (keeps : ∀ addition : Addition W, addition.Exact → addition.Kept add)
    (isPath : trail.IsPath distances start)
    (exact : toInt distance = distances.span (steps trail.nodes)) :
    @lowerBound? n W (Weight.withAddition add) distances start trail distance =
      lowerBound? distances start trail distance := by
  have same := same_of_exact keeps (follows_sum_bound distances start trail distance)
    (lower_bound_ledger_charged fits entering isPath exact).1
  calc @lowerBound? n W (Weight.withAddition add) distances start trail distance
    _ = (@lowerBoundLedger n W (Weight.withAddition add) distances start trail distance).result? :=
      (@result?_sum_bound n W (Addition W) (Weight.withAddition add) _ distances start trail
        distance).symm
    _ = (lowerBoundLedger distances start trail distance).result? := congrArg Traced.result? same
    _ = lowerBound? distances start trail distance := result?_sum_bound distances start trail distance

end Table

section Graphs

variable {N W : Type} [NodeKey N] [IntegerWeight W] {graph : Graph N W} {ceiling high : W}
  {distances : Distances graph.nodeCount W} {add : W → W → W}

omit [IntegerWeight W] in
theorem reports_of_graph [Weight W] {good : Addition W → Prop} (graph : Graph N W) :
    (Traced.ofExcept (Distances.ofGraph graph) :
      Ledger W (Failure N W) (Distances graph.nodeCount W)).Reports good :=
  Traced.reports_of_no_events rfl

theorem greedy_ledger_reports (accepted : Distances.ofGraph graph = .ok distances)
    (fits : distances.Fits ceiling) : (greedyLedger graph).Reports Addition.Exact := by
  unfold greedyLedger walkTour
  refine Traced.Reports.bind (reports_of_graph graph) ?_
  intro table found
  obtain rfl := Except.ok.inj (accepted.symm.trans found)
  split
  · next filled =>
    cases walked : nearestNeighbor? distances ⟨0, filled⟩ with
    | none => exact Traced.reports_of_no_events rfl
    | some stops =>
        apply (tour_length_ledger_reports fits (nodup_of_walk walked)).attempt_bind
        cases (tourLengthLedger distances stops).result? <;> exact Traced.reports_of_no_events rfl
  · exact Traced.reports_of_no_events rfl

theorem branch_and_bound_ledger_reports (accepted : Distances.ofGraph graph = .ok distances)
    (fits : distances.Fits ceiling) (entering : distances.FitsEntering high) (budget : Option Nat) :
    (branchAndBoundLedger graph budget).Reports Addition.Exact := by
  unfold branchAndBoundLedger searchTour
  refine Traced.Reports.bind (reports_of_graph graph) ?_
  intro table found
  obtain rfl := Except.ok.inj (accepted.symm.trans found)
  split
  · next filled =>
    dsimp only
    split
    · exact Traced.reports_of_no_events rfl
    · next notSingle =>
      apply (run_search_reports_exact fits entering (by omega) ⟨0, filled⟩ budget).bind
      intro final _
      cases final.incumbent <;> exact Traced.reports_of_no_events rfl
  · exact Traced.reports_of_no_events rfl

theorem greedy_with_addition (accepted : Distances.ofGraph graph = .ok distances)
    (fits : distances.Fits ceiling)
    (keeps : ∀ addition : Addition W, addition.Exact → addition.Kept add) :
    (@greedy N W _ (Weight.withAddition add) graph).outcome = (greedy graph).outcome := by
  have same := same_of_exact keeps (follows_walk_tour graph) (greedy_ledger_reports accepted fits)
  calc (@greedy N W _ (Weight.withAddition add) graph).outcome
    _ = (@greedyLedger N W _ (Weight.withAddition add) graph).outcome :=
      @outcome_walk_tour N W (Progress W) (Addition W) _ (Weight.withAddition add) _ _ graph
    _ = (greedyLedger graph).outcome := congrArg Traced.outcome same
    _ = (greedy graph).outcome := outcome_walk_tour graph

theorem branch_and_bound_with_addition (accepted : Distances.ofGraph graph = .ok distances)
    (fits : distances.Fits ceiling) (entering : distances.FitsEntering high)
    (keeps : ∀ addition : Addition W, addition.Exact → addition.Kept add) (budget : Option Nat) :
    (@branchAndBound N W _ (Weight.withAddition add) graph budget).outcome =
      (branchAndBound graph budget).outcome := by
  have same := same_of_exact keeps (follows_search_tour graph)
    (branch_and_bound_ledger_reports accepted fits entering budget)
  calc (@branchAndBound N W _ (Weight.withAddition add) graph budget).outcome
    _ = (@branchAndBoundLedger N W _ (Weight.withAddition add) graph budget).outcome :=
      @outcome_search_tour N W (Progress W) (Addition W) _ (Weight.withAddition add) _ _ graph budget
    _ = (branchAndBoundLedger graph budget).outcome := congrArg Traced.outcome same
    _ = (branchAndBound graph budget).outcome := outcome_search_tour graph budget

/-- On an accepted graph no addition is out of range: not in the length of any tour, not in the bound of
any path from any start, and not in a whole walk or a whole search. The ledgers leave no addition out,
for the answers stay the same with any other plain addition that differs only out of range. -/
theorem additions_are_exact (graph : Graph N W) (distances : Distances graph.nodeCount W)
    (accepted : Distances.ofGraph graph = .ok distances) :
    (∀ stops, stops.Nodup → (tourLengthLedger distances stops).Reports Addition.Exact ∧
        (tourLengthLedger distances stops).result? = distances.tourLength stops) ∧
      (∀ start trail distance, trail.IsPath distances start →
        toInt distance = distances.span (steps trail.nodes) →
          (lowerBoundLedger distances start trail distance).Reports Addition.Exact ∧
            (lowerBoundLedger distances start trail distance).result? =
              lowerBound? distances start trail distance) ∧
      ((greedyLedger graph).Reports Addition.Exact ∧
        (greedyLedger graph).outcome = (greedy graph).outcome) ∧
      (∀ budget, (branchAndBoundLedger graph budget).Reports Addition.Exact ∧
        (branchAndBoundLedger graph budget).outcome = (branchAndBound graph budget).outcome) ∧
      ∀ add : W → W → W, (∀ addition : Addition W, addition.Exact → addition.Kept add) →
        (∀ stops, stops.Nodup → @Distances.tourLength _ W (Weight.withAddition add) distances stops =
          distances.tourLength stops) ∧
        (∀ start trail distance, trail.IsPath distances start →
          toInt distance = distances.span (steps trail.nodes) →
            @lowerBound? _ W (Weight.withAddition add) distances start trail distance =
              lowerBound? distances start trail distance) ∧
        (@greedy N W _ (Weight.withAddition add) graph).outcome = (greedy graph).outcome ∧
        ∀ budget, (@branchAndBound N W _ (Weight.withAddition add) graph budget).outcome =
          (branchAndBound graph budget).outcome := by
  obtain ⟨-, ceiling, fits⟩ := Distances.of_graph_eq_ok accepted
  obtain ⟨high, entering⟩ := Distances.exists_fits_entering accepted
  refine ⟨?_, ?_, ?_, ?_, ?_⟩
  · intro stops distinct
    exact ⟨tour_length_ledger_reports fits distinct, result?_sum_tour distances stops⟩
  · intro start trail distance isPath exact
    exact ⟨(lower_bound_ledger_charged fits entering isPath exact).1,
      result?_sum_bound distances start trail distance⟩
  · exact ⟨greedy_ledger_reports accepted fits, outcome_walk_tour graph⟩
  · intro budget
    exact ⟨branch_and_bound_ledger_reports accepted fits entering budget,
      outcome_search_tour graph budget⟩
  · intro add keeps
    refine ⟨?_, ?_, greedy_with_addition accepted fits keeps,
      branch_and_bound_with_addition accepted fits entering keeps⟩
    · intro stops distinct
      exact tour_length_with_addition fits keeps distinct
    · intro start trail distance isPath exact
      exact lower_bound?_with_addition fits entering keeps isPath exact

/-- A single round trip, as long as the weights can tell. -/
def brimming : Graph Int Int32 :=
  Graph.ofEdges [⟨1, 2, 2147483640⟩, ⟨2, 3, 4⟩, ⟨3, 1, 3⟩]

/-- The plain sum where it is exact, and zero where it is not. -/
def addExactly (left right : Int32) : Int32 :=
  if toInt (left + right) = toInt left + toInt right then left + right else 0

theorem additions_are_exact_brimming :
    (greedyLedger brimming).events.map (fun addition => addition.left + addition.right) =
        [2147483640, 2147483644, 2147483647] ∧
      (∀ addition ∈ (greedyLedger brimming).events, addition.Exact) ∧
      (branchAndBound brimming none).outcome.toOption.map Tour.distance = some 2147483647 ∧
      (branchAndBoundLedger brimming none).Reports Addition.Exact ∧
      (@branchAndBound Int Int32 _ (Weight.withAddition addExactly) brimming none).outcome =
        (branchAndBound brimming none).outcome := by
  have sums : (greedyLedger brimming).events.map (fun addition => addition.left + addition.right) =
      [2147483640, 2147483644, 2147483647] := by decide +kernel
  have length : (branchAndBound brimming none).outcome.toOption.map Tour.distance =
      some 2147483647 := by decide +kernel
  have accepted : (Distances.ofGraph brimming).toOption.isSome = true := by decide +kernel
  cases table : Distances.ofGraph brimming with
  | error failure => simp [table, Except.toOption] at accepted
  | ok distances =>
      obtain ⟨-, -, walk, searches, others⟩ := additions_are_exact brimming distances table
      have alike := others addExactly fun addition exact => if_pos exact.same
      exact ⟨sums, walk.1, length, (searches none).1, alike.2.2.2 none⟩

end Graphs

end FlowTour.Tour
