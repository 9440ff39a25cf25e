import FlowTour.Graph.Building
import FlowTour.Proofs.Tour.Search

/-!
Runs of the search with different budgets. A run with a budget takes the steps of the run with a larger
one, until that one expands a path for which the budget has nothing left; there it is cut short. A run
without a budget reports how many paths it has expanded, and this number decides which budgets are
enough. What a later state has found is never longer than what an earlier one had.
-/

namespace FlowTour.Tour

variable {n : Nat} {W : Type} {distances : Distances n W} {start : Fin n}

section Cutting

variable [Weight W] {search middle final next : Search n W} {partialTour : Partial n W}
  {frontier : Heap (Partial n W)} {budget larger : Option Nat} {limit later : Nat} {Cause : Type}

/-- Whatever the larger budget limits, the other one limits too, and no less. -/
def Loosens (larger budget : Option Nat) : Prop :=
  ∀ limit, larger = some limit → ∃ less, budget = some less ∧ less ≤ limit

/-- The next path should be expanded, and the budget is used up. -/
structure CutShort (budget : Option Nat) (search : Search n W) (partialTour : Partial n W)
    (frontier : Heap (Partial n W)) : Prop where
  running : search.stopped = false
  popped : search.frontier.pop? Partial.below = some (partialTour, frontier)
  beating : search.beats partialTour.bound = true
  spent : budget.any (· ≤ search.expansions) = true

theorem expand_of_pop (running : search.stopped = false)
    (popped : search.frontier.pop? Partial.below = some (partialTour, frontier)) :
    (expand distances start budget search : Traced (Progress W) Cause (Option (Search n W))) =
      if !search.beats partialTour.bound then pure (some { search with frontier })
      else if budget.any (· ≤ search.expansions) then
        pure (some { search with frontier, stopped := true })
      else do
        let final ← partialTour.trail.remaining.foldlM (branch distances start partialTour)
          { search with frontier, expansions := search.expansions + 1 }
        return some final := by
  unfold expand
  rw [if_neg (Bool.eq_false_iff.mp running), popped]
  rfl

theorem CutShort.expand_eq (cut : CutShort budget search partialTour frontier) :
    (expand distances start budget search : Traced (Progress W) Cause (Option (Search n W))) =
      pure (some { search with frontier, stopped := true }) := by
  rw [expand_of_pop cut.running cut.popped, cut.beating, if_neg (by decide), if_pos cut.spent]

theorem Loosens.any_eq_false {expansions : Nat} (loosens : Loosens larger budget)
    (unspent : budget.any (· ≤ expansions) = false) : larger.any (· ≤ expansions) = false := by
  rw [← Bool.not_eq_true, Option.any_eq_true] at unspent ⊢
  rintro ⟨limit, limited, atMost⟩
  obtain ⟨less, tighter, fewer⟩ := loosens limit limited
  exact unspent ⟨less, tighter, decide_eq_true (fewer.trans (of_decide_eq_true atMost))⟩

/-- With a larger budget a step is the same, unless the budget cuts the search short. -/
theorem expand_eq_or_cut_short (loosens : Loosens larger budget) (search : Search n W) :
    (expand distances start budget search : Traced (Progress W) Cause (Option (Search n W))) =
        expand distances start larger search ∨
      ∃ partialTour frontier, CutShort budget search partialTour frontier := by
  cases stopped : search.stopped with
  | true => exact .inl (by simp [expand, stopped])
  | false =>
      cases popped : search.frontier.pop? Partial.below with
      | none => exact .inl (by simp [expand, stopped, popped])
      | some taken =>
          obtain ⟨partialTour, frontier⟩ := taken
          rw [expand_of_pop stopped popped, expand_of_pop stopped popped]
          cases beating : search.beats partialTour.bound with
          | false => exact .inl rfl
          | true =>
              cases spent : budget.any (· ≤ search.expansions) with
              | true => exact .inr ⟨partialTour, frontier, stopped, popped, beating, spent⟩
              | false =>
                  rw [loosens.any_eq_false spent]
                  exact .inl rfl

theorem iterate_of_stopped (stopped : search.stopped = true) (fuel : Nat) :
    (iterate (expand distances start budget) fuel search :
      Traced (Progress W) Cause (Search n W)).outcome = .ok search := by
  cases fuel with
  | zero => rfl
  | succ fuel =>
      rw [iterate, Traced.bind_eq_ok_iff]
      exact ⟨none, by simp [expand, stopped], rfl⟩

variable (Cause distances start) in
/-- A run is the run with a larger budget, or it ends where that one goes on. -/
theorem iterate_eq_or_cut_short (loosens : Loosens larger budget) (fuel : Nat)
    (search : Search n W) :
    (iterate (expand distances start budget) fuel search :
        Traced (Progress W) Cause (Search n W)) =
        iterate (expand distances start larger) fuel search ∨
      ∃ middle partialTour frontier later, CutShort budget middle partialTour frontier ∧
        (iterate (expand distances start budget) fuel search :
          Traced (Progress W) Cause (Search n W)).outcome =
            .ok { middle with frontier, stopped := true } ∧
        (iterate (expand distances start larger) fuel search :
          Traced (Progress W) Cause (Search n W)).outcome =
            (iterate (expand distances start larger) (later + 1) middle :
              Traced (Progress W) Cause (Search n W)).outcome := by
  induction fuel generalizing search with
  | zero => exact .inl rfl
  | succ fuel induction =>
      rcases expand_eq_or_cut_short loosens search with same | ⟨partialTour, frontier, cut⟩
      · obtain ⟨found, stepped⟩ : ∃ found, (expand distances start larger search :
            Traced (Progress W) Cause (Option (Search n W))).outcome = .ok found :=
          expand_answers distances start larger search
        rw [iterate, iterate, same]
        cases found with
        | none =>
            apply Or.inl
            apply Traced.bind_congr
            intro result again
            obtain rfl := Except.ok.inj (stepped.symm.trans again)
            rfl
        | some next =>
            rcases induction next with runs | ⟨middle, partialTour, frontier, later, cut, ended, on⟩
            · apply Or.inl
              apply Traced.bind_congr
              intro result again
              obtain rfl := Except.ok.inj (stepped.symm.trans again)
              exact runs
            · refine .inr ⟨middle, partialTour, frontier, later, cut, ?_, ?_⟩
              · rw [Traced.outcome_bind, stepped]
                exact ended
              · rw [Traced.outcome_bind, stepped]
                exact on
      · refine .inr ⟨search, partialTour, frontier, fuel, cut, ?_, rfl⟩
        rw [iterate, cut.expand_eq]
        exact iterate_of_stopped rfl fuel

end Cutting

section Counting

variable [Weight W] {search middle final next : Search n W} {partialTour : Partial n W}
  {frontier : Heap (Partial n W)} {budget larger : Option Nat} {limit later fuel : Nat}
  {Cause : Type}

theorem ExpandStep.expansions_le (step : ExpandStep distances start budget search (some next)) :
    search.expansions ≤ next.expansions := by
  cases step with
  | expanded running popped beating unspent branched =>
      rw [branched.expansions_eq]
      exact Nat.le_succ _
  | _ => exact Nat.le_refl _

theorem ExpandStep.expansions_le_limit (within : search.expansions ≤ limit)
    (step : ExpandStep distances start (some limit) search (some next)) :
    next.expansions ≤ limit := by
  cases step with
  | expanded running popped beating unspent branched =>
      rw [branched.expansions_eq]
      exact unspent limit rfl
  | _ => exact within

theorem expansions_le_of_iterate
    (ran : (iterate (expand distances start budget) fuel search :
      Traced (Progress W) Cause (Search n W)).outcome = .ok final) :
    search.expansions ≤ final.expansions :=
  Answering.ofTraced.iterate_keeps (fun state => search.expansions ≤ state.expansions)
    (fun _ _ within stepped => within.trans (expand_step_of_expand stepped).expansions_le)
    (Nat.le_refl _) ran

theorem expansions_le_limit_of_iterate (within : search.expansions ≤ limit)
    (ran : (iterate (expand distances start (some limit)) fuel search :
      Traced (Progress W) Cause (Search n W)).outcome = .ok final) :
    final.expansions ≤ limit :=
  Answering.ofTraced.iterate_keeps (fun state => state.expansions ≤ limit)
    (fun _ _ earlier stepped => (expand_step_of_expand stepped).expansions_le_limit earlier)
    within ran

theorem CutShort.lt_expansions (cut : CutShort (some limit) middle partialTour frontier)
    (ran : (iterate (expand distances start none) (later + 1) middle :
      Traced (Progress W) Cause (Search n W)).outcome = .ok final) : limit < final.expansions := by
  have spent : limit ≤ middle.expansions := of_decide_eq_true cut.spent
  obtain ⟨found, stepped, others⟩ := Traced.bind_eq_ok_iff.mp ran
  cases expand_step_of_expand stepped with
  | stopped stopped => cases cut.running.symm.trans stopped
  | exhausted running empty => cases cut.popped.symm.trans empty
  | discarded running popped notBeating =>
      obtain ⟨rfl, rfl⟩ := Prod.mk.inj (Option.some.inj (cut.popped.symm.trans popped))
      exact absurd cut.beating notBeating
  | cutShort running popped beating limited used => cases limited
  | expanded running popped beating unspent branched =>
      have more := expansions_le_of_iterate others
      rw [branched.expansions_eq] at more
      exact Nat.lt_of_le_of_lt spent more

end Counting

section Improving

open IntegerWeight

variable [IntegerWeight W] {search before middle after final next : Search n W}
  {partialTour : Partial n W} {nodes : List (Fin n)} {node : Fin n} {budget : Option Nat}
  {fuel : Nat} {Cause : Type}

/-- The later search has found the same, or something that is shorter. -/
def Search.Improves (before after : Search n W) : Prop :=
  after.incumbent = before.incumbent ∨ ∃ length stops, after.incumbent = some (length, stops) ∧
    before.beats length = true

theorem Search.Improves.refl (search : Search n W) : search.Improves search := .inl rfl

theorem beats_congr (same : after.incumbent = before.incumbent) (length : W) :
    after.beats length = before.beats length := by
  rw [Search.beats, Search.beats, same]

theorem beats_of_lt {length best : W} {stops : List (Fin n)}
    (found : after.incumbent = some (best, stops)) (shorter : after.beats length = true)
    (improved : before.beats best = true) : before.beats length = true := by
  cases earlier : before.incumbent with
  | none => rw [Search.beats, earlier]
  | some known =>
      have here := lt_of_beats shorter found
      have there := lt_of_beats improved earlier
      rw [Search.beats, earlier]
      exact decide_eq_true (lt_iff_to_int_lt.mpr (here.trans there))

theorem Search.Improves.trans (first : before.Improves middle) (second : middle.Improves after) :
    before.Improves after := by
  rcases second with same | ⟨length, stops, found, shorter⟩
  · rcases first with equal | ⟨length, stops, found, shorter⟩
    · exact .inl (same.trans equal)
    · exact .inr ⟨length, stops, same.trans found, shorter⟩
  · rcases first with equal | ⟨best, others, known, improved⟩
    · exact .inr ⟨length, stops, found, beats_congr equal length ▸ shorter⟩
    · exact .inr ⟨length, stops, found, beats_of_lt known shorter improved⟩

theorem Search.Improves.exists_le (improves : before.Improves after) {best : W}
    {stops : List (Fin n)} (found : before.incumbent = some (best, stops)) :
    ∃ length others, after.incumbent = some (length, others) ∧ toInt length ≤ toInt best := by
  rcases improves with same | ⟨length, others, improved, shorter⟩
  · exact ⟨best, stops, same.trans found, Int.le_refl _⟩
  · exact ⟨length, others, improved, (lt_of_beats shorter found).le⟩

theorem BranchStep.improves (step : BranchStep distances start partialTour search node next) :
    search.Improves next := by
  cases step with
  | recorded joined full returning beating => exact .inr ⟨_, _, rfl, beating⟩
  | _ => exact .inl rfl

theorem BranchSteps.improves (branched : BranchSteps distances start partialTour search nodes next) :
    search.Improves next :=
  branched.keep search.Improves (fun _ _ _ _ earlier step => earlier.trans step.improves)
    (Search.Improves.refl search)

theorem ExpandStep.improves (step : ExpandStep distances start budget search (some next)) :
    search.Improves next := by
  cases step with
  | expanded running popped beating unspent branched => exact branched.improves
  | _ => exact .inl rfl

theorem improves_of_iterate (ran : (iterate (expand distances start budget) fuel search :
      Traced (Progress W) Cause (Search n W)).outcome = .ok final) : search.Improves final :=
  Answering.ofTraced.iterate_keeps search.Improves
    (fun _ _ earlier stepped => earlier.trans (expand_step_of_expand stepped).improves)
    (Search.Improves.refl search) ran

end Improving

section Searches

variable [Weight W] {search final : Search n W} {budget larger : Option Nat} {limit : Nat}
  {Cause : Type}

variable (Cause distances start) in
theorem run_search_eq_or_cut_short (loosens : Loosens larger budget) :
    (runSearch distances start budget : Traced (Progress W) Cause (Search n W)) =
        runSearch distances start larger ∨
      ∃ middle partialTour frontier later, CutShort budget middle partialTour frontier ∧
        (runSearch distances start budget : Traced (Progress W) Cause (Search n W)).outcome =
          .ok { middle with frontier, stopped := true } ∧
        ∀ final, (runSearch distances start larger :
            Traced (Progress W) Cause (Search n W)).outcome = .ok final →
          (iterate (expand distances start larger) (later + 1) middle :
            Traced (Progress W) Cause (Search n W)).outcome = .ok final := by
  rcases iterate_eq_or_cut_short distances start Cause loosens (extensionCount (n - 1) + 2)
      (initialSearch distances start) with
    same | ⟨middle, partialTour, frontier, later, cut, ended, onward⟩
  · apply Or.inl
    rw [runSearch, runSearch, begin_search_eq_pure, Traced.pure_bind, Traced.pure_bind, same]
  · refine .inr ⟨middle, partialTour, frontier, later, cut, run_search_eq_ok_iff.mpr ended, ?_⟩
    intro final ran
    rw [← onward]
    exact run_search_eq_ok_iff.mp ran

theorem run_search_reports (ran : (runSearch distances start budget :
      Traced (Progress W) Cause (Search n W)).outcome = .ok final) :
    (runSearch distances start budget : Traced (Progress W) Cause (Search n W)).events.getLast? =
      some (.searchEnded final.expansions final.frontier.size) := by
  have ended := run_search_eq_ok_iff.mp ran
  rw [runSearch, begin_search_eq_pure, Traced.pure_bind]
  split
  · rw [Traced.events_bind_of_ok ended]
    exact List.getLast?_concat
  · rw [Traced.events_bind_of_ok rfl, Traced.events_bind_of_ok ended, ← List.append_assoc]
    exact List.getLast?_concat

theorem loosens_none (budget : Option Nat) : Loosens none budget :=
  fun _ impossible => nomatch impossible

/-- A budget is enough when it is at least what the search without one uses up; with less than that,
the search is stopped. -/
theorem run_search_of_budget (ran : (runSearch distances start none :
      Traced (Progress W) Cause (Search n W)).outcome = .ok final) (limit : Nat) :
    (final.expansions ≤ limit →
      (runSearch distances start (some limit) : Traced (Progress W) Cause (Search n W)) =
        runSearch distances start none) ∧
      (limit < final.expansions → ∃ last, (runSearch distances start (some limit) :
        Traced (Progress W) Cause (Search n W)).outcome = .ok last ∧ last.stopped = true) := by
  rcases run_search_eq_or_cut_short distances start Cause (loosens_none (some limit)) with
    same | ⟨middle, partialTour, frontier, later, cut, ended, onward⟩
  · constructor
    · exact fun enough => same
    · intro short
      rw [← same] at ran
      have within := expansions_le_limit_of_iterate (Nat.zero_le limit) (run_search_eq_ok_iff.mp ran)
      omega
  · have more := cut.lt_expansions (onward final ran)
    constructor
    · intro enough
      omega
    · intro short
      exact ⟨_, ended, rfl⟩

end Searches

section Outcomes

variable {N : Type} [NodeKey N] [Weight W] {graph : Graph N W}
  {distances : Distances graph.nodeCount W} {budget larger : Option Nat}

theorem branch_and_bound_congr (accepted : Distances.ofGraph graph = .ok distances)
    (same : ∀ filled : 0 < graph.nodeCount, 1 < graph.nodeCount →
      (runSearch distances ⟨0, filled⟩ budget :
        Traced (Progress W) (Failure N W) (Search graph.nodeCount W)) =
          runSearch distances ⟨0, filled⟩ larger) :
    branchAndBound graph budget = branchAndBound graph larger := by
  unfold branchAndBound searchTour
  apply Traced.bind_congr
  intro table answered
  obtain rfl := Except.ok.inj (accepted.symm.trans answered)
  by_cases filled : 0 < graph.nodeCount
  · rw [dif_pos filled, dif_pos filled]
    by_cases single : graph.nodeCount = 1
    · rw [if_pos single, if_pos single]
    · have several : 1 < graph.nodeCount := by omega
      dsimp only
      rw [if_neg single, if_neg single, same filled several]
  · rw [dif_neg filled, dif_neg filled]

theorem branch_and_bound_events (accepted : Distances.ofGraph graph = .ok distances)
    (filled : 0 < graph.nodeCount) (several : 1 < graph.nodeCount)
    {final : Search graph.nodeCount W}
    (ran : (runSearch distances ⟨0, filled⟩ budget :
      Traced (Progress W) (Failure N W) (Search graph.nodeCount W)).outcome = .ok final) :
    (branchAndBound graph budget).events = (runSearch distances ⟨0, filled⟩ budget :
      Traced (Progress W) (Failure N W) (Search graph.nodeCount W)).events := by
  unfold branchAndBound searchTour
  rw [Traced.events_bind_of_ok accepted, dif_pos filled]
  dsimp only
  rw [if_neg (Nat.ne_of_gt several), Traced.events_bind_of_ok ran]
  cases final.incumbent <;> exact List.append_nil _

theorem branch_and_bound_of_few (accepted : Distances.ofGraph graph = .ok distances)
    (few : ¬1 < graph.nodeCount) : branchAndBound graph budget = branchAndBound graph larger :=
  branch_and_bound_congr accepted fun _ several => absurd several few

end Outcomes

section Budgets

open IntegerWeight

variable {N : Type} [NodeKey N]

/-- The budgets that are enough are those that the unlimited search would not use up. -/
theorem exists_expansions {W : Type} [Weight W] {graph : Graph N W}
    {distances : Distances graph.nodeCount W} (accepted : Distances.ofGraph graph = .ok distances) :
    ∃ expansions,
      (1 < graph.nodeCount → ∃ waiting, (branchAndBound graph none).events.getLast? =
        some (.searchEnded expansions waiting)) ∧
      (∀ budget, expansions ≤ budget →
        branchAndBound graph (some budget) = branchAndBound graph none) ∧
      ∀ budget, budget < expansions →
        (branchAndBound graph (some budget)).outcome = .error .searchBudgetExhausted ∨
          ∃ tour, (branchAndBound graph (some budget)).outcome = .ok tour ∧
            tour.optimal = false := by
  by_cases several : 1 < graph.nodeCount
  · have filled : 0 < graph.nodeCount := by omega
    obtain ⟨final, ran⟩ : ∃ final, (runSearch distances ⟨0, filled⟩ none :
        Traced (Progress W) (Failure N W) (Search graph.nodeCount W)).outcome = .ok final :=
      run_search_answers distances ⟨0, filled⟩ none
    refine ⟨final.expansions, fun _ => ⟨final.frontier.size, ?_⟩, ?_, ?_⟩
    · rw [branch_and_bound_events accepted filled several ran]
      exact run_search_reports ran
    · intro budget enough
      apply branch_and_bound_congr accepted
      intro _ _
      exact (run_search_of_budget ran budget).1 enough
    · intro budget short
      obtain ⟨last, ended, stopped⟩ := (run_search_of_budget ran budget).2 short
      rw [branch_and_bound_several accepted filled several ended, stopped]
      cases last.incumbent with
      | none => exact .inl rfl
      | some best => exact .inr ⟨_, rfl, rfl⟩
  · refine ⟨0, fun more => absurd more several, ?_, ?_⟩
    · intro budget _
      exact branch_and_bound_of_few accepted several
    · intro budget less
      exact absurd less (Nat.not_lt_zero budget)

/-- A larger budget does not lose what a smaller one finds, and finds nothing longer. -/
theorem exists_of_loosens {W : Type} [IntegerWeight W] {graph : Graph N W}
    {budget larger : Option Nat} (loosens : Loosens larger budget) {tour : Tour N W}
    (answered : (branchAndBound graph budget).outcome = .ok tour) :
    ∃ other, (branchAndBound graph larger).outcome = .ok other ∧
      toInt other.distance ≤ toInt tour.distance := by
  have equal (same : branchAndBound graph budget = branchAndBound graph larger) :
      ∃ other, (branchAndBound graph larger).outcome = .ok other ∧
        toInt other.distance ≤ toInt tour.distance :=
    ⟨tour, same ▸ answered, Int.le_refl _⟩
  obtain ⟨distances, accepted, -⟩ := Traced.bind_eq_ok_iff.mp answered
  rw [Traced.outcome_of_except] at accepted
  by_cases several : 1 < graph.nodeCount
  · have filled : 0 < graph.nodeCount := by omega
    rcases run_search_eq_or_cut_short distances ⟨0, filled⟩ (Failure N W) loosens with
      same | ⟨middle, partialTour, frontier, later, cut, ended, onward⟩
    · exact equal (branch_and_bound_congr accepted fun _ _ => same)
    · rw [branch_and_bound_several accepted filled several ended] at answered
      cases found : middle.incumbent with
      | none => simp [found] at answered
      | some best =>
          simp only [found] at answered
          obtain rfl := Except.ok.inj answered
          obtain ⟨final, ran⟩ : ∃ final, (runSearch distances ⟨0, filled⟩ larger :
              Traced (Progress W) (Failure N W) (Search graph.nodeCount W)).outcome = .ok final :=
            run_search_answers distances ⟨0, filled⟩ larger
          obtain ⟨length, stops, improved, atMost⟩ :=
            (improves_of_iterate (onward final ran)).exists_le found
          have outcome := branch_and_bound_several accepted filled several ran
          rw [improved] at outcome
          exact ⟨_, outcome, atMost⟩
  · exact equal (branch_and_bound_of_few accepted several)

theorem branch_and_bound_budget :
    (∀ (W : Type) [Weight W] (graph : Graph N W) (distances : Distances graph.nodeCount W),
      Distances.ofGraph graph = .ok distances →
        ∃ expansions,
          (1 < graph.nodeCount → ∃ waiting, (branchAndBound graph none).events.getLast? =
            some (.searchEnded expansions waiting)) ∧
          (∀ budget, expansions ≤ budget →
            branchAndBound graph (some budget) = branchAndBound graph none) ∧
          ∀ budget, budget < expansions →
            (branchAndBound graph (some budget)).outcome = .error .searchBudgetExhausted ∨
              ∃ tour, (branchAndBound graph (some budget)).outcome = .ok tour ∧
                tour.optimal = false) ∧
      ∀ (W : Type) [IntegerWeight W] (graph : Graph N W) (budget : Nat) (tour : Tour N W),
        (branchAndBound graph (some budget)).outcome = .ok tour →
          ∀ larger : Option Nat, (∀ limit, larger = some limit → budget ≤ limit) →
            ∃ other, (branchAndBound graph larger).outcome = .ok other ∧
              toInt other.distance ≤ toInt tour.distance := by
  constructor
  · intro W _ graph distances accepted
    exact exists_expansions accepted
  · intro W _ graph budget tour answered larger above
    have loosens : Loosens larger (some budget) :=
      fun limit limited => ⟨budget, rfl, above limit limited⟩
    exact exists_of_loosens loosens answered

/-- Four nodes on which the walk to the nearest node makes a round trip twice as long as the
shortest one. -/
def lured : Graph Int Int32 :=
  Graph.ofEdges [⟨1, 2, 1⟩, ⟨2, 3, 1⟩, ⟨3, 4, 1⟩, ⟨4, 1, 9⟩, ⟨1, 3, 2⟩, ⟨3, 2, 2⟩, ⟨2, 4, 2⟩,
    ⟨3, 1, 1⟩, ⟨4, 3, 2⟩]

theorem branch_and_bound_budget_lured :
    (∀ budget, 3 ≤ budget → branchAndBound lured (some budget) = branchAndBound lured none) ∧
      (∀ budget, budget < 3 →
        (branchAndBound lured (some budget)).outcome = .error .searchBudgetExhausted ∨
          ∃ tour, (branchAndBound lured (some budget)).outcome = .ok tour ∧
            tour.optimal = false) ∧
      ∀ budget : Nat, ∃ tour, (branchAndBound lured (some budget)).outcome = .ok tour ∧
        toInt tour.distance ≤ 12 := by
  have accepted : (Distances.ofGraph lured).toOption.isSome = true := by decide +kernel
  have reported : ((branchAndBound lured none).events.getLast?.any fun event =>
      match event with
      | .searchEnded expansions _ => expansions = 3
      | _ => false) = true := by decide +kernel
  have walked : (branchAndBound lured (some 0)).outcome.toOption.any (·.distance = 12) = true := by
    decide +kernel
  obtain ⟨enough, larger⟩ := @branch_and_bound_budget Int _
  cases table : Distances.ofGraph lured with
  | error failure => simp [table, Except.toOption] at accepted
  | ok distances =>
      obtain ⟨expansions, last, same, short⟩ := enough Int32 lured distances table
      obtain ⟨waiting, ended⟩ := last (by decide)
      obtain rfl : expansions = 3 := by simpa [ended] using reported
      refine ⟨same, short, ?_⟩
      intro budget
      obtain ⟨tour, answered, distance⟩ := Traced.exists_ok_of_any walked
      obtain ⟨other, found, atMost⟩ := larger Int32 lured 0 tour answered (some budget)
        (fun _ _ => Nat.zero_le _)
      rw [of_decide_eq_true distance] at atMost
      exact ⟨other, found, atMost⟩

end Budgets

end FlowTour.Tour
