import FlowTour.Proofs.Tour.Journal

/-!
The plain additions of the two solvers. In a ledger each addition is entered when it is made, so also
those whose sum is dropped later on, and the ledger is kept where there is no result. What the solvers
answer does not depend on the journal, whatever the weights are.
-/

namespace FlowTour

namespace Traced

variable {Event Other Failure Cause Result Next State Item : Type}

theorem outcome_bind_congr {first : Traced Event Failure Result}
    {second : Traced Other Failure Result} {next : Result → Traced Event Failure Next}
    {otherNext : Result → Traced Other Failure Next} (same : first.outcome = second.outcome)
    (nexts : ∀ result, (next result).outcome = (otherNext result).outcome) :
    (first >>= next).outcome = (second >>= otherNext).outcome := by
  simp only [outcome_bind, same, nexts]

theorem outcome_attempt_bind_congr {first : Traced Event Cause Result}
    {second : Traced Other Cause Result} {next : Option Result → Traced Event Failure Next}
    {otherNext : Option Result → Traced Other Failure Next} (same : first.result? = second.result?)
    (nexts : ∀ result?, (next result?).outcome = (otherNext result?).outcome) :
    (first.attempt >>= next).outcome = (second.attempt >>= otherNext).outcome :=
  outcome_bind_congr (congrArg Except.ok same) nexts

theorem outcome_foldlm_congr {step : State → Item → Traced Event Failure State}
    {otherStep : State → Item → Traced Other Failure State}
    (same : ∀ state item, (step state item).outcome = (otherStep state item).outcome)
    (items : List Item) (state : State) :
    (items.foldlM step state).outcome = (items.foldlM otherStep state).outcome := by
  induction items generalizing state with
  | nil => rfl
  | cons item rest induction =>
      rw [List.foldlM_cons, List.foldlM_cons]
      exact outcome_bind_congr (same state item) induction

theorem outcome_iterate_congr {step : State → Traced Event Failure (Option State)}
    {otherStep : State → Traced Other Failure (Option State)}
    (same : ∀ state, (step state).outcome = (otherStep state).outcome) (fuel : Nat)
    (state : State) :
    (iterate step fuel state).outcome = (iterate otherStep fuel state).outcome := by
  induction fuel generalizing state with
  | zero => rfl
  | succ fuel induction =>
      apply outcome_bind_congr (same state)
      intro found
      cases found with
      | none => rfl
      | some next => exact induction next

end Traced

namespace Tour

section Journals

variable {n : Nat} {N W Event Other Cause : Type} [NodeKey N] [Weight W] [Journal W Event]
  [Journal W Other]

theorem outcome_branch (distances : Distances n W) (start : Fin n) (partialTour : Partial n W)
    (search : Search n W) (node : Fin n) :
    (branch distances start partialTour search node : Traced Event Cause (Search n W)).outcome =
      (branch distances start partialTour search node : Traced Other Cause (Search n W)).outcome := by
  unfold branch
  cases distances.get partialTour.trail.last node with
  | none => rfl
  | some weight =>
      refine Traced.outcome_bind_congr rfl ?_
      intro distance
      dsimp only
      split
      · cases distances.get node start with
        | none => rfl
        | some back =>
            refine Traced.outcome_bind_congr rfl ?_
            intro length
            split <;> rfl
      · apply Traced.outcome_attempt_bind_congr
        · rw [result?_sum_bound, result?_sum_bound]
        · intro bound?
          cases bound? with
          | none => rfl
          | some bound =>
              dsimp only
              split <;> rfl

theorem outcome_expand (distances : Distances n W) (start : Fin n) (budget : Option Nat)
    (search : Search n W) :
    (expand distances start budget search : Traced Event Cause (Option (Search n W))).outcome =
      (expand distances start budget search :
        Traced Other Cause (Option (Search n W))).outcome := by
  unfold expand
  split
  · rfl
  · cases search.frontier.pop? Partial.below with
    | none => rfl
    | some popped =>
        dsimp only
        split
        · rfl
        · split
          · rfl
          · apply Traced.outcome_bind_congr
            · exact Traced.outcome_foldlm_congr (outcome_branch distances start _) _ _
            · exact fun _ => rfl

theorem outcome_begin_search (distances : Distances n W) (start : Fin n) :
    (beginSearch distances start : Traced Event Cause (Search n W)).outcome =
      (beginSearch distances start : Traced Other Cause (Search n W)).outcome := by
  unfold beginSearch measuredWalk
  apply Traced.outcome_bind_congr
  · cases nearestNeighbor? distances start with
    | none => rfl
    | some stops =>
        apply Traced.outcome_attempt_bind_congr
        · rw [result?_sum_tour, result?_sum_tour]
        · exact fun _ => rfl
  · intro incumbent
    apply Traced.outcome_attempt_bind_congr
    · rw [result?_sum_bound, result?_sum_bound]
    · exact fun _ => rfl

theorem outcome_run_search (distances : Distances n W) (start : Fin n) (budget : Option Nat) :
    (runSearch distances start budget : Traced Event Cause (Search n W)).outcome =
      (runSearch distances start budget : Traced Other Cause (Search n W)).outcome := by
  apply Traced.outcome_bind_congr (outcome_begin_search distances start)
  intro initial
  have searched : (iterate (expand distances start budget) (extensionCount (n - 1) + 2) initial :
      Traced Event Cause (Search n W)).outcome =
        (iterate (expand distances start budget) (extensionCount (n - 1) + 2) initial :
          Traced Other Cause (Search n W)).outcome :=
    Traced.outcome_iterate_congr (outcome_expand distances start budget) _ _
  cases initial.incumbent with
  | none => exact Traced.outcome_bind_congr searched fun _ => rfl
  | some found =>
      refine Traced.outcome_bind_congr rfl ?_
      exact fun _ => Traced.outcome_bind_congr searched fun _ => rfl

theorem outcome_walk_tour (graph : Graph N W) :
    (walkTour graph : Traced Event (Failure N W) (Tour N W)).outcome =
      (walkTour graph : Traced Other (Failure N W) (Tour N W)).outcome := by
  apply Traced.outcome_bind_congr
  · rfl
  · intro distances
    split
    · cases nearestNeighbor? distances _ with
      | none => rfl
      | some stops =>
          apply Traced.outcome_attempt_bind_congr
          · rw [result?_sum_tour, result?_sum_tour]
          · intro length?
            cases length? <;> rfl
    · rfl

theorem outcome_search_tour (graph : Graph N W) (budget : Option Nat) :
    (searchTour graph budget : Traced Event (Failure N W) (Tour N W)).outcome =
      (searchTour graph budget : Traced Other (Failure N W) (Tour N W)).outcome := by
  apply Traced.outcome_bind_congr
  · rfl
  · intro distances
    split
    · dsimp only
      split
      · rfl
      · apply Traced.outcome_bind_congr (outcome_run_search distances _ budget)
        intro final
        cases final.incumbent <;> rfl
    · rfl

end Journals

/-- Computations that enter every addition they make. -/
abbrev Ledger (W : Type) : Type → Type → Type := Traced (Addition W)

section Ledgers

variable {n : Nat} {N W : Type} [NodeKey N] [Weight W]

abbrev tourLengthLedger (distances : Distances n W) (stops : List (Fin n)) : Ledger W Unit W :=
  distances.sumTour stops

abbrev lowerBoundLedger (distances : Distances n W) (start : Fin n) (trail : Trail n)
    (distance : W) : Ledger W Unit W :=
  sumBound distances start trail distance

abbrev greedyLedger (graph : Graph N W) : Ledger W (Failure N W) (Tour N W) := walkTour graph

abbrev branchAndBoundLedger (graph : Graph N W) (budget : Option Nat) :
    Ledger W (Failure N W) (Tour N W) :=
  searchTour graph budget

end Ledgers

end Tour

end FlowTour
