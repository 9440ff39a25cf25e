import FlowTour.Proofs.Run
import FlowTour.Tour.BranchAndBound

/-!
The tour solvers in the journal of their progress. No addition is entered there, so the sums say nothing
on their way: what follows a sum goes on with the sum at once. What a sum comes to is the same in every
journal.
-/

namespace FlowTour

namespace Traced

variable {Event Failure Cause Result Next State Item : Type}

theorem result?_eq_some_iff {traced : Traced Event Failure Result} {result : Result} :
    traced.result? = some result ↔ traced.outcome = .ok result := by
  rw [result?]
  cases traced.outcome with
  | error failure => simp [Except.toOption]
  | ok found => simp [Except.toOption]

theorem result?_bind (first : Traced Event Failure Result)
    (next : Result → Traced Event Failure Next) :
    (first >>= next).result? = first.result?.bind fun result => (next result).result? := by
  rw [result?, result?, outcome_bind]
  cases first.outcome <;> rfl

theorem result?_of_option (failure : Failure) (found : Option Result) :
    (ofOption failure found : Traced Event Failure Result).result? = found := by
  cases found <;> rfl

theorem result?_foldlm (step : State → Item → Traced Event Failure State) (items : List Item)
    (state : State) :
    (items.foldlM step state).result? =
      items.foldlM (fun state item => (step state item).result?) state := by
  induction items generalizing state with
  | nil => rfl
  | cons item rest induction =>
      rw [List.foldlM_cons, List.foldlM_cons, result?_bind]
      exact congrArg _ (funext induction)

theorem pure_bind (result : Result) (next : Result → Traced Event Failure Next) :
    (pure result >>= next) = next result := rfl

section Reports

/-- Everything that a computation reports is good. -/
def Reports (good : Event → Prop) (traced : Traced Event Failure Result) : Prop :=
  ∀ event ∈ traced.events, good event

variable {good : Event → Prop}

theorem reports_of_no_events {traced : Traced Event Failure Result} (silent : traced.events = []) :
    traced.Reports good := by
  intro event member
  rw [silent] at member
  cases member

theorem reports_bind_iff {first : Traced Event Failure Result}
    {next : Result → Traced Event Failure Next} :
    (first >>= next).Reports good ↔ first.Reports good ∧
      ∀ result, first.outcome = .ok result → (next result).Reports good := by
  cases answered : first.outcome with
  | error failure =>
      have same : (first >>= next).events = first.events := by
        change (Traced.bind first next).events = _
        rw [Traced.bind, answered]
      rw [Reports, same]
      apply (and_iff_left _).symm
      intro _ result
      cases result
  | ok result =>
      rw [Reports, events_bind_of_ok answered, List.forall_mem_append]
      apply and_congr_right
      intro _
      constructor
      · rintro reports _ same
        obtain rfl := Except.ok.inj same
        exact reports
      · exact fun reports => reports result rfl

theorem Reports.bind {first : Traced Event Failure Result}
    {next : Result → Traced Event Failure Next} (here : first.Reports good)
    (later : ∀ result, first.outcome = .ok result → (next result).Reports good) :
    (first >>= next).Reports good :=
  reports_bind_iff.mpr ⟨here, later⟩

theorem Reports.attempt_bind {traced : Traced Event Failure Result} (reports : traced.Reports good)
    {next : Option Result → Traced Event Cause Next}
    (later : (next traced.result?).Reports good) : (traced.attempt >>= next).Reports good := by
  have here : (traced.attempt : Traced Event Cause (Option Result)).Reports good := reports
  apply here.bind
  intro result? found
  obtain rfl := Except.ok.inj found
  exact later

theorem reports_foldlm {step : State → Item → Traced Event Failure State} {items : List Item}
    (each : ∀ item ∈ items, ∀ before, (step before item).Reports good) (state : State) :
    (items.foldlM step state).Reports good := by
  induction items generalizing state with
  | nil => exact reports_of_no_events rfl
  | cons item rest induction =>
      have others : ∀ other ∈ rest, ∀ before, (step before other).Reports good := by
        intro other member
        exact each other (List.mem_cons_of_mem _ member)
      rw [List.foldlM_cons]
      apply (each item (List.mem_cons_self ..) state).bind
      exact fun next _ => induction others next

/-- Where every step reports good things as long as an invariant holds, so does a run. -/
theorem reports_iterate {step : State → Traced Event Failure (Option State)}
    (invariant : State → Prop)
    (each : ∀ before, invariant before → (step before).Reports good ∧
      ∀ after, (step before).outcome = .ok (some after) → invariant after)
    (fuel : Nat) {state : State} (start : invariant state) :
    (iterate step fuel state).Reports good := by
  induction fuel generalizing state with
  | zero => exact reports_of_no_events rfl
  | succ fuel induction =>
      obtain ⟨here, kept⟩ := each state start
      apply here.bind
      intro found stepped
      cases found with
      | none => exact reports_of_no_events rfl
      | some next => exact induction (kept next stepped)

end Reports

theorem attempt_of_silent {traced : Traced Event Cause Result}
    (silent : traced.Reports fun _ => False) :
    (traced.attempt : Traced Event Failure (Option Result)) = pure traced.result? := by
  have empty : traced.events = [] := List.eq_nil_iff_forall_not_mem.mpr silent
  change (⟨traced.events, .ok traced.result?⟩ : Traced Event Failure (Option Result)) = _
  rw [empty]
  rfl

end Traced

namespace Tour

variable {n : Nat} {W Event Cause Item : Type} [Weight W]

section Sums

variable [Journal W Event]

theorem result?_add_share (share? : Item → Option W) (sum : W) (item : Item) :
    (addShare share? sum item : Traced Event Unit W).result? = (share? item).map (sum + ·) := by
  unfold addShare
  cases share? item <;> rfl

theorem result?_add_shares (first? : Option W) (share? : Item → Option W) (items : List Item) :
    (addShares first? share? items : Traced Event Unit W).result? =
      (do
        let first ← first?
        items.foldlM (fun sum item => do
          let share ← share? item
          return sum + share) first) := by
  unfold addShares
  simp only [Traced.result?_bind, Traced.result?_of_option, Traced.result?_foldlm,
    result?_add_share, Option.map_eq_bind]
  rfl

theorem map_foldl_mapm (share? : Item → Option W) (items : List Item) (first : W) :
    (items.mapM share?).map (List.foldl (· + ·) first) =
      items.foldlM (fun sum item => do
        let share ← share? item
        return sum + share) first := by
  induction items generalizing first with
  | nil => rfl
  | cons item rest induction =>
      rw [List.mapM_cons, List.foldlM_cons]
      cases share? item with
      | none => rfl
      | some share =>
          apply Eq.trans _ (induction (first + share))
          cases rest.mapM share? <;> rfl

theorem result?_sum_tour (distances : Distances n W) (stops : List (Fin n)) :
    (distances.sumTour stops : Traced Event Unit W).result? = distances.tourLength stops := by
  match stops with
  | [] => rfl
  | [_] => rfl
  | first :: second :: rest =>
      rw [Distances.tourLength, Distances.sumTour, Distances.sumTour, result?_add_shares,
        result?_add_shares]

theorem result?_sum_leaving (distances : Distances n W) (start last : Fin n)
    (remaining : List (Fin n)) :
    (sumLeaving distances start last remaining : Traced Event Unit W).result? =
      leavingBound? distances start last remaining := by
  rw [leavingBound?, sumLeaving, sumLeaving, result?_add_shares, result?_add_shares]

theorem result?_sum_entering (distances : Distances n W) (start last : Fin n)
    (remaining : List (Fin n)) :
    (sumEntering distances start last remaining : Traced Event Unit W).result? =
      enteringBound? distances start last remaining := by
  rw [enteringBound?, sumEntering, sumEntering, result?_add_shares, result?_add_shares]

theorem result?_sum_bound (distances : Distances n W) (start : Fin n) (trail : Trail n)
    (distance : W) :
    (sumBound distances start trail distance : Traced Event Unit W).result? =
      lowerBound? distances start trail distance := by
  rw [lowerBound?, sumBound, sumBound]
  simp only [Traced.result?_bind, result?_sum_leaving, result?_sum_entering]
  rfl

end Sums

theorem tour_length_cons_cons (distances : Distances n W) (first second : Fin n)
    (rest : List (Fin n)) :
    distances.tourLength (first :: second :: rest) =
      (((first :: second :: rest).zip (second :: rest ++ [first])).mapM
        fun (source, target) => distances.get source target).map Weight.total := by
  rw [Distances.tourLength, Distances.sumTour, result?_add_shares]
  exact (map_foldl_mapm _ _ _).symm

theorem lower_bound?_eq_some_iff {distances : Distances n W} {start : Fin n} {trail : Trail n}
    {distance bound : W} :
    lowerBound? distances start trail distance = some bound ↔
      ∃ leaving, leavingBound? distances start trail.last trail.remaining = some leaving ∧
        ∃ entering, enteringBound? distances start trail.last trail.remaining = some entering ∧
          distance + Weight.larger leaving entering = bound := by
  rw [lowerBound?, sumBound]
  simp only [Traced.result?_bind, result?_sum_leaving, result?_sum_entering, Option.bind_eq_some_iff]
  constructor
  · rintro ⟨leaving, left, entering, entered, last⟩
    exact ⟨leaving, left, entering, entered, Option.some.inj last⟩
  · rintro ⟨leaving, left, entering, entered, rfl⟩
    exact ⟨leaving, left, entering, entered, rfl⟩

section Progress

theorem add_shares_silent (first? : Option W) (share? : Item → Option W) (items : List Item) :
    (addShares first? share? items : Traced (Progress W) Unit W).Reports fun _ => False := by
  have looked : ∀ found? : Option W,
      (Traced.ofOption () found? : Traced (Progress W) Unit W).Reports fun _ => False := by
    intro found?
    cases found? <;> exact Traced.reports_of_no_events rfl
  apply (looked first?).bind
  intro first _
  apply Traced.reports_foldlm
  intro item _ sum
  exact (looked (share? item)).bind fun _ _ => Traced.reports_of_no_events rfl

theorem attempt_sum_tour (distances : Distances n W) (stops : List (Fin n)) :
    ((distances.sumTour stops).attempt : Traced (Progress W) Cause (Option W)) =
      pure (distances.tourLength stops) := by
  apply Traced.attempt_of_silent
  match stops with
  | [] => exact Traced.reports_of_no_events rfl
  | [_] => exact Traced.reports_of_no_events rfl
  | first :: second :: rest => exact add_shares_silent _ _ _

theorem attempt_sum_bound (distances : Distances n W) (start : Fin n) (trail : Trail n)
    (distance : W) :
    ((sumBound distances start trail distance).attempt : Traced (Progress W) Cause (Option W)) =
      pure (lowerBound? distances start trail distance) := by
  apply Traced.attempt_of_silent
  apply (add_shares_silent _ _ _).bind
  intro leaving _
  exact (add_shares_silent _ _ _).bind fun _ _ => Traced.reports_of_no_events rfl

theorem add_eq_pure (left right : W) :
    (Journal.add left right : Traced (Progress W) Cause W) = pure (left + right) := rfl

/-- The search before its first step. -/
def initialSearch (distances : Distances n W) (start : Fin n) : Search n W :=
  Search.beginning start
    ((nearestNeighbor? distances start).bind fun stops =>
      (distances.tourLength stops).map fun length => (length, stops))
    (lowerBound? distances start ⟨start, []⟩ 0)

theorem begin_search_eq_pure (distances : Distances n W) (start : Fin n) :
    (beginSearch distances start : Traced (Progress W) Cause (Search n W)) =
      pure (initialSearch distances start) := by
  unfold beginSearch measuredWalk initialSearch
  rw [attempt_sum_bound]
  cases nearestNeighbor? distances start with
  | none => rfl
  | some stops =>
      dsimp only
      rw [attempt_sum_tour]
      rfl

end Progress

end Tour

end FlowTour
