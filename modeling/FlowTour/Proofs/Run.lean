import FlowTour.Traced

/-!
Runs of a repeated step. What every step keeps, the whole run keeps; and where every step uses up
some of a supply that the fuel exceeds, the run ends because nothing is left to do. Two runs whose
steps match end in states that match. This is stated for any way of answering, and holds of traced
computations and of computations without a failure text. Of a traced run, the states that it passes
can also be spoken of without its fuel.
-/

namespace FlowTour

namespace Traced

variable {Event Failure Result Next : Type}

theorem bind_eq_ok_iff {first : Traced Event Failure Result}
    {next : Result → Traced Event Failure Next} {found : Next} :
    (first >>= next).outcome = .ok found ↔
      ∃ result, first.outcome = .ok result ∧ (next result).outcome = .ok found := by
  rw [outcome_bind]
  cases first.outcome with
  | error failure => simp [Except.bind]
  | ok result => simp [Except.bind]

theorem bind_eq_error_iff {first : Traced Event Failure Result}
    {next : Result → Traced Event Failure Next} {failure : Failure} :
    (first >>= next).outcome = .error failure ↔ first.outcome = .error failure ∨
      ∃ result, first.outcome = .ok result ∧ (next result).outcome = .error failure := by
  rw [outcome_bind]
  cases first.outcome with
  | error cause => simp [Except.bind]
  | ok result => simp [Except.bind]

theorem events_bind_of_ok {first : Traced Event Failure Result}
    {next : Result → Traced Event Failure Next} {result : Result}
    (answered : first.outcome = .ok result) :
    (first >>= next).events = first.events ++ (next result).events := by
  change (bind first next).events = _
  rw [bind, answered]

theorem bind_congr {first : Traced Event Failure Result}
    {next other : Result → Traced Event Failure Next}
    (same : ∀ result, first.outcome = .ok result → next result = other result) :
    first >>= next = first >>= other := by
  change bind first next = bind first other
  unfold bind
  cases outcome : first.outcome with
  | error failure => rfl
  | ok result => simp only [same result outcome]

theorem of_option_eq_ok_iff {failure : Failure} {found : Option Result} {result : Result} :
    (ofOption failure found : Traced Event Failure Result).outcome = .ok result ↔
      found = some result := by
  cases found <;> simp

theorem of_option_eq_error_iff {failure other : Failure} {found : Option Result} :
    (ofOption failure found : Traced Event Failure Result).outcome = .error other ↔
      found = none ∧ failure = other := by
  cases found <;> simp

theorem map_failure_eq_ok_iff {Cause : Type} {explain : Cause → Failure}
    {traced : Traced Event Cause Result} {result : Result} :
    (traced.mapFailure explain).outcome = .ok result ↔ traced.outcome = .ok result := by
  rw [outcome_map_failure]
  cases traced.outcome with
  | error failure => exact ⟨nofun, nofun⟩
  | ok found =>
      exact ⟨fun same => congrArg Except.ok (Except.ok.inj same),
        fun same => congrArg Except.ok (Except.ok.inj same)⟩

theorem map_failure_eq_error_iff {Cause : Type} {explain : Cause → Failure}
    {traced : Traced Event Cause Result} {failure : Failure} :
    (traced.mapFailure explain).outcome = .error failure ↔
      ∃ cause, traced.outcome = .error cause ∧ explain cause = failure := by
  rw [outcome_map_failure]
  cases traced.outcome with
  | error cause =>
      constructor
      · intro same
        exact ⟨cause, rfl, Except.error.inj same⟩
      · rintro ⟨other, same, explained⟩
        obtain rfl := Except.error.inj same
        exact congrArg Except.error explained
  | ok result =>
      constructor
      · nofun
      · rintro ⟨_, impossible, -⟩
        cases impossible

theorem exists_ok_of_any {traced : Traced Event Failure Result} {test : Result → Bool}
    (passed : traced.outcome.toOption.any test = true) :
    ∃ result, traced.outcome = .ok result ∧ test result = true := by
  cases outcome : traced.outcome with
  | error failure => simp [outcome, Except.toOption] at passed
  | ok result =>
      rw [outcome] at passed
      exact ⟨result, rfl, passed⟩

instance decidableFails [DecidableEq Failure] :
    (outcome : Except Failure Result) → (failure : Failure) → Decidable (outcome = .error failure)
  | .ok _, _ => .isFalse nofun
  | .error other, failure => decidable_of_iff (other = failure) (by rw [Except.error.injEq])

end Traced

/-- Outcomes side by side: both are the same failure, or both are results and these are related. -/
inductive Paired {Failure Result Other : Type} (related : Result → Other → Prop) :
    Except Failure Result → Except Failure Other → Prop
  | failed (failure : Failure) : Paired related (.error failure) (.error failure)
  | answered {result : Result} {other : Other} (matched : related result other) :
      Paired related (.ok result) (.ok other)

/-- Where the steps from related states fail alike, stop together or lead to related states, the runs
fail alike or end in related states. -/
theorem Traced.iterate_paired {Event Failure State Other : Type} {related : State → Other → Prop}
    {step : State → Traced Event Failure (Option State)}
    {otherStep : Other → Traced Event Failure (Option Other)}
    (steps : ∀ state other, related state other →
      Paired (Option.Rel related) (step state).outcome (otherStep other).outcome)
    (fuel : Nat) {state : State} {other : Other} (start : related state other) :
    Paired related (iterate step fuel state).outcome (iterate otherStep fuel other).outcome := by
  induction fuel generalizing state other with
  | zero => exact .answered start
  | succ fuel induction =>
      have here := steps state other start
      rw [iterate, iterate, outcome_bind, outcome_bind]
      generalize (step state).outcome = first at here ⊢
      generalize (otherStep other).outcome = second at here ⊢
      cases here with
      | failed failure => exact .failed failure
      | answered found =>
          cases found with
          | none => exact .answered start
          | some next => exact induction next

theorem Traced.iterate_eq_error {Event Failure State : Type}
    {step : State → Traced Event Failure (Option State)} {failure : Failure}
    (property : State → Prop)
    (kept : ∀ before after, property before → (step before).outcome = .ok (some after) →
      property after)
    {fuel : Nat} {state : State} (start : property state)
    (failed : (iterate step fuel state).outcome = .error failure) :
    ∃ before, property before ∧ (step before).outcome = .error failure := by
  induction fuel generalizing state with
  | zero => cases failed
  | succ fuel induction =>
      rcases Traced.bind_eq_error_iff.mp failed with here | ⟨found, stepped, later⟩
      · exact ⟨state, start, here⟩
      · cases found with
        | none => cases later
        | some next => exact induction (kept state next start stepped) later

/-- What it means for a computation to answer with a result. -/
structure Answering (Effect : Type → Type) [Monad Effect] where
  answers : {Result : Type} → Effect Result → Result → Prop
  answers_pure : ∀ {Result : Type} {given found : Result},
    answers (pure given) found → given = found
  answers_bind : ∀ {Result Next : Type} {first : Effect Result} {next : Result → Effect Next}
    {found : Next}, answers (first >>= next) found →
      ∃ result, answers first result ∧ answers (next result) found

namespace Answering

def ofOption : Answering Option where
  answers computation result := computation = some result
  answers_pure := Option.some.inj
  answers_bind := Option.bind_eq_some_iff.mp

def ofTraced {Event Failure : Type} : Answering (Traced Event Failure) where
  answers computation result := computation.outcome = .ok result
  answers_pure := Except.ok.inj
  answers_bind := Traced.bind_eq_ok_iff.mp

variable {Effect : Type → Type} [Monad Effect] (kind : Answering Effect) {State : Type}
  {step : State → Effect (Option State)} {invariant : State → Prop} {fuel : Nat}
  {state final : State}

/-- With fuel for more steps than there can be, the last step has found nothing left to do, and what
every step keeps still holds then. -/
theorem iterate_ends (supply : State → Nat)
    (kept : ∀ before after, invariant before → kind.answers (step before) (some after) →
      invariant after ∧ supply after < supply before)
    (start : invariant state) (enough : supply state < fuel)
    (ended : kind.answers (iterate step fuel state) final) :
    invariant final ∧ kind.answers (step final) none := by
  induction fuel generalizing state with
  | zero => omega
  | succ fuel induction =>
      obtain ⟨found, stepped, rest⟩ := kind.answers_bind ended
      cases found with
      | none =>
          rw [← kind.answers_pure rest]
          exact ⟨start, stepped⟩
      | some next =>
          obtain ⟨invariantNext, shrunk⟩ := kept state next start stepped
          exact induction invariantNext (by omega) rest

theorem iterate_keeps (property : State → Prop)
    (kept : ∀ before after, property before → kind.answers (step before) (some after) →
      property after)
    (start : property state) (ended : kind.answers (iterate step fuel state) final) :
    property final := by
  induction fuel generalizing state with
  | zero => exact kind.answers_pure ended ▸ start
  | succ fuel induction =>
      obtain ⟨found, stepped, rest⟩ := kind.answers_bind ended
      cases found with
      | none => exact kind.answers_pure rest ▸ start
      | some next => exact induction (kept state next start stepped) rest

end Answering

/-- The states in which a repeated step is taken: the first one, and every one that a step leads on
to. -/
inductive Traced.Passes {Event Failure State : Type}
    (step : State → Traced Event Failure (Option State)) (first : State) : State → Prop
  | first : Passes step first first
  | next {before after : State} (earlier : Passes step first before)
      (stepped : (step before).outcome = .ok (some after)) : Passes step first after

section Passes

variable {Event Failure State : Type} {step : State → Traced Event Failure (Option State)}
  {first state final : State} {fuel : Nat}

theorem Traced.Passes.keeps (passes : Passes step first state) (property : State → Prop)
    (kept : ∀ before after, property before → (step before).outcome = .ok (some after) →
      property after)
    (start : property first) : property state := by
  induction passes with
  | first => exact start
  | next _ stepped induction => exact kept _ _ induction stepped

theorem Traced.passes_of_iterate (ended : (iterate step fuel first).outcome = .ok final) :
    Passes step first final :=
  Answering.ofTraced.iterate_keeps (Passes step first) (fun _ _ => .next) .first ended

end Passes

/-- An answering in which answers go on, and in which there is only one. -/
structure Answering.Lawful {Effect : Type → Type} [Monad Effect] (kind : Answering Effect) :
    Prop where
  pure_answers : ∀ {Result : Type} (given : Result), kind.answers (pure given) given
  bind_answers : ∀ {Result Next : Type} {first : Effect Result} {next : Result → Effect Next}
    {result : Result} {found : Next}, kind.answers first result →
      kind.answers (next result) found → kind.answers (first >>= next) found
  answers_unique : ∀ {Result : Type} {computation : Effect Result} {first second : Result},
    kind.answers computation first → kind.answers computation second → first = second

namespace Answering

theorem of_option_lawful : ofOption.Lawful where
  pure_answers _ := rfl
  bind_answers first next := Option.bind_eq_some_iff.mpr ⟨_, first, next⟩
  answers_unique here there := Option.some.inj (here.symm.trans there)

theorem of_traced_lawful {Event Failure : Type} :
    (ofTraced : Answering (Traced Event Failure)).Lawful where
  pure_answers _ := rfl
  bind_answers first next := Traced.bind_eq_ok_iff.mpr ⟨_, first, next⟩
  answers_unique here there := Except.ok.inj (here.symm.trans there)

section Lawful

variable {Effect : Type → Type} [Monad Effect] {kind : Answering Effect} {State : Type}

theorem Lawful.exists_iterate (lawful : kind.Lawful) (step : State → Effect (Option State))
    (invariant : State → Prop)
    (kept : ∀ before after, invariant before → kind.answers (step before) (some after) →
      invariant after)
    (answers : ∀ state, invariant state → ∃ found, kind.answers (step state) found)
    {state : State} (start : invariant state) (fuel : Nat) :
    ∃ final, kind.answers (iterate step fuel state) final := by
  induction fuel generalizing state with
  | zero => exact ⟨state, lawful.pure_answers state⟩
  | succ fuel induction =>
      obtain ⟨found, stepped⟩ := answers state start
      cases found with
      | none => exact ⟨state, lawful.bind_answers stepped (lawful.pure_answers state)⟩
      | some next =>
          obtain ⟨final, others⟩ := induction (kept state next start stepped)
          exact ⟨final, lawful.bind_answers stepped others⟩

theorem Lawful.exists_foldlm {Item : Type} {items : List Item} (lawful : kind.Lawful)
    {step : State → Item → Effect State}
    (answers : ∀ item ∈ items, ∀ state, ∃ next, kind.answers (step state item) next)
    (state : State) : ∃ final, kind.answers (items.foldlM step state) final := by
  induction items generalizing state with
  | nil => exact ⟨state, lawful.pure_answers state⟩
  | cons item rest induction =>
      obtain ⟨next, stepped⟩ := answers item (List.mem_cons_self ..) state
      obtain ⟨final, others⟩ :=
        induction (fun other member => answers other (List.mem_cons_of_mem _ member)) next
      rw [List.foldlM_cons]
      exact ⟨final, lawful.bind_answers stepped others⟩

end Lawful

end Answering

theorem Traced.iterate_answers {Event Failure State : Type}
    {step : State → Traced Event Failure (Option State)}
    (answers : ∀ state, ∃ found, (step state).outcome = .ok found) (fuel : Nat) (state : State) :
    ∃ final, (iterate step fuel state).outcome = .ok final :=
  Answering.of_traced_lawful.exists_iterate step (fun _ => True) (fun _ _ _ _ => trivial)
    (fun state _ => answers state) trivial fuel

namespace Answering

section Simulation

variable {Effect OtherEffect : Type → Type} [Monad Effect] [Monad OtherEffect]
  (kind : Answering Effect) {otherKind : Answering OtherEffect} {State Other : Type}
  {step : State → Effect (Option State)} {otherStep : Other → OtherEffect (Option Other)}
  {related : State → Other → Prop}
  (simulated : ∀ state other found, related state other → kind.answers (step state) found →
    ∃ otherFound, otherKind.answers (otherStep other) otherFound ∧
      Option.Rel related found otherFound)
include simulated

/-- Where every answer of a step is matched by the other step, so is every end of a run. -/
theorem iterate_simulated (otherLawful : otherKind.Lawful) (fuel : Nat) {state final : State}
    {other : Other} (start : related state other)
    (ended : kind.answers (iterate step fuel state) final) :
    ∃ last, otherKind.answers (iterate otherStep fuel other) last ∧ related final last := by
  induction fuel generalizing state other with
  | zero => exact ⟨other, otherLawful.pure_answers other, kind.answers_pure ended ▸ start⟩
  | succ fuel induction =>
      obtain ⟨found, stepped, rest⟩ := kind.answers_bind ended
      obtain ⟨otherFound, otherStepped, matched⟩ := simulated state other found start stepped
      cases matched with
      | none =>
          exact ⟨other, otherLawful.bind_answers otherStepped (otherLawful.pure_answers other),
            kind.answers_pure rest ▸ start⟩
      | some next =>
          obtain ⟨last, others, final⟩ := induction next rest
          exact ⟨last, otherLawful.bind_answers otherStepped others, final⟩

theorem exists_iterate_of_simulated (lawful : kind.Lawful) (otherLawful : otherKind.Lawful)
    {last : Other}
    (answers : ∀ state other fuel, related state other →
      otherKind.answers (iterate otherStep (fuel + 1) other) last →
        ∃ found, kind.answers (step state) found)
    (fuel : Nat) {state : State} {other : Other} (start : related state other)
    (ended : otherKind.answers (iterate otherStep fuel other) last) :
    ∃ final, kind.answers (iterate step fuel state) final := by
  induction fuel generalizing state other with
  | zero => exact ⟨state, lawful.pure_answers state⟩
  | succ fuel induction =>
      obtain ⟨found, stepped⟩ := answers state other fuel start ended
      obtain ⟨otherFound, otherStepped, matched⟩ := simulated state other found start stepped
      obtain ⟨sameFound, sameStepped, rest⟩ := otherKind.answers_bind ended
      obtain rfl := otherLawful.answers_unique otherStepped sameStepped
      cases matched with
      | none => exact ⟨state, lawful.bind_answers stepped (lawful.pure_answers state)⟩
      | some next =>
          obtain ⟨final, others⟩ := induction next rest
          exact ⟨final, lawful.bind_answers stepped others⟩

end Simulation

end Answering

end FlowTour
