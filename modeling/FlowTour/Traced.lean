/-!
Computations that report on their way. A traced computation keeps its reports also when it fails.
`iterate` repeats a step until the step says that nothing is left to do, at most as often as its
fuel allows; the solvers choose the fuel so that the step has the last word.
-/

namespace FlowTour

structure Traced (Event Failure Result : Type) where
  events : List Event
  outcome : Except Failure Result

namespace Traced

variable {Event Failure Result Next : Type}

def bind (first : Traced Event Failure Result) (next : Result → Traced Event Failure Next) :
    Traced Event Failure Next :=
  match first.outcome with
  | .error failure => ⟨first.events, .error failure⟩
  | .ok result => ⟨first.events ++ (next result).events, (next result).outcome⟩

instance : Monad (Traced Event Failure) where
  pure result := ⟨[], .ok result⟩
  bind := bind

def note (event : Event) : Traced Event Failure Unit := ⟨[event], .ok ()⟩

def fail (failure : Failure) : Traced Event Failure Result := ⟨[], .error failure⟩

def ofExcept (outcome : Except Failure Result) : Traced Event Failure Result := ⟨[], outcome⟩

def ofOption (failure : Failure) : Option Result → Traced Event Failure Result
  | none => fail failure
  | some result => pure result

def mapFailure {Cause : Type} (explain : Cause → Failure) (traced : Traced Event Cause Result) :
    Traced Event Failure Result :=
  ⟨traced.events, traced.outcome.mapError explain⟩

def result? (traced : Traced Event Failure Result) : Option Result := traced.outcome.toOption

/-- Goes on where there may be no result. -/
def attempt {Cause : Type} (traced : Traced Event Cause Result) :
    Traced Event Failure (Option Result) :=
  ⟨traced.events, .ok traced.result?⟩

@[simp] theorem outcome_pure (result : Result) :
    (pure result : Traced Event Failure Result).outcome = .ok result := rfl

@[simp] theorem outcome_bind (first : Traced Event Failure Result)
    (next : Result → Traced Event Failure Next) :
    (first >>= next).outcome = first.outcome.bind fun result => (next result).outcome := by
  change (bind first next).outcome = _
  unfold bind
  cases first.outcome <;> rfl

@[simp] theorem outcome_note (event : Event) :
    (note event : Traced Event Failure Unit).outcome = .ok () := rfl

@[simp] theorem outcome_fail (failure : Failure) :
    (fail failure : Traced Event Failure Result).outcome = .error failure := rfl

@[simp] theorem outcome_of_except (outcome : Except Failure Result) :
    (ofExcept outcome : Traced Event Failure Result).outcome = outcome := rfl

@[simp] theorem outcome_of_option (failure : Failure) (found : Option Result) :
    (ofOption failure found : Traced Event Failure Result).outcome =
      found.elim (.error failure) .ok := by
  cases found <;> rfl

@[simp] theorem outcome_map_failure {Cause : Type} (explain : Cause → Failure)
    (traced : Traced Event Cause Result) :
    (traced.mapFailure explain).outcome = traced.outcome.mapError explain := rfl

end Traced

def iterate {Effect : Type → Type} [Monad Effect] {State : Type}
    (step : State → Effect (Option State)) : Nat → State → Effect State
  | 0, state => pure state
  | fuel + 1, state => do
      match ← step state with
      | none => pure state
      | some next => iterate step fuel next

end FlowTour
