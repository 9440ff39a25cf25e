import FlowTour.Proofs.Tour.Ledger

/-!
The same solvers with another plain addition. Nothing they answer depends on an addition that is not in
their ledgers: where the other addition gives the same for everything that has been entered, they enter
the same and answer the same with it.
-/

namespace FlowTour

/-- The same weights, added in another way where the addition is plain. -/
@[reducible] def Weight.withAddition {W : Type} [weight : Weight W] (add : W → W → W) : Weight W :=
  { weight with add }

namespace Tour

variable {n : Nat} {N W : Type} [Weight W] {add : W → W → W} {Cause Result Next State Item : Type}

/-- The other addition gives the same here. -/
def Addition.Kept (add : W → W → W) (addition : Addition W) : Prop :=
  add addition.left addition.right = addition.left + addition.right

/-- The other computation is the same if nothing that has been entered is changed. -/
def Follows (add : W → W → W) (plain other : Ledger W Cause Result) : Prop :=
  plain.Reports (Addition.Kept add) → other = plain

section Computations

theorem follows_refl (plain : Ledger W Cause Result) : Follows add plain plain :=
  fun _ => rfl

theorem Follows.bind {plain other : Ledger W Cause Result}
    {next otherNext : Result → Ledger W Cause Next} (first : Follows add plain other)
    (later : ∀ result, Follows add (next result) (otherNext result)) :
    Follows add (plain >>= next) (other >>= otherNext) := by
  intro reports
  obtain ⟨here, after⟩ := Traced.reports_bind_iff.mp reports
  rw [first here]
  apply Traced.bind_congr
  intro result answered
  exact later result (after result answered)

theorem Follows.attempt_bind {plain other : Ledger W Cause Result} {Failure : Type}
    {next otherNext : Option Result → Ledger W Failure Next}
    (first : Follows add plain other)
    (later : ∀ result?, Follows add (next result?) (otherNext result?)) :
    Follows add (plain.attempt >>= next) (other.attempt >>= otherNext) := by
  apply Follows.bind _ later
  exact fun reports => congrArg Traced.attempt (first reports)

theorem Follows.ite {condition : Prop} {_ : Decidable condition}
    {yes otherYes no otherNo : Ledger W Cause Result} (met : Follows add yes otherYes)
    (unmet : Follows add no otherNo) :
    Follows add (if condition then yes else no) (if condition then otherYes else otherNo) := by
  split
  · exact met
  · exact unmet

theorem follows_foldlm {step otherStep : State → Item → Ledger W Cause State}
    (each : ∀ state item, Follows add (step state item) (otherStep state item))
    (items : List Item) (state : State) :
    Follows add (items.foldlM step state) (items.foldlM otherStep state) := by
  induction items generalizing state with
  | nil => exact follows_refl _
  | cons item rest induction =>
      rw [List.foldlM_cons, List.foldlM_cons]
      exact (each state item).bind induction

theorem follows_iterate {step otherStep : State → Ledger W Cause (Option State)}
    (each : ∀ state, Follows add (step state) (otherStep state)) (fuel : Nat) (state : State) :
    Follows add (iterate step fuel state) (iterate otherStep fuel state) := by
  induction fuel generalizing state with
  | zero => exact follows_refl _
  | succ fuel induction =>
      apply (each state).bind
      intro found
      cases found with
      | none => exact follows_refl _
      | some next => exact induction next

theorem follows_add (left right : W) :
    Follows add (Journal.add left right : Ledger W Cause W)
      (letI _ := Weight.withAddition add; Journal.add left right) := by
  intro reports
  have kept : add left right = left + right := reports ⟨left, right⟩ (List.mem_singleton.mpr rfl)
  change (⟨[⟨left, right⟩], .ok (add left right)⟩ : Ledger W Cause W) = _
  rw [kept]
  rfl

end Computations

section Sums

theorem follows_add_shares (first? : Option W) (share? : Item → Option W) (items : List Item) :
    Follows add (addShares first? share? items : Ledger W Unit W)
      (letI _ := Weight.withAddition add; addShares first? share? items) := by
  apply (follows_refl _).bind
  intro first
  apply follows_foldlm
  intro sum item
  apply (follows_refl _).bind
  exact fun share => follows_add sum share

theorem follows_sum_tour (distances : Distances n W) (stops : List (Fin n)) :
    Follows add (distances.sumTour stops : Ledger W Unit W)
      (letI _ := Weight.withAddition add; distances.sumTour stops) := by
  match stops with
  | [] => exact follows_refl _
  | [_] => exact follows_add _ _
  | first :: second :: rest => exact follows_add_shares _ _ _

theorem follows_sum_bound (distances : Distances n W) (start : Fin n) (trail : Trail n)
    (distance : W) :
    Follows add (sumBound distances start trail distance : Ledger W Unit W)
      (letI _ := Weight.withAddition add; sumBound distances start trail distance) := by
  apply (follows_add_shares _ _ _).bind
  intro leaving
  apply (follows_add_shares _ _ _).bind
  exact fun entering => follows_add distance (Weight.larger leaving entering)

end Sums

section Solvers

variable {distances : Distances n W} {start : Fin n} {budget : Option Nat}

theorem nearest_from?_with_addition (add : W → W → W) (steps : Nat) (trail : Trail n) :
    @nearestFrom? n W (Weight.withAddition add) distances steps trail =
      nearestFrom? distances steps trail := by
  induction steps generalizing trail with
  | zero => rfl
  | succ steps induction => exact congrArg (Option.bind _) (funext fun _ => induction _)

theorem nearest_neighbor?_with_addition (add : W → W → W) :
    @nearestNeighbor? n W (Weight.withAddition add) distances start =
      nearestNeighbor? distances start :=
  congrArg (Option.bind · _) (nearest_from?_with_addition add _ _)

theorem follows_branch (partialTour : Partial n W) (search : Search n W) (node : Fin n) :
    Follows add (branch distances start partialTour search node : Ledger W Cause (Search n W))
      (letI _ := Weight.withAddition add; branch distances start partialTour search node) := by
  unfold branch
  cases distances.get partialTour.trail.last node with
  | none => exact follows_refl _
  | some weight =>
      apply (follows_add _ _).bind
      intro distance
      dsimp only
      split
      · cases distances.get node start with
        | none => exact follows_refl _
        | some back =>
            apply (follows_add _ _).bind
            exact fun _ => follows_refl _
      · apply (follows_sum_bound _ _ _ _).attempt_bind
        exact fun _ => follows_refl _

theorem follows_expand (search : Search n W) :
    Follows add (expand distances start budget search : Ledger W Cause (Option (Search n W)))
      (letI _ := Weight.withAddition add; expand distances start budget search) := by
  have same : search.frontier.pop? (@Partial.below n W (Weight.withAddition add)) =
      search.frontier.pop? Partial.below := rfl
  unfold expand
  rw [same]
  apply (follows_refl _).ite
  cases search.frontier.pop? Partial.below with
  | none => exact follows_refl _
  | some popped =>
      apply (follows_refl _).ite
      apply (follows_refl _).ite
      apply (follows_foldlm (follows_branch popped.1) _ _).bind
      exact fun _ => follows_refl _

theorem follows_begin_search :
    Follows add (beginSearch distances start : Ledger W Cause (Search n W))
      (letI _ := Weight.withAddition add; beginSearch distances start) := by
  unfold beginSearch measuredWalk
  rw [nearest_neighbor?_with_addition add]
  apply Follows.bind
  · cases nearestNeighbor? distances start with
    | none => exact follows_refl _
    | some stops =>
        apply (follows_sum_tour distances stops).attempt_bind
        exact fun _ => follows_refl _
  · intro incumbent
    apply (follows_sum_bound _ _ _ _).attempt_bind
    exact fun _ => follows_refl _

theorem follows_run_search :
    Follows add (runSearch distances start budget : Ledger W Cause (Search n W))
      (letI _ := Weight.withAddition add; runSearch distances start budget) := by
  apply follows_begin_search.bind
  intro initial
  have searched : Follows add
      (iterate (expand distances start budget) (extensionCount (n - 1) + 2) initial :
        Ledger W Cause (Search n W))
      (letI _ := Weight.withAddition add
       iterate (expand distances start budget) (extensionCount (n - 1) + 2) initial) :=
    follows_iterate follows_expand _ _
  cases initial.incumbent with
  | none => exact searched.bind fun _ => follows_refl _
  | some found =>
      apply (follows_refl _).bind
      exact fun _ => searched.bind fun _ => follows_refl _

variable [NodeKey N] (graph : Graph N W)

theorem follows_walk_tour :
    Follows add (walkTour graph : Ledger W (Failure N W) (Tour N W))
      (letI _ := Weight.withAddition add; walkTour graph) := by
  apply (follows_refl _).bind
  intro distances
  split
  · next filled =>
    rw [nearest_neighbor?_with_addition add]
    cases nearestNeighbor? distances ⟨0, filled⟩ with
    | none => exact follows_refl _
    | some stops =>
        apply (follows_sum_tour distances stops).attempt_bind
        exact fun _ => follows_refl _
  · exact follows_refl _

theorem follows_search_tour :
    Follows add (searchTour graph budget : Ledger W (Failure N W) (Tour N W))
      (letI _ := Weight.withAddition add; searchTour graph budget) := by
  apply (follows_refl _).bind
  intro distances
  split
  · apply (follows_refl _).ite
    apply follows_run_search.bind
    exact fun _ => follows_refl _
  · exact follows_refl _

end Solvers

end Tour

end FlowTour
