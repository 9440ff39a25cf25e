import FlowTour.MinCostFlow.ShortestPath
import FlowTour.Proofs.Heap
import FlowTour.Proofs.Table
import FlowTour.Proofs.Weight.Exact

/-!
Labels on the way of a search for shortest paths. A label lies behind its parent arc by just the
reduced cost of that arc, and no arc with capacity leads from a settled node to one that is farther
than that arc allows, but for the arcs still waiting. Every unsettled label is on offer, and no offer
is nearer than a settled node. Looking along an arc keeps all this.
-/

namespace FlowTour.MinCostFlow

open IntegerWeight Table

variable {n m : Nat} {W : Type} [IntegerWeight W]

def price (potential : Vector W n) (node : Fin n) : Int := toInt (potential.get node)

/-- The reduced cost of an arc charge the integers. -/
def reduced (network : Residual n m W) (prices : Fin n → Int) (arc : Arc m) : Int :=
  toInt (network.cost arc) - prices (network.tail arc) + prices (network.head arc)

theorem to_int_reduced_cost {network : Residual n m W} {potential : Vector W n} {arc : Arc m}
    {found : W} (reducible : reducedCost network potential arc = some found) :
    toInt found = reduced network (price potential) arc := by
  obtain ⟨partway, lowered, raised⟩ := Option.bind_eq_some_iff.mp reducible
  rw [try_add_eq_some_iff.mp raised, try_sub_eq_some_iff.mp lowered]
  rfl

theorem offer_below_iff {offer other : W × Fin n} :
    offerBelow offer other = true ↔ toInt other.1 ≤ toInt offer.1 := by
  rw [offerBelow, Bool.not_eq_true', decide_eq_false_iff_not, lt_iff_to_int_lt, Int.not_lt]

theorem offer_ranking : Heap.Ranking (offerBelow (n := n) (W := W)) where
  total first second := by
    rw [offer_below_iff, offer_below_iff]
    omega
  trans first second third upper lower := by
    rw [offer_below_iff] at *
    omega

/-- A node with a final distance. -/
def SettledAt (labels : Vector (Option (Label m W)) n) (node : Fin n) (distance : Int) : Prop :=
  ∃ label, labels.get node = some label ∧ label.settled = true ∧ toInt label.distance = distance

instance {labels : Vector (Option (Label m W)) n} {node : Fin n} {distance : Int} :
    Decidable (SettledAt labels node distance) :=
  decidable_of_iff ((labels.get node).any fun label =>
    label.settled ∧ toInt label.distance = distance) (by simp [SettledAt, Option.any_eq_true])

/-- A node with a distance, final or not. -/
def LabelledAt (labels : Vector (Option (Label m W)) n) (node : Fin n) (distance : Int) : Prop :=
  ∃ label, labels.get node = some label ∧ toInt label.distance = distance

instance {labels : Vector (Option (Label m W)) n} {node : Fin n} {distance : Int} :
    Decidable (LabelledAt labels node distance) :=
  decidable_of_iff ((labels.get node).any fun label => toInt label.distance = distance)
    (by simp [LabelledAt, Option.any_eq_true])

section Labels

variable {labels : Vector (Option (Label m W)) n} {node other : Fin n} {distance : Int}

theorem SettledAt.labelled_at (settled : SettledAt labels node distance) :
    LabelledAt labels node distance := by
  obtain ⟨label, found, -, exact⟩ := settled
  exact ⟨label, found, exact⟩

theorem is_settled_iff : isSettled labels node = true ↔ ∃ distance, SettledAt labels node distance := by
  unfold isSettled SettledAt
  cases labels.get node <;> simp

theorem settled_at_unique {first second : Int} (here : SettledAt labels node first)
    (there : SettledAt labels node second) : first = second := by
  obtain ⟨label, found, -, rfl⟩ := here
  obtain ⟨same, again, -, rfl⟩ := there
  rw [found] at again
  rw [Option.some.inj again]

theorem get_set_of_unsettled (unsettled : isSettled labels node = false) (label : Label m W)
    (here : SettledAt labels other distance) :
    (labels.set node.val (some label) node.isLt).get other = labels.get other := by
  rw [get_set, if_neg]
  rintro rfl
  rw [is_settled_iff.mpr ⟨distance, here⟩] at unsettled
  cases unsettled

theorem settled_at_set_iff (unsettled : isSettled labels node = false) {label : Label m W}
    (unfinished : label.settled = false) :
    SettledAt (labels.set node.val (some label) node.isLt) other distance ↔
      SettledAt labels other distance := by
  constructor
  · rintro ⟨found, here, settled, exact⟩
    rw [get_set] at here
    split at here
    · obtain rfl := Option.some.inj here
      rw [unfinished] at settled
      cases settled
    · exact ⟨found, here, settled, exact⟩
  · intro here
    have kept := get_set_of_unsettled unsettled label here
    obtain ⟨found, old, settled, exact⟩ := here
    exact ⟨found, kept.trans old, settled, exact⟩

theorem LabelledAt.improve (here : LabelledAt labels other distance) (label : Label m W)
    (better : ∀ old, labels.get node = some old → toInt label.distance < toInt old.distance) :
    ∃ nearer ≤ distance,
      LabelledAt (labels.set node.val (some label) node.isLt) other nearer := by
  obtain ⟨old, found, rfl⟩ := here
  by_cases same : node = other
  · subst same
    exact ⟨_, (better old found).le, label, by rw [get_set, if_pos rfl], rfl⟩
  · exact ⟨_, le_rfl, old, by rw [get_set, if_neg same, found], rfl⟩

omit [IntegerWeight W] in
theorem get_settle (labels : Vector (Option (Label m W)) n) (node other : Fin n) :
    (settle labels node).get other =
      if node = other then (labels.get other).map fun label => { label with settled := true }
      else labels.get other := by
  rw [settle, get_set]
  split
  · next same => rw [same]
  · rfl

omit [IntegerWeight W] in
theorem eq_start_of_get [Weight W] {source : Fin n} {label : Label m W}
    (found : ((Vector.replicate n none).set source.val (some ⟨0, none, false⟩) source.isLt).get node =
      some label) : source = node ∧ label = ⟨0, none, false⟩ := by
  rw [get_set] at found
  split at found
  · next same => exact ⟨same, (Option.some.inj found).symm⟩
  · simp at found

theorem labelled_at_settle :
    LabelledAt (settle labels node) other distance ↔ LabelledAt labels other distance := by
  unfold LabelledAt
  rw [get_settle]
  split
  · cases labels.get other <;> simp
  · rfl

theorem settled_at_settle :
    SettledAt (settle labels node) other distance ↔
      SettledAt labels other distance ∨ node = other ∧ LabelledAt labels other distance := by
  unfold SettledAt LabelledAt
  rw [get_settle]
  split
  · next same =>
    subst same
    cases labels.get node <;> simp +contextual
  · next different => simp [different]

theorem labelled_at_unique {first second : Int} (here : LabelledAt labels node first)
    (there : LabelledAt labels node second) : first = second := by
  obtain ⟨label, found, rfl⟩ := here
  obtain ⟨same, again, rfl⟩ := there
  rw [found] at again
  rw [Option.some.inj again]

end Labels

/-- Labels grown from the source. The arcs that are still waiting may not have been looked along;
`rank` puts the settled nodes in the order in which they were settled. -/
structure Grown (network : Residual n m W) (charge : Arc m → Int) (source sink : Fin n)
    (rank : Fin n → Nat) (clock : Nat) (waiting : List (Arc m))
    (labels : Vector (Option (Label m W)) n) : Prop where
  parentless : ∀ node label, labels.get node = some label → label.parent = none → node = source
  parented : ∀ node label arc, labels.get node = some label → label.parent = some arc →
    network.head arc = node ∧ network.hasCapacity arc = true ∧
      SettledAt labels (network.tail arc) (toInt label.distance - charge arc) ∧
        (label.settled = true → rank (network.tail arc) < rank node)
  ranked : ∀ node distance, SettledAt labels node distance → rank node < clock
  relaxed : ∀ arc distance, network.hasCapacity arc = true → arc ∉ waiting →
    network.tail arc ≠ sink → SettledAt labels (network.tail arc) distance →
      ∃ nearer ≤ distance + charge arc, LabelledAt labels (network.head arc) nearer
  sink_last : ∀ final, SettledAt labels sink final → ∀ node distance,
    SettledAt labels node distance → distance ≤ final

/-- Offers that go with the labels: every unsettled label is on offer, no offer is nearer than its
label, and none is nearer than a settled node. -/
structure Offering (state : Exploration n m W) : Prop where
  ordered : Heap.Ordered offerBelow state.offers.items
  offered : ∀ node label, state.labels.get node = some label → label.settled = false →
    (label.distance, node) ∈ state.offers.listed
  labelled : ∀ offer ∈ state.offers.listed,
    ∃ nearer ≤ toInt offer.1, LabelledAt state.labels offer.2 nearer
  settled_le : ∀ node distance, SettledAt state.labels node distance →
    ∀ offer ∈ state.offers.listed, distance ≤ toInt offer.1

section Relax

variable {network : Residual n m W} {potential : Vector W n} {state next : Exploration n m W}
  {distance : W} {arc : Arc m}

/-- What looking along an arc does: nothing, and then its head is near enough already; or it gives
its head a better label. -/
inductive Relaxed (network : Residual n m W) (charge : Arc m → Int) (distance : Int) (arc : Arc m)
    (state next : Exploration n m W) : Prop where
  | skipped (same : next = state)
      (near : network.hasCapacity arc = true →
        (∃ final, SettledAt state.labels (network.head arc) final) ∨
          ∃ nearer ≤ distance + charge arc, LabelledAt state.labels (network.head arc) nearer)
  | improved (offer : W) (usable : network.hasCapacity arc = true)
      (unsettled : isSettled state.labels (network.head arc) = false)
      (exact : toInt offer = distance + charge arc)
      (better : ∀ old, state.labels.get (network.head arc) = some old →
        toInt offer < toInt old.distance)
      (same : next =
        { labels := state.labels.set (network.head arc).val (some ⟨offer, some arc, false⟩)
            (network.head arc).isLt
          offers := state.offers.push offerBelow (offer, network.head arc) })

theorem relax_eq_some (nonneg : network.hasCapacity arc = true →
      0 ≤ reduced network (price potential) arc)
    (found : relax network potential distance state arc = some next) :
    Relaxed network (reduced network (price potential)) (toInt distance) arc state next := by
  unfold relax at found
  dsimp only at found
  split at found
  · next skipped =>
    apply Relaxed.skipped (Option.some.inj found).symm
    intro usable
    rw [usable, Bool.not_true, Bool.false_or] at skipped
    exact .inl (is_settled_iff.mp skipped)
  · next notSkipped =>
    simp only [Bool.or_eq_true, Bool.not_eq_true', not_or, Bool.not_eq_false, Bool.not_eq_true]
      at notSkipped
    obtain ⟨usable, unsettled⟩ := notSkipped
    obtain ⟨cost, reducible, rest⟩ := Option.bind_eq_some_iff.mp found
    have exact := to_int_reduced_cost reducible
    have notNegative : ¬Weight.isNegative cost = true := by
      rw [is_negative_iff]
      have := nonneg usable
      omega
    rw [if_neg notNegative] at rest
    obtain ⟨offer, added, last⟩ := Option.bind_eq_some_iff.mp rest
    have sum := try_add_eq_some_iff.mp added
    rw [exact] at sum
    split at last
    · next better =>
      apply Relaxed.improved offer usable unsettled sum _ (Option.some.inj last).symm
      intro old here
      rw [here, Option.all_some, decide_eq_true_iff] at better
      exact lt_iff_to_int_lt.mp better
    · next notBetter =>
      apply Relaxed.skipped (Option.some.inj last).symm
      intro _
      refine .inr ?_
      cases here : state.labels.get (network.head arc) with
      | none => simp [here] at notBetter
      | some old =>
          rw [here, Option.all_some, decide_eq_true_iff, lt_iff_to_int_lt] at notBetter
          exact ⟨toInt old.distance, by omega, old, here, rfl⟩

end Relax

section Keeping

variable {network : Residual n m W} {charge : Arc m → Int} {source sink node : Fin n}
  {rank : Fin n → Nat} {clock : Nat} {waiting : List (Arc m)} {arc : Arc m}
  {labels : Vector (Option (Label m W)) n} {state next : Exploration n m W}

theorem Grown.skip (grown : Grown network charge source sink rank clock (arc :: waiting) labels)
    (near : network.hasCapacity arc = true → ∀ distance,
      SettledAt labels (network.tail arc) distance →
        ∃ nearer ≤ distance + charge arc, LabelledAt labels (network.head arc) nearer) :
    Grown network charge source sink rank clock waiting labels := by
  refine { grown with relaxed := ?_ }
  intro other distance usable notWaiting notSink settled
  by_cases same : other = arc
  · subst same
    exact near usable distance settled
  · apply grown.relaxed other distance usable _ notSink settled
    rw [List.mem_cons, not_or]
    exact ⟨same, notWaiting⟩

theorem Grown.improve (grown : Grown network charge source sink rank clock (arc :: waiting) labels)
    (usable : network.hasCapacity arc = true)
    (unsettled : isSettled labels (network.head arc) = false) {base : Int}
    (settled : SettledAt labels (network.tail arc) base) {offer : W}
    (exact : toInt offer = base + charge arc)
    (better : ∀ old, labels.get (network.head arc) = some old →
      toInt offer < toInt old.distance) :
    Grown network charge source sink rank clock waiting
      (labels.set (network.head arc).val (some ⟨offer, some arc, false⟩)
        (network.head arc).isLt) := by
  have settledIff : ∀ other distance, SettledAt (labels.set (network.head arc).val
      (some ⟨offer, some arc, false⟩) (network.head arc).isLt) other distance ↔
        SettledAt labels other distance :=
    fun other distance => settled_at_set_iff unsettled rfl
  constructor
  · intro other label found noParent
    rw [get_set] at found
    split at found
    · obtain rfl := Option.some.inj found
      cases noParent
    · exact grown.parentless other label found noParent
  · intro other label parent found isParent
    rw [get_set] at found
    split at found
    · next same =>
      obtain rfl := Option.some.inj found
      obtain rfl := Option.some.inj isParent
      refine ⟨same, usable, ?_, by simp⟩
      rw [settledIff, exact, Int.add_sub_cancel]
      exact settled
    · obtain ⟨ends, parentUsable, parentSettled, ranks⟩ :=
        grown.parented other label parent found isParent
      exact ⟨ends, parentUsable, (settledIff _ _).mpr parentSettled, ranks⟩
  · intro other distance here
    exact grown.ranked other distance ((settledIff _ _).mp here)
  · intro other distance otherUsable notWaiting notSink here
    rw [settledIff] at here
    by_cases same : other = arc
    · subst same
      obtain rfl := settled_at_unique settled here
      exact ⟨toInt offer, exact.le, _, by rw [get_set, if_pos rfl], rfl⟩
    · have notListed : other ∉ arc :: waiting := by
        rw [List.mem_cons, not_or]
        exact ⟨same, notWaiting⟩
      obtain ⟨nearer, near, labelled⟩ :=
        grown.relaxed other distance otherUsable notListed notSink here
      obtain ⟨nearest, atMost, improved⟩ := labelled.improve ⟨offer, some arc, false⟩ better
      exact ⟨nearest, atMost.trans near, improved⟩
  · intro final last other distance here
    exact grown.sink_last final ((settledIff _ _).mp last) other distance
      ((settledIff _ _).mp here)

theorem Offering.improve (offering : Offering state)
    (unsettled : isSettled state.labels node = false) {offer : W}
    (better : ∀ old, state.labels.get node = some old → toInt offer < toInt old.distance)
    (farthest : ∀ other distance, SettledAt state.labels other distance →
      distance ≤ toInt offer) :
    Offering
      { labels := state.labels.set node.val (some ⟨offer, some arc, false⟩) node.isLt
        offers := state.offers.push offerBelow (offer, node) } := by
  constructor
  · exact Heap.push_ordered offer_ranking offering.ordered _
  · intro other label found fresh
    rw [Heap.mem_push]
    rw [get_set] at found
    split at found
    · next same =>
      obtain rfl := Option.some.inj found
      exact .inl (by rw [same])
    · exact .inr (offering.offered other label found fresh)
  · intro pair member
    rcases Heap.mem_push _ |>.mp member with rfl | member
    · exact ⟨toInt offer, le_rfl, _, by rw [get_set, if_pos rfl], rfl⟩
    · obtain ⟨nearer, near, labelled⟩ := offering.labelled pair member
      obtain ⟨nearest, atMost, improved⟩ := labelled.improve ⟨offer, some arc, false⟩ better
      exact ⟨nearest, atMost.trans near, improved⟩
  · intro other distance here pair member
    rw [settled_at_set_iff unsettled rfl] at here
    rcases Heap.mem_push _ |>.mp member with rfl | member
    · exact farthest other distance here
    · exact offering.settled_le other distance here pair member

end Keeping

end FlowTour.MinCostFlow
