import FlowTour.Proofs.MinCostFlow.ShortestPath
import FlowTour.Proofs.Run
import Mathlib.Algebra.BigOperators.Fin
import Mathlib.Algebra.BigOperators.Group.Finset.Piecewise
import Mathlib.Algebra.BigOperators.Group.Finset.Sigma
import Mathlib.Algebra.Order.BigOperators.Group.Finset
import Mathlib.Algebra.Order.Ring.Nat

/-!
How a search for shortest paths ends. Looking along an arc makes at most one offer, and the arcs of a
node are looked along when it is settled, so the offers made and still to come bound the steps of a
search. Its fuel lasts until the sink is settled or nothing is on offer, and then every node that can
be reached from the source is settled.
-/

namespace FlowTour.MinCostFlow

open IntegerWeight Table

variable {n m : Nat} {W : Type}

section Offers

variable [Weight W] {network : Residual n m W} {potential : Vector W n} {source sink node : Fin n}
  {distance : W} {arc : Arc m} {state next : Exploration n m W}

/-- What looking along some arcs may change: it settles nothing, leaves alone what is settled, and
offers one node per arc. -/
structure Spread (before after : Exploration n m W) (arcs : Nat) : Prop where
  settled_eq : ∀ node, isSettled after.labels node = isSettled before.labels node
  kept : ∀ node, isSettled before.labels node = true →
    after.labels.get node = before.labels.get node
  offers_le : after.offers.listed.length ≤ before.offers.listed.length + arcs

omit [Weight W] in
theorem is_settled_set {labels : Vector (Option (Label m W)) n} {other : Fin n} {label : Label m W}
    (fresh : isSettled labels node = false) (unfinished : label.settled = false) :
    isSettled (labels.set node.val (some label) node.isLt) other = isSettled labels other := by
  unfold isSettled at fresh ⊢
  rw [get_set]
  split
  · next here => rw [← here, fresh, Option.any_some, unfinished]
  · rfl

theorem spread_offer {label : Label m W} (fresh : isSettled state.labels node = false)
    (unfinished : label.settled = false) :
    Spread state
      { labels := state.labels.set node.val (some label) node.isLt
        offers := state.offers.push offerBelow (label.distance, node) } 1 := by
  constructor
  · intro other
    exact is_settled_set fresh unfinished
  · intro other settled
    rw [get_set, if_neg]
    rintro rfl
    rw [fresh] at settled
    cases settled
  · rw [(Heap.push_perm _ _ _).length_eq, List.length_cons]

theorem relax_cases (found : relax network potential distance state arc = some next) :
    next = state ∨
      network.hasCapacity arc = true ∧ isSettled state.labels (network.head arc) = false ∧
        ∃ offer, next =
          { labels := state.labels.set (network.head arc).val (some ⟨offer, some arc, false⟩)
              (network.head arc).isLt
            offers := state.offers.push offerBelow (offer, network.head arc) } := by
  unfold relax at found
  dsimp only at found
  split at found
  · exact .inl (Option.some.inj found).symm
  · next notSkipped =>
    simp only [Bool.or_eq_true, Bool.not_eq_true', not_or, Bool.not_eq_false, Bool.not_eq_true]
      at notSkipped
    obtain ⟨usable, unsettled⟩ := notSkipped
    obtain ⟨reduced, -, rest⟩ := Option.bind_eq_some_iff.mp found
    -- The offer is the distance itself or a checked sum.
    obtain ⟨offer, last⟩ : ∃ offer, (if (state.labels.get (network.head arc)).all
        fun label => offer < label.distance then
          some
            { labels := state.labels.set (network.head arc).val (some ⟨offer, some arc, false⟩)
                (network.head arc).isLt
              offers := state.offers.push offerBelow (offer, network.head arc) }
        else some state) = some next := by
      split at rest
      · exact ⟨distance, rest⟩
      · obtain ⟨offer, -, last⟩ := Option.bind_eq_some_iff.mp rest
        exact ⟨offer, last⟩
    split at last
    · exact .inr ⟨usable, unsettled, offer, (Option.some.inj last).symm⟩
    · exact .inl (Option.some.inj last).symm

theorem relax_spread (found : relax network potential distance state arc = some next) :
    Spread state next 1 := by
  rcases relax_cases found with rfl | ⟨usable, unsettled, offer, rfl⟩
  · exact ⟨fun _ => rfl, fun _ _ => rfl, Nat.le_succ _⟩
  · exact spread_offer unsettled rfl

theorem relax_all_spread {arcs : List (Arc m)}
    (found : arcs.foldlM (relax network potential distance) state = some next) :
    Spread state next arcs.length := by
  induction arcs generalizing state with
  | nil =>
      obtain rfl := Option.some.inj found
      exact ⟨fun _ => rfl, fun _ _ => rfl, Nat.le_refl _⟩
  | cons arc rest induction =>
      rw [List.foldlM_cons] at found
      obtain ⟨middle, first, others⟩ := Option.bind_eq_some_iff.mp found
      have here := relax_spread first
      have later := induction others
      refine ⟨fun other => (later.settled_eq other).trans (here.settled_eq other), ?_, ?_⟩
      · intro other settled
        rw [later.kept other (here.settled_eq other ▸ settled), here.kept other settled]
      have total := here.offers_le
      have more := later.offers_le
      rw [List.length_cons]
      omega

def unsettled (labels : Vector (Option (Label m W)) n) : Finset (Fin n) :=
  Finset.univ.filter fun node => isSettled labels node = false

omit [Weight W] in
theorem mem_unsettled {labels : Vector (Option (Label m W)) n} :
    node ∈ unsettled labels ↔ isSettled labels node = false := by
  simp [unsettled]

/-- The offers that are made, and those that may still come: one for every arc of a node that is not
settled. -/
def offersLeft (network : Residual n m W) (state : Exploration n m W) : Nat :=
  state.offers.listed.length + ∑ node ∈ unsettled state.labels, (network.arcsFrom node).length

omit [Weight W] in
theorem Spread.offers_left_le {before after : Exploration n m W} {arcs : Nat}
    (spread : Spread before after arcs) (network : Residual n m W) :
    offersLeft network after ≤ offersLeft network before + arcs := by
  have same : unsettled after.labels = unsettled before.labels := by
    simp only [unsettled, spread.settled_eq]
  have offers := spread.offers_le
  rw [offersLeft, offersLeft, same]
  omega

omit [Weight W] in
theorem unsettled_settle {labels : Vector (Option (Label m W)) n}
    (labelled : (labels.get node).isSome = true) :
    unsettled (settle labels node) = (unsettled labels).erase node := by
  ext other
  rw [Finset.mem_erase, mem_unsettled, mem_unsettled, isSettled, isSettled, get_settle]
  by_cases same : node = other
  · subst same
    obtain ⟨label, found⟩ := Option.isSome_iff_exists.mp labelled
    simp [found]
  · simp [same, Ne.symm same]

/-- Every step uses up an offer, as long as only labelled nodes are on offer. -/
theorem explore_offers_left_lt
    (labelled : ∀ offer ∈ state.offers.listed, (state.labels.get offer.2).isSome = true)
    (stepped : explore network potential sink state = some (some next)) :
    offersLeft network next < offersLeft network state := by
  cases (explore_cases stepped).2 with
  | dropped popped settled same =>
      have shorter := (Heap.pop?_perm _ popped).length_eq
      rw [List.length_cons] at shorter
      subst same
      simp only [offersLeft]
      omega
  | @settled distance node offers popped fresh relaxed =>
      have shorter := (Heap.pop?_perm _ popped).length_eq
      rw [List.length_cons] at shorter
      have offered : (distance, node) ∈ state.offers.listed :=
        (Heap.mem_pop? _ popped).mpr (.inl rfl)
      have settling := Finset.sum_erase_add (unsettled state.labels)
        (fun other => (network.arcsFrom other).length) (mem_unsettled.mpr fresh)
      have afterSettling : offersLeft network ⟨settle state.labels node, offers⟩ +
          (network.arcsFrom node).length < offersLeft network state := by
        simp only [offersLeft, unsettled_settle (labelled _ offered)]
        omega
      have spread := (relax_all_spread relaxed).offers_left_le network
      have few := length_arcs_onward_le network sink node
      omega

theorem explore_eq_none (stepped : explore network potential sink state = some none) :
    isSettled state.labels sink = true ∨ state.offers.listed = [] := by
  unfold explore at stepped
  split at stepped
  · next settled => exact .inl settled
  · split at stepped
    · next missing => exact .inr (Heap.pop?_eq_none _ missing)
    · split at stepped
      · cases stepped
      · dsimp only at stepped
        split at stepped
        · cases stepped
        · obtain ⟨final, -, same⟩ := Option.map_eq_some_iff.mp stepped
          cases same

omit [Weight W] in
theorem sum_length_arcs_from (network : Residual n m W) :
    ∑ node, (network.arcsFrom node).length = 2 * m := by
  have listed : ∀ node, (network.arcsFrom node).length =
      ∑ index, ((if (network.links.get index).tail = node then 1 else 0) +
        if (network.links.get index).head = node then 1 else 0) := by
    intro node
    rw [Residual.arcsFrom, List.length_flatMap, Fin.sum_univ_def]
    apply congrArg List.sum
    apply List.map_congr_left
    intro index _
    rw [List.length_append]
    split <;> split <;> rfl
  simp only [listed]
  rw [Finset.sum_comm]
  simp [Finset.sum_add_distrib, Finset.sum_ite_eq, Nat.mul_comm]

omit [Weight W] in
theorem offers_left_le (network : Residual n m W) (state : Exploration n m W) :
    offersLeft network state ≤ state.offers.listed.length + 2 * m := by
  rw [offersLeft, ← sum_length_arcs_from network]
  apply Nat.add_le_add_left
  exact Finset.sum_le_sum_of_subset (Finset.subset_univ _)

/-- The last step of a search that answers has found nothing left to do, whatever its weights are, and
what every step keeps still holds then. -/
theorem shortest_paths_ends (property : Exploration n m W → Prop)
    (labelled : ∀ state, property state →
      ∀ offer ∈ state.offers.listed, (state.labels.get offer.2).isSome = true)
    (kept : ∀ before after, property before →
      explore network potential sink before = some (some after) → property after)
    (start : property
      { labels := (Vector.replicate n none).set source.val (some ⟨0, none, false⟩) source.isLt
        offers := Heap.empty.push offerBelow (0, source) })
    {labels : Vector (Option (Label m W)) n}
    (found : shortestPaths network potential source sink = some labels) :
    ∃ offers, property ⟨labels, offers⟩ ∧
      explore network potential sink ⟨labels, offers⟩ = some none := by
  obtain ⟨final, run, rfl⟩ := Option.map_eq_some_iff.mp found
  have single : (Heap.empty.push offerBelow ((0 : W), source)).listed.length = 1 :=
    (Heap.push_perm offerBelow Heap.empty ((0 : W), source)).length_eq
  have enough := offers_left_le network
    { labels := (Vector.replicate n none).set source.val (some ⟨0, none, false⟩) source.isLt
      offers := Heap.empty.push offerBelow (0, source) }
  rw [single] at enough
  exact ⟨final.offers, Answering.ofOption.iterate_ends (offersLeft network)
    (fun before after holds stepped => ⟨kept before after holds stepped,
      explore_offers_left_lt (labelled before holds) stepped⟩)
    start (Nat.lt_of_le_of_lt enough (by omega)) run⟩

end Offers

section Distances

variable [IntegerWeight W] {network : Residual n m W} {potential : Vector W n}
  {source sink node : Fin n} {rank : Fin n → Nat} {clock : Nat} {distance : W} {arc : Arc m}
  {labels : Vector (Option (Label m W)) n} {state next : Exploration n m W}

/-- The source is where distances are counted from, and none is negative. -/
structure Anchored (source : Fin n) (labels : Vector (Option (Label m W)) n) : Prop where
  source_label : LabelledAt labels source 0
  nonneg : ∀ node distance, LabelledAt labels node distance → 0 ≤ distance

theorem Anchored.improve (anchored : Anchored source labels) {label : Label m W}
    (nonneg : 0 ≤ toInt label.distance)
    (better : ∀ old, labels.get node = some old → toInt label.distance < toInt old.distance) :
    Anchored source (labels.set node.val (some label) node.isLt) := by
  constructor
  · obtain ⟨old, found, zero⟩ := anchored.source_label
    refine ⟨old, ?_, zero⟩
    rw [get_set, if_neg]
    · exact found
    · -- Nothing is better than zero.
      rintro rfl
      have nearer := better old found
      omega
  · rintro other final ⟨found, here, rfl⟩
    rw [get_set] at here
    split at here
    · exact Option.some.inj here ▸ nonneg
    · exact anchored.nonneg other _ ⟨found, here, rfl⟩

theorem Anchored.settle (anchored : Anchored source labels) :
    Anchored source (settle labels node) where
  source_label := labelled_at_settle.mpr anchored.source_label
  nonneg other final labelled := anchored.nonneg other final (labelled_at_settle.mp labelled)

theorem Anchored.relax_all {arcs : List (Arc m)} (anchored : Anchored source state.labels)
    (nonneg : ∀ arc, network.hasCapacity arc = true → 0 ≤ reduced network (price potential) arc)
    (notBefore : 0 ≤ toInt distance)
    (found : arcs.foldlM (relax network potential distance) state = some next) :
    Anchored source next.labels := by
  induction arcs generalizing state with
  | nil => exact Option.some.inj found ▸ anchored
  | cons arc rest induction =>
      rw [List.foldlM_cons] at found
      obtain ⟨middle, first, others⟩ := Option.bind_eq_some_iff.mp found
      apply induction _ others
      cases relax_eq_some (nonneg arc) first with
      | skipped same _ => exact same ▸ anchored
      | improved offer usable _ exact better same =>
          rw [same]
          have step := nonneg arc usable
          exact anchored.improve (by dsimp only; omega) better

theorem Anchored.explore (anchored : Anchored source state.labels) (offering : Offering state)
    (nonneg : ∀ arc, network.hasCapacity arc = true → 0 ≤ reduced network (price potential) arc)
    (stepped : explore network potential sink state = some (some next)) :
    Anchored source next.labels := by
  cases (explore_cases stepped).2 with
  | dropped popped settled same => exact same ▸ anchored
  | @settled distance node offers popped unsettled relaxed =>
      obtain ⟨nearer, near, labelled⟩ :=
        offering.labelled _ ((Heap.mem_pop? _ popped).mpr (.inl rfl))
      have notBefore := anchored.nonneg _ _ labelled
      exact anchored.settle.relax_all nonneg (notBefore.trans near) relaxed

theorem Spread.settled_at {arcs : Nat} {final : Int} (spread : Spread state next arcs)
    (settled : SettledAt state.labels node final) : SettledAt next.labels node final := by
  have kept := spread.kept node (is_settled_iff.mpr ⟨final, settled⟩)
  obtain ⟨label, found, isSettled, exact⟩ := settled
  exact ⟨label, kept.trans found, isSettled, exact⟩

theorem SettledAt.explore {final : Int} (settled : SettledAt state.labels node final)
    (stepped : MinCostFlow.explore network potential sink state = some (some next)) :
    SettledAt next.labels node final := by
  cases (explore_cases stepped).2 with
  | dropped _ _ same => exact same ▸ settled
  | settled _ _ relaxed =>
      exact (relax_all_spread relaxed).settled_at (settled_at_settle.mpr (.inl settled))

theorem settled_at_of_explore {offers : Heap (W × Fin n)}
    (stepped : explore network potential sink state = some (some next))
    (popped : state.offers.pop? offerBelow = some ((distance, node), offers))
    (unsettled : isSettled state.labels node = false)
    (labelled : LabelledAt state.labels node (toInt distance)) :
    SettledAt next.labels node (toInt distance) := by
  cases (explore_cases stepped).2 with
  | dropped first settled _ =>
      obtain ⟨⟨rfl, rfl⟩, -⟩ := by simpa [popped] using first
      rw [unsettled] at settled
      cases settled
  | settled first _ relaxed =>
      obtain ⟨⟨rfl, rfl⟩, rfl⟩ := by simpa [popped] using first
      exact (relax_all_spread relaxed).settled_at (settled_at_settle.mpr (.inr ⟨rfl, labelled⟩))

theorem anchored_start (source : Fin n) :
    Anchored source ((Vector.replicate n (none : Option (Label m W))).set source.val
      (some ⟨0, none, false⟩) source.isLt) := by
  refine ⟨⟨⟨0, none, false⟩, by rw [get_set, if_pos rfl], to_int_zero⟩, ?_⟩
  rintro node distance ⟨label, found, rfl⟩
  rw [(eq_start_of_get found).2, to_int_zero]

/-- What is known of a search at every step. -/
structure Sought (network : Residual n m W) (potential : Vector W n) (source sink : Fin n)
    (state : Exploration n m W) : Prop where
  explored : ∃ rank clock,
    Explored network (reduced network (price potential)) source sink rank clock [] state
  anchored : Anchored source state.labels

theorem Sought.initial (network : Residual n m W) (potential : Vector W n) (source sink : Fin n) :
    Sought network potential source sink
      { labels := (Vector.replicate n none).set source.val (some ⟨0, none, false⟩) source.isLt
        offers := Heap.empty.push offerBelow (0, source) } :=
  ⟨⟨_, _, Explored.initial network _ source sink⟩, anchored_start source⟩

theorem Sought.explore (sought : Sought network potential source sink state)
    (nonneg : ∀ arc, network.hasCapacity arc = true → 0 ≤ reduced network (price potential) arc)
    {next : Exploration n m W}
    (stepped : MinCostFlow.explore network potential sink state = some (some next)) :
    Sought network potential source sink next := by
  obtain ⟨rank, clock, explored⟩ := sought.explored
  exact ⟨explored.explore nonneg stepped,
    sought.anchored.explore explored.offering nonneg stepped⟩

theorem Sought.labelled (sought : Sought network potential source sink state) :
    ∀ offer ∈ state.offers.listed, (state.labels.get offer.2).isSome = true := by
  obtain ⟨rank, clock, explored⟩ := sought.explored
  intro offer member
  obtain ⟨_, -, label, found, -⟩ := explored.offering.labelled offer member
  rw [found, Option.isSome_some]

/-- What is known when a search has come to its end. -/
structure Finished (network : Residual n m W) (potential : Vector W n) (source sink : Fin n)
    (rank : Fin n → Nat) (clock : Nat) (state : Exploration n m W) : Prop where
  explored : Explored network (reduced network (price potential)) source sink rank clock [] state
  anchored : Anchored source state.labels
  stopped : isSettled state.labels sink = true ∨ state.offers.listed = []

theorem shortest_paths_finished
    (nonneg : ∀ arc, network.hasCapacity arc = true → 0 ≤ reduced network (price potential) arc)
    (found : shortestPaths network potential source sink = some labels) :
    ∃ rank clock offers,
      Finished network potential source sink rank clock ⟨labels, offers⟩ := by
  obtain ⟨offers, sought, stopped⟩ := shortest_paths_ends (Sought network potential source sink)
    (fun _ sought => sought.labelled) (fun _ _ sought => sought.explore nonneg)
    (.initial network potential source sink) found
  obtain ⟨rank, clock, explored⟩ := sought.explored
  exact ⟨rank, clock, offers, explored, sought.anchored, explore_eq_none stopped⟩

/-- A label is final, or the sink has been settled no farther away. -/
theorem Finished.settled_at_or (finished : Finished network potential source sink rank clock state)
    {base : Int} (labelled : LabelledAt state.labels node base) :
    SettledAt state.labels node base ∨ ∃ final ≤ base, SettledAt state.labels sink final := by
  obtain ⟨label, found, exact⟩ := labelled
  cases settled : label.settled with
  | true => exact .inl ⟨label, found, settled, exact⟩
  | false =>
      have offered := finished.explored.offering.offered node label found settled
      rcases finished.stopped with arrived | empty
      · obtain ⟨final, there⟩ := is_settled_iff.mp arrived
        have notAfter := finished.explored.offering.settled_le sink final there _ offered
        exact .inr ⟨final, exact ▸ notAfter, there⟩
      · rw [empty] at offered
        cases offered

theorem Finished.settled_at (finished : Finished network potential source sink rank clock state)
    (missed : isSettled state.labels sink = false) {base : Int}
    (labelled : LabelledAt state.labels node base) : SettledAt state.labels node base := by
  apply (finished.settled_at_or labelled).resolve_right
  rintro ⟨final, -, there⟩
  rw [is_settled_iff.mpr ⟨final, there⟩] at missed
  cases missed

theorem Finished.exists_labelled_at
    (finished : Finished network potential source sink rank clock state)
    (missed : isSettled state.labels sink = false) {path : List (Arc m)} {origin : Fin n}
    (route : network.Route path origin node) {base : Int}
    (labelled : LabelledAt state.labels origin base) :
    ∃ distance, LabelledAt state.labels node distance := by
  induction path generalizing origin base with
  | nil =>
      obtain rfl : origin = node := route.leads
      exact ⟨base, labelled⟩
  | cons arc rest induction =>
      obtain ⟨rfl, onward⟩ := route.leads
      have here := finished.settled_at missed labelled
      have notSink : network.tail arc ≠ sink := by
        intro same
        rw [← same, is_settled_iff.mpr ⟨base, here⟩] at missed
        cases missed
      obtain ⟨nearer, -, found⟩ := finished.explored.grown.relaxed arc base
        (route.usable arc (List.mem_cons_self ..)) List.not_mem_nil notSink here
      apply induction ⟨onward, ?_⟩ found
      intro other member
      exact route.usable other (List.mem_cons_of_mem _ member)

theorem Finished.unreachable (finished : Finished network potential source sink rank clock state)
    (missed : isSettled state.labels sink = false) : ¬network.Reaches source sink := by
  rintro ⟨path, route⟩
  obtain ⟨distance, labelled⟩ :=
    finished.exists_labelled_at missed route finished.anchored.source_label
  rw [is_settled_iff.mpr ⟨distance, finished.settled_at missed labelled⟩] at missed
  cases missed

end Distances

end FlowTour.MinCostFlow
