import FlowTour.Proofs.MinCostFlow.Labels
import FlowTour.Proofs.Residual.BreadthFirst

/-!
What a search for shortest paths finds. A step drops an offer, or it settles the node of the offer and
looks along its arcs. As long as no arc with capacity has a negative reduced cost, nodes are settled in
the order of their distances, and settling the node of the nearest offer and looking along its arcs
keeps what is known about the labels.
-/

namespace FlowTour.MinCostFlow

open IntegerWeight Table

variable {n m : Nat} {W : Type} [IntegerWeight W]

section Step

omit [IntegerWeight W]

variable {network : Residual n m W} {source sink node : Fin n} {arc : Arc m}

/-- The arcs that are looked along when a node is settled; there are none from the sink. -/
def arcsOnward (network : Residual n m W) (sink node : Fin n) : List (Arc m) :=
  if node = sink then [] else network.arcsFrom node

theorem tail_of_mem_arcs_onward (member : arc ∈ arcsOnward network sink node) :
    network.tail arc = node := by
  unfold arcsOnward at member
  split at member
  · cases member
  · exact (Residual.mem_arcs_from network).mp member

theorem length_arcs_onward_le (network : Residual n m W) (sink node : Fin n) :
    (arcsOnward network sink node).length ≤ (network.arcsFrom node).length := by
  unfold arcsOnward
  split
  · exact Nat.zero_le _
  · exact le_rfl

theorem rooted_of_labels {labels : Vector (Option (Label m W)) n} {rank : Fin n → Nat}
    (parentless : ∀ node label, labels.get node = some label → label.parent = none → node = source)
    (parented : ∀ node label arc, labels.get node = some label → label.parent = some arc →
      network.head arc = node ∧ isSettled labels (network.tail arc) = true ∧
        (label.settled = true → rank (network.tail arc) < rank node)) :
    Residual.Rooted network (fun node => (labels.get node).bind Label.parent) source
      (fun node => isSettled labels node = true) rank where
  of_none node settled noParent := by
    obtain ⟨label, found, -⟩ := (Option.any_eq_true _ _).mp settled
    rw [found] at noParent
    exact parentless node label found noParent
  head_eq node arc _ isParent := by
    obtain ⟨label, found, parent⟩ := Option.bind_eq_some_iff.mp isParent
    exact (parented node label arc found parent).1
  known_tail node arc _ isParent := by
    obtain ⟨label, found, parent⟩ := Option.bind_eq_some_iff.mp isParent
    exact (parented node label arc found parent).2.1
  rank_lt node arc settled isParent := by
    obtain ⟨label, found, parent⟩ := Option.bind_eq_some_iff.mp isParent
    apply (parented node label arc found parent).2.2
    simpa [isSettled, found] using settled

variable [Weight W] {potential : Vector W n} {state next : Exploration n m W}

/-- What a step of a search does with the next offer: it drops it when its node is settled, or settles
the node and looks along the arcs from there. -/
inductive Stepped (network : Residual n m W) (potential : Vector W n) (sink : Fin n)
    (state next : Exploration n m W) : Prop
  | dropped {distance : W} {node : Fin n} {offers : Heap (W × Fin n)}
      (popped : state.offers.pop? offerBelow = some ((distance, node), offers))
      (settled : isSettled state.labels node = true) (same : next = { state with offers })
  | settled {distance : W} {node : Fin n} {offers : Heap (W × Fin n)}
      (popped : state.offers.pop? offerBelow = some ((distance, node), offers))
      (unsettled : isSettled state.labels node = false)
      (relaxed : (arcsOnward network sink node).foldlM (relax network potential distance)
        ⟨settle state.labels node, offers⟩ = some next)

theorem explore_cases (stepped : explore network potential sink state = some (some next)) :
    isSettled state.labels sink = false ∧ Stepped network potential sink state next := by
  unfold explore at stepped
  split at stepped
  · cases stepped
  · next sinkOpen =>
    refine ⟨Bool.not_eq_true _ ▸ sinkOpen, ?_⟩
    split at stepped
    · cases stepped
    · next distance node offers popped =>
      split at stepped
      · next settled =>
        exact .dropped popped settled (Option.some.inj (Option.some.inj stepped)).symm
      · next unsettled =>
        rw [Bool.not_eq_true] at unsettled
        apply Stepped.settled popped unsettled
        dsimp only at stepped
        rw [arcsOnward]
        split at stepped
        · next isSink =>
          rw [if_pos isSink]
          exact Option.some.inj stepped
        · next notSink =>
          rw [if_neg notSink]
          obtain ⟨final, relaxed, same⟩ := Option.map_eq_some_iff.mp stepped
          exact relaxed.trans same

end Step

/-- What is known in the middle of a search. -/
structure Explored (network : Residual n m W) (charge : Arc m → Int) (source sink : Fin n)
    (rank : Fin n → Nat) (clock : Nat) (waiting : List (Arc m)) (state : Exploration n m W) :
    Prop where
  grown : Grown network charge source sink rank clock waiting state.labels
  offering : Offering state

section Search

variable {network : Residual n m W} {potential : Vector W n} {source sink node : Fin n}
  {rank : Fin n → Nat} {clock : Nat} {waiting : List (Arc m)} {arc : Arc m} {distance : W}
  {state next : Exploration n m W}

theorem Explored.relax (explored : Explored network (reduced network (price potential)) source sink
      rank clock (arc :: waiting) state)
    (nonneg : network.hasCapacity arc = true → 0 ≤ reduced network (price potential) arc)
    (settled : SettledAt state.labels (network.tail arc) (toInt distance))
    (latest : ∀ other final, SettledAt state.labels other final → final ≤ toInt distance)
    (found : relax network potential distance state arc = some next) :
    Explored network (reduced network (price potential)) source sink rank clock waiting next ∧
      ∀ other final, SettledAt next.labels other final ↔ SettledAt state.labels other final := by
  cases relax_eq_some nonneg found with
  | skipped same near =>
      subst same
      refine ⟨⟨explored.grown.skip ?_, explored.offering⟩, fun _ _ => Iff.rfl⟩
      intro usable base here
      obtain rfl := settled_at_unique settled here
      rcases near usable with ⟨final, headSettled⟩ | nearer
      · have early := latest _ final headSettled
        have step := nonneg usable
        exact ⟨final, by omega, headSettled.labelled_at⟩
      · exact nearer
  | improved offer usable unsettled exact better same =>
      subst same
      refine ⟨⟨explored.grown.improve usable unsettled settled exact better, ?_⟩, ?_⟩
      · apply explored.offering.improve unsettled better
        intro other final here
        have early := latest other final here
        have step := nonneg usable
        omega
      · intro other final
        exact settled_at_set_iff unsettled rfl

theorem Explored.relax_all {arcs : List (Arc m)}
    (explored : Explored network (reduced network (price potential)) source sink
      rank clock arcs state)
    (nonneg : ∀ arc, network.hasCapacity arc = true → 0 ≤ reduced network (price potential) arc)
    (leaving : ∀ arc ∈ arcs, network.tail arc = node)
    (settled : SettledAt state.labels node (toInt distance))
    (latest : ∀ other final, SettledAt state.labels other final → final ≤ toInt distance)
    (found : arcs.foldlM (MinCostFlow.relax network potential distance) state = some next) :
    Explored network (reduced network (price potential)) source sink rank clock [] next := by
  induction arcs generalizing state with
  | nil =>
      obtain rfl := Option.some.inj found
      exact explored
  | cons arc rest induction =>
      rw [List.foldlM_cons] at found
      obtain ⟨middle, first, others⟩ := Option.bind_eq_some_iff.mp found
      have tail := leaving arc (List.mem_cons_self ..)
      obtain ⟨relaxed, same⟩ := explored.relax (nonneg arc) (tail ▸ settled) latest first
      apply induction relaxed
      · intro other member
        exact leaving other (List.mem_cons_of_mem _ member)
      · exact (same _ _).mpr settled
      · intro other final here
        exact latest other final ((same _ _).mp here)
      · exact others

/-- The nearest offer is just the distance of its node, if that is not settled yet. -/
theorem Offering.labelled_at_of_pop (offering : Offering state) {offers : Heap (W × Fin n)}
    (popped : state.offers.pop? offerBelow = some ((distance, node), offers))
    (unsettled : isSettled state.labels node = false) :
    LabelledAt state.labels node (toInt distance) := by
  have listed : (distance, node) ∈ state.offers.listed :=
    (Heap.mem_pop? _ popped).mpr (.inl rfl)
  obtain ⟨-, nearest⟩ := Heap.pop?_ordered offer_ranking offering.ordered popped
  obtain ⟨nearer, near, label, found, rfl⟩ := offering.labelled _ listed
  have fresh : label.settled = false := by simpa [isSettled, found] using unsettled
  have offered := offer_below_iff.mp (nearest _ (offering.offered node label found fresh))
  exact ⟨label, found, le_antisymm near offered⟩

section Settle

variable {charge : Arc m → Int} {offers : Heap (W × Fin n)}

theorem Grown.settle (grown : Grown network charge source sink rank clock [] state.labels)
    (sinkOpen : isSettled state.labels sink = false)
    (unsettled : isSettled state.labels node = false) {here : Int}
    (labelled : LabelledAt state.labels node here)
    (latest : ∀ other final, SettledAt state.labels other final → final ≤ here) :
    Grown network charge source sink (Function.update rank node clock) (clock + 1)
      (network.arcsFrom node) (MinCostFlow.settle state.labels node) := by
  have apart : ∀ {other final}, SettledAt state.labels other final → other ≠ node := by
    rintro other final settled rfl
    rw [is_settled_iff.mpr ⟨final, settled⟩] at unsettled
    cases unsettled
  constructor
  · intro other label found noParent
    rw [get_settle] at found
    split at found
    · obtain ⟨old, was, rfl⟩ := Option.map_eq_some_iff.mp found
      exact grown.parentless other old was noParent
    · exact grown.parentless other label found noParent
  · intro other label parent found isParent
    rw [get_settle] at found
    split at found
    · next same =>
      obtain ⟨old, was, rfl⟩ := Option.map_eq_some_iff.mp found
      obtain ⟨ends, usable, tailSettled, -⟩ := grown.parented other old parent was isParent
      refine ⟨ends, usable, settled_at_settle.mpr (.inl tailSettled), ?_⟩
      intro _
      rw [← same, Function.update_self, Function.update_of_ne (apart tailSettled)]
      exact grown.ranked _ _ tailSettled
    · next different =>
      obtain ⟨ends, usable, tailSettled, ranks⟩ := grown.parented other label parent found isParent
      refine ⟨ends, usable, settled_at_settle.mpr (.inl tailSettled), ?_⟩
      rw [Function.update_of_ne (Ne.symm different), Function.update_of_ne (apart tailSettled)]
      exact ranks
  · intro other final settled
    rcases settled_at_settle.mp settled with before | ⟨rfl, -⟩
    · rw [Function.update_of_ne (apart before)]
      have := grown.ranked other final before
      omega
    · rw [Function.update_self]
      omega
  · intro arc base usable notWaiting notSink settled
    rw [Residual.mem_arcs_from] at notWaiting
    rcases settled_at_settle.mp settled with before | ⟨same, -⟩
    · obtain ⟨nearer, near, found⟩ :=
        grown.relaxed arc base usable (List.not_mem_nil) notSink before
      exact ⟨nearer, near, labelled_at_settle.mpr found⟩
    · exact absurd same.symm notWaiting
  · intro final last other between settled
    rcases settled_at_settle.mp last with before | ⟨rfl, lastLabelled⟩
    · rw [is_settled_iff.mpr ⟨final, before⟩] at sinkOpen
      cases sinkOpen
    · obtain rfl := labelled_at_unique labelled lastLabelled
      rcases settled_at_settle.mp settled with before | ⟨rfl, alsoLabelled⟩
      · exact latest other between before
      · exact (labelled_at_unique alsoLabelled lastLabelled).le

theorem Offering.settle (offering : Offering state)
    (popped : state.offers.pop? offerBelow = some ((distance, node), offers))
    (labelled : LabelledAt state.labels node (toInt distance)) :
    Offering ⟨MinCostFlow.settle state.labels node, offers⟩ := by
  obtain ⟨ordered, nearest⟩ := Heap.pop?_ordered offer_ranking offering.ordered popped
  have still : ∀ offer ∈ offers.listed, offer ∈ state.offers.listed :=
    fun _ member => (Heap.mem_pop? _ popped).mpr (.inr member)
  refine ⟨ordered, ?_, ?_, ?_⟩
  · intro other label found fresh
    rw [get_settle] at found
    split at found
    · obtain ⟨old, -, rfl⟩ := Option.map_eq_some_iff.mp found
      cases fresh
    · next different =>
      have offered := offering.offered other label found fresh
      rcases (Heap.mem_pop? _ popped).mp offered with same | later
      · exact absurd (congrArg Prod.snd same).symm different
      · exact later
  · intro offer member
    obtain ⟨nearer, near, found⟩ := offering.labelled offer (still offer member)
    exact ⟨nearer, near, labelled_at_settle.mpr found⟩
  · intro other final settled offer member
    rcases settled_at_settle.mp settled with before | ⟨rfl, alsoLabelled⟩
    · exact offering.settled_le other final before offer (still offer member)
    · rw [labelled_at_unique alsoLabelled labelled]
      exact offer_below_iff.mp (nearest offer (still offer member))

/-- Settling the node of the nearest offer: its distance is the offered one, and no settled node is
farther. -/
theorem Explored.settle (explored : Explored network charge source sink rank clock [] state)
    (sinkOpen : isSettled state.labels sink = false)
    (popped : state.offers.pop? offerBelow = some ((distance, node), offers))
    (unsettled : isSettled state.labels node = false) :
    Explored network charge source sink (Function.update rank node clock) (clock + 1)
        (network.arcsFrom node) ⟨MinCostFlow.settle state.labels node, offers⟩ ∧
      SettledAt (MinCostFlow.settle state.labels node) node (toInt distance) ∧
        ∀ other final, SettledAt (MinCostFlow.settle state.labels node) other final →
          final ≤ toInt distance := by
  have labelled := explored.offering.labelled_at_of_pop popped unsettled
  have listed : (distance, node) ∈ state.offers.listed :=
    (Heap.mem_pop? _ popped).mpr (.inl rfl)
  have latest : ∀ other final, SettledAt state.labels other final → final ≤ toInt distance := by
    intro other final settled
    exact explored.offering.settled_le other final settled _ listed
  refine ⟨⟨explored.grown.settle sinkOpen unsettled labelled latest,
    explored.offering.settle popped labelled⟩, settled_at_settle.mpr (.inr ⟨rfl, labelled⟩), ?_⟩
  intro other final settled
  rcases settled_at_settle.mp settled with before | ⟨rfl, alsoLabelled⟩
  · exact latest other final before
  · exact (labelled_at_unique alsoLabelled labelled).le

end Settle

theorem Explored.discard {charge : Arc m → Int}
    (explored : Explored network charge source sink rank clock waiting state)
    {offers : Heap (W × Fin n)}
    (popped : state.offers.pop? offerBelow = some ((distance, node), offers))
    (settled : isSettled state.labels node = true) :
    Explored network charge source sink rank clock waiting { state with offers } := by
  obtain ⟨ordered, -⟩ := Heap.pop?_ordered offer_ranking explored.offering.ordered popped
  have still : ∀ offer ∈ offers.listed, offer ∈ state.offers.listed :=
    fun _ member => (Heap.mem_pop? _ popped).mpr (.inr member)
  refine ⟨explored.grown, ordered, ?_, ?_, ?_⟩
  · intro other label found fresh
    have offered := explored.offering.offered other label found fresh
    rcases (Heap.mem_pop? _ popped).mp offered with same | later
    · obtain rfl := congrArg Prod.snd same
      simp [isSettled, found, fresh] at settled
    · exact later
  · intro offer member
    exact explored.offering.labelled offer (still offer member)
  · intro other final here offer member
    exact explored.offering.settled_le other final here offer (still offer member)

theorem Explored.explore
    (explored : Explored network (reduced network (price potential)) source sink rank clock [] state)
    (nonneg : ∀ arc, network.hasCapacity arc = true → 0 ≤ reduced network (price potential) arc)
    (stepped : explore network potential sink state = some (some next)) :
    ∃ rank clock, Explored network (reduced network (price potential)) source sink rank clock []
      next := by
  obtain ⟨sinkOpen, step⟩ := explore_cases stepped
  cases step with
  | dropped popped settled same => exact ⟨rank, clock, same ▸ explored.discard popped settled⟩
  | @settled distance node offers popped unsettled relaxed =>
      obtain ⟨settling, settled, latest⟩ := explored.settle sinkOpen popped unsettled
      refine ⟨Function.update rank node clock, clock + 1, ?_⟩
      by_cases isSink : node = sink
      · -- Nothing is looked along from the sink.
        rw [arcsOnward, if_pos isSink] at relaxed
        obtain rfl := Option.some.inj relaxed
        refine ⟨{ settling.grown with relaxed := ?_ }, settling.offering⟩
        intro arc base usable _ notSink
        apply settling.grown.relaxed arc base usable _ notSink
        rw [Residual.mem_arcs_from, isSink]
        exact notSink
      · rw [arcsOnward, if_neg isSink] at relaxed
        exact settling.relax_all nonneg
          (fun arc member => (Residual.mem_arcs_from _).mp member) settled latest relaxed

theorem Explored.initial (network : Residual n m W) (charge : Arc m → Int) (source sink : Fin n) :
    Explored network charge source sink (fun _ => 0) 0 []
      { labels := (Vector.replicate n none).set source.val (some ⟨0, none, false⟩) source.isLt
        offers := Heap.empty.push offerBelow (0, source) } := by
  have none : ∀ {node distance}, ¬SettledAt ((Vector.replicate n (none : Option (Label m W))).set
      source.val (some ⟨0, none, false⟩) source.isLt) node distance := by
    rintro node distance ⟨label, found, settled, -⟩
    rw [(eq_start_of_get found).2] at settled
    cases settled
  have single : ∀ offer, offer ∈ (Heap.empty.push offerBelow ((0 : W), source)).listed ↔
      offer = (0, source) := by
    intro offer
    rw [Heap.mem_push]
    simp [Heap.listed, Heap.empty]
  refine ⟨⟨?_, ?_, ?_, ?_, ?_⟩, ?_, ?_, ?_, ?_⟩
  · intro node label found _
    exact (eq_start_of_get found).1.symm
  · intro node label arc found isParent
    rw [(eq_start_of_get found).2] at isParent
    cases isParent
  · intro node distance settled
    exact absurd settled none
  · intro arc distance _ _ _ settled
    exact absurd settled none
  · intro final settled
    exact absurd settled none
  · apply Heap.push_ordered offer_ranking
    intro place bound
    simp [Heap.empty] at bound
  · intro node label found _
    obtain ⟨rfl, rfl⟩ := eq_start_of_get found
    exact (single _).mpr rfl
  · intro offer member
    rw [(single offer).mp member]
    exact ⟨_, le_rfl, _, by rw [get_set, if_pos rfl], rfl⟩
  · intro node distance settled
    exact absurd settled none

end Search

end FlowTour.MinCostFlow
