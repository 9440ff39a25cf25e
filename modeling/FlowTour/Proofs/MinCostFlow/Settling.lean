import FlowTour.Proofs.MinCostFlow.SearchEnd

/-!
What a search for shortest paths settles, whatever its weights and however they compare. A parent arc
comes from a node that is settled already when the label is given, and settled labels are never given
again. So parents lead back through nodes settled ever earlier, and the path traced back from a settled
node is simple and follows arcs with capacity. Whether it is a shortest one does not matter here.
-/

namespace FlowTour.MinCostFlow

open Residual Table

variable {n m : Nat} {W : Type} [Weight W] {network : Residual n m W} {potential : Vector W n}
  {source sink node other : Fin n} {rank : Fin n → Nat} {clock : Nat} {distance : W} {arc : Arc m}
  {labels : Vector (Option (Label m W)) n} {state next : Exploration n m W}
  {offers : Heap (W × Fin n)}

/-- Labels whose parents were settled before them; `rank` puts the settled nodes in the order in
which they were settled. Only labelled nodes are on offer. -/
structure Settling (network : Residual n m W) (source : Fin n) (rank : Fin n → Nat) (clock : Nat)
    (state : Exploration n m W) : Prop where
  offered : ∀ offer ∈ state.offers.listed, (state.labels.get offer.2).isSome = true
  parentless : ∀ node label, state.labels.get node = some label → label.parent = none →
    node = source
  parented : ∀ node label arc, state.labels.get node = some label → label.parent = some arc →
    network.head arc = node ∧ network.hasCapacity arc = true ∧
      isSettled state.labels (network.tail arc) = true ∧
        (label.settled = true → rank (network.tail arc) < rank node)
  ranked : ∀ node, isSettled state.labels node = true → rank node < clock

section Relax

theorem Settling.relax (settling : Settling network source rank clock state)
    (settled : isSettled state.labels (network.tail arc) = true)
    (found : relax network potential distance state arc = some next) :
    Settling network source rank clock next := by
  rcases relax_cases found with rfl | ⟨usable, unsettled, offer, rfl⟩
  · exact settling
  · have same : ∀ other, isSettled (state.labels.set (network.head arc).val
        (some ⟨offer, some arc, false⟩) (network.head arc).isLt) other =
          isSettled state.labels other := fun other => is_settled_set unsettled rfl
    constructor
    · intro pair member
      dsimp only
      rw [get_set]
      split
      · rfl
      · next different =>
        rcases (Heap.mem_push _).mp member with rfl | member
        · exact absurd rfl different
        · exact settling.offered pair member
    · intro node label here noParent
      rw [get_set] at here
      split at here
      · obtain rfl := Option.some.inj here
        cases noParent
      · exact settling.parentless node label here noParent
    · intro node label parent here isParent
      rw [get_set] at here
      split at here
      · next reached =>
        obtain rfl := Option.some.inj here
        obtain rfl := Option.some.inj isParent
        exact ⟨reached, usable, (same _).trans settled, nofun⟩
      · obtain ⟨ends, hadCapacity, before, ranks⟩ :=
          settling.parented node label parent here isParent
        exact ⟨ends, hadCapacity, (same _).trans before, ranks⟩
    · intro node here
      exact settling.ranked node ((same node).symm.trans here)

theorem Settling.relax_all {arcs : List (Arc m)}
    (settling : Settling network source rank clock state)
    (leaving : ∀ arc ∈ arcs, network.tail arc = node) (settled : isSettled state.labels node = true)
    (found : arcs.foldlM (MinCostFlow.relax network potential distance) state = some next) :
    Settling network source rank clock next := by
  induction arcs generalizing state with
  | nil => exact Option.some.inj found ▸ settling
  | cons arc rest induction =>
      rw [List.foldlM_cons] at found
      obtain ⟨middle, first, others⟩ := Option.bind_eq_some_iff.mp found
      have tail := leaving arc (List.mem_cons_self ..)
      apply induction (settling.relax (tail ▸ settled) first)
      · exact fun other member => leaving other (List.mem_cons_of_mem _ member)
      · exact ((relax_spread first).settled_eq node).trans settled
      · exact others

end Relax

section Settle

omit [Weight W] in
theorem is_settled_settle : isSettled (settle labels node) other = true ↔
    isSettled labels other = true ∨ node = other ∧ (labels.get other).isSome = true := by
  unfold isSettled
  rw [get_settle]
  split
  · cases labels.get other <;> simp [*]
  · simp [*]

/-- Settling the node of an offer: it comes after all that are settled already. -/
theorem Settling.settle (settling : Settling network source rank clock state)
    (popped : state.offers.pop? offerBelow = some ((distance, node), offers))
    (unsettled : isSettled state.labels node = false) :
    Settling network source (Function.update rank node clock) (clock + 1)
        ⟨MinCostFlow.settle state.labels node, offers⟩ ∧
      isSettled (MinCostFlow.settle state.labels node) node = true := by
  have labelled := settling.offered _ ((Heap.mem_pop? _ popped).mpr (.inl rfl))
  have apart : ∀ {other}, isSettled state.labels other = true → other ≠ node := by
    rintro other settled rfl
    rw [unsettled] at settled
    cases settled
  have still : ∀ {other}, isSettled state.labels other = true →
      isSettled (MinCostFlow.settle state.labels node) other = true :=
    fun settled => is_settled_settle.mpr (.inl settled)
  refine ⟨⟨?_, ?_, ?_, ?_⟩, is_settled_settle.mpr (.inr ⟨rfl, labelled⟩)⟩
  · intro offer member
    have before := settling.offered offer ((Heap.mem_pop? _ popped).mpr (.inr member))
    dsimp only
    rw [get_settle]
    split
    · rwa [Option.isSome_map]
    · exact before
  · intro other label here noParent
    rw [get_settle] at here
    split at here
    · obtain ⟨old, was, rfl⟩ := Option.map_eq_some_iff.mp here
      exact settling.parentless other old was noParent
    · exact settling.parentless other label here noParent
  · intro other label parent here isParent
    rw [get_settle] at here
    split at here
    · next same =>
      obtain ⟨old, was, rfl⟩ := Option.map_eq_some_iff.mp here
      obtain ⟨ends, usable, tailSettled, -⟩ := settling.parented other old parent was isParent
      refine ⟨ends, usable, still tailSettled, fun _ => ?_⟩
      rw [← same, Function.update_self, Function.update_of_ne (apart tailSettled)]
      exact settling.ranked _ tailSettled
    · next different =>
      obtain ⟨ends, usable, tailSettled, ranks⟩ :=
        settling.parented other label parent here isParent
      refine ⟨ends, usable, still tailSettled, ?_⟩
      rw [Function.update_of_ne (Ne.symm different), Function.update_of_ne (apart tailSettled)]
      exact ranks
  · intro other settled
    rcases is_settled_settle.mp settled with before | ⟨rfl, -⟩
    · rw [Function.update_of_ne (apart before)]
      exact (settling.ranked other before).trans (Nat.lt_succ_self clock)
    · rw [Function.update_self]
      exact Nat.lt_succ_self clock

theorem Settling.explore (settling : Settling network source rank clock state)
    (stepped : explore network potential sink state = some (some next)) :
    ∃ rank clock, Settling network source rank clock next := by
  cases (explore_cases stepped).2 with
  | @dropped distance node offers popped _ same =>
      subst same
      refine ⟨rank, clock, ?_, settling.parentless, settling.parented, settling.ranked⟩
      exact fun offer member => settling.offered offer ((Heap.mem_pop? _ popped).mpr (.inr member))
  | settled popped unsettled relaxed =>
      obtain ⟨later, settled⟩ := settling.settle popped unsettled
      exact ⟨_, _, later.relax_all (fun _ => tail_of_mem_arcs_onward) settled relaxed⟩

end Settle

section Search

theorem Settling.initial (network : Residual n m W) (source : Fin n) :
    Settling network source (fun _ => 0) 0
      { labels := (Vector.replicate n none).set source.val (some ⟨0, none, false⟩) source.isLt
        offers := Heap.empty.push offerBelow (0, source) } := by
  constructor
  · intro offer member
    rcases (Heap.mem_push _).mp member with rfl | none
    · rw [get_set, if_pos rfl]
      rfl
    · cases none
  · exact fun node label found _ => (eq_start_of_get found).1.symm
  · intro node label arc found isParent
    rw [(eq_start_of_get found).2] at isParent
    cases isParent
  · intro node settled
    obtain ⟨label, found, isSettled⟩ := (Option.any_eq_true _ _).mp settled
    rw [(eq_start_of_get found).2] at isSettled
    cases isSettled

theorem shortest_paths_settling
    (searched : shortestPaths network potential source sink = some labels) :
    ∃ rank clock offers, Settling network source rank clock ⟨labels, offers⟩ ∧
      explore network potential sink ⟨labels, offers⟩ = some none := by
  obtain ⟨offers, ⟨rank, clock, settling⟩, ended⟩ := shortest_paths_ends
    (fun state => ∃ rank clock, Settling network source rank clock state)
    (fun _ ⟨_, _, settling⟩ => settling.offered)
    (fun _ _ ⟨_, _, before⟩ stepped => before.explore stepped)
    ⟨_, _, .initial network source⟩ searched
  exact ⟨rank, clock, offers, settling, ended⟩

theorem Settling.rooted (settling : Settling network source rank clock state) :
    Rooted network (fun node => (state.labels.get node).bind Label.parent) source
      (fun node => isSettled state.labels node = true) rank := by
  apply rooted_of_labels settling.parentless
  intro node label arc found isParent
  obtain ⟨ends, -, tailSettled, ranks⟩ := settling.parented node label arc found isParent
  exact ⟨ends, tailSettled, ranks⟩

/-- What a search has settled leads back to the source over arcs with capacity. -/
theorem traces_back_of_is_settled
    (searched : shortestPaths network potential source sink = some labels)
    (settled : isSettled labels node = true) :
    TracesBack network (fun node => (labels.get node).bind Label.parent) source node := by
  obtain ⟨rank, clock, offers, settling, -⟩ := shortest_paths_settling searched
  apply settling.rooted.traces_back _ settled
  intro other arc _ isParent
  obtain ⟨label, found, parent⟩ := Option.bind_eq_some_iff.mp isParent
  exact (settling.parented other label arc found parent).2.1

end Search

end FlowTour.MinCostFlow
