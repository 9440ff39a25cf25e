import FlowTour.Graph.Building
import FlowTour.Proofs.Graph.Rearranged
import FlowTour.Proofs.Graph.Rotation
import FlowTour.Proofs.Tour.Recognition

/-!
Round trips told from another place or the other way around. What makes a sequence a round trip is
which nodes it lists and which of them are neighbours, so it may begin anywhere, and also run backwards
where every edge has its reverse. The closed form is tied to its place: turned, it repeats its first
node somewhere inside, and is no round trip any more.
-/

namespace FlowTour

theorem eq_of_perm_concat {N : Type} [DecidableEq N] {cycle otherCycle : List N} {node other : N}
    (distinct : cycle.Nodup) (listed : other ∈ otherCycle)
    (perm : (otherCycle ++ [other]).Perm (cycle ++ [node])) : other = node := by
  have twice : 2 ≤ (cycle ++ [node]).count other := by
    have once := List.count_pos_iff.mpr listed
    rw [← perm.count_eq, List.count_append, List.count_singleton_self]
    omega
  have atMostOnce := List.nodup_iff_count_le_one.mp distinct other
  by_contra different
  rw [List.count_append, List.count_singleton, beq_false_of_ne (Ne.symm different)] at twice
  simp only [Bool.false_eq_true, if_false] at twice
  omega

namespace Graph

variable {N W : Type} [NodeKey N] {graph : Graph N W} {first second : List N}

/-- Every edge has its reverse. -/
def Reversible (graph : Graph N W) : Prop :=
  ∀ edge ∈ graph.edges, (graph.weight? edge.target edge.source).isSome = true

instance (graph : Graph N W) : Decidable graph.Reversible :=
  inferInstanceAs (Decidable (∀ edge ∈ graph.edges, _))

theorem Reversible.joined (reversible : graph.Reversible) {source target : N}
    (joined : (graph.weight? source target).isSome = true) :
    (graph.weight? target source).isSome = true := by
  obtain ⟨weight, found⟩ := Option.isSome_iff_exists.mp joined
  exact reversible _ (weight?_eq_some_iff_mem.mp found)

/-- Whether a sequence has the closed form of a round trip: one node more than the graph, and the last
one is the first one again. -/
def IsClosed (graph : Graph N W) (tour : List N) : Prop :=
  tour.length = graph.nodeCount + 1 ∧ 2 ≤ tour.length ∧ tour.head? = tour.getLast?

instance (graph : Graph N W) (tour : List N) : Decidable (graph.IsClosed tour) :=
  inferInstanceAs (Decidable (_ ∧ _ ∧ _))

omit [NodeKey N] in
theorem IsClosed.eq_concat {tour : List N} (closed : graph.IsClosed tour) :
    ∃ first, tour.dropLast.head? = some first ∧ tour = tour.dropLast ++ [first] := by
  obtain ⟨-, several, ends⟩ := closed
  cases tour with
  | nil => simp at several
  | cons first rest =>
      cases rest with
      | nil => simp at several
      | cons second rest =>
          have last : (first :: second :: rest).getLast? = some first := ends.symm
          obtain ⟨stops, listed⟩ := List.getLast?_eq_some_iff.mp last
          refine ⟨first, rfl, ?_⟩
          rw [listed, List.dropLast_concat]

theorem is_tour_iff_open_or_closed {tour : List N} : graph.isTour tour = true ↔
    graph.IsRoundTrip tour ∨ graph.IsClosed tour ∧ graph.IsRoundTrip tour.dropLast := by
  have tooLong : graph.IsClosed tour → ¬graph.IsRoundTrip tour := by
    intro closed trip
    have same := trip.perm.length_eq
    have longer := closed.1
    rw [nodeCount] at longer
    omega
  rw [is_tour_iff]
  by_cases closed : graph.IsClosed tour
  · have opened : graph.openForm tour = tour.dropLast := if_pos closed
    simp [opened, closed, tooLong closed]
  · have opened : graph.openForm tour = tour := if_neg closed
    simp [opened, closed]

/-- The second sequence lists the nodes of the first one with the same neighbours. On a graph in which
every edge has its reverse, neighbours may also be swapped. -/
structure Retells (graph : Graph N W) (first second : List N) : Prop where
  perm : second.Perm first
  pairs : ∀ step ∈ roundSteps second,
    step ∈ roundSteps first ∨ graph.Reversible ∧ step.swap ∈ roundSteps first

theorem Retells.of_is_rotated (rotated : first ~r second) : graph.Retells first second where
  perm := rotated.perm.symm
  pairs _ member := .inl (mem_round_steps_of_is_rotated rotated member)

theorem Retells.of_same_cycle (reversible : graph.Reversible)
    (same : sameCycle first second = true) : graph.Retells first second := by
  rcases same_cycle_iff.mp same with rotated | reversed
  · exact .of_is_rotated rotated
  · refine ⟨reversed.perm.symm.trans first.reverse_perm, ?_⟩
    intro step member
    have backwards := mem_round_steps_of_is_rotated reversed member
    exact .inr ⟨reversible, swap_mem_round_steps backwards⟩

theorem Retells.is_round_trip (retells : graph.Retells first second)
    (trip : graph.IsRoundTrip first) : graph.IsRoundTrip second where
  perm := retells.perm.trans trip.perm
  joined several step member := by
    rcases retells.pairs step member with along | ⟨reversible, against⟩
    · exact trip.joined several step along
    · exact reversible.joined (trip.joined several step.swap against)

/-- Between closed forms the repeated node is the same one, since it is the only one listed twice. It
stands beside itself, where no open form has two neighbours. -/
theorem Retells.is_round_trip_drop_last (retells : graph.Retells first second)
    (closed : graph.IsClosed first) (otherClosed : graph.IsClosed second)
    (trip : graph.IsRoundTrip first.dropLast) : graph.IsRoundTrip second.dropLast := by
  obtain ⟨node, head, listed⟩ := closed.eq_concat
  obtain ⟨other, otherHead, otherListed⟩ := otherClosed.eq_concat
  generalize first.dropLast = cycle at *
  generalize second.dropLast = otherCycle at *
  subst listed otherListed
  have distinct : cycle.Nodup := trip.perm.nodup_iff.mpr graph.nodes_nodup
  obtain rfl : other = node :=
    eq_of_perm_concat distinct (List.mem_of_head? otherHead) retells.perm
  have perm : otherCycle.Perm cycle := (List.perm_append_right_iff [other]).mp retells.perm
  refine ⟨perm.trans trip.perm, ?_⟩
  intro several step member
  have size : otherCycle.length = graph.nodeCount := (perm.trans trip.perm).length_eq
  have different := ne_of_mem_round_steps (perm.nodup_iff.mpr distinct) (size ▸ several) member
  have inside : step ∈ roundSteps (otherCycle ++ [other]) := by
    rw [round_steps_concat_head otherHead]
    exact List.mem_append_left _ member
  -- The second closed form could owe this step to the pair that closes the first one, but that pair
  -- has the same node twice.
  have listed := retells.pairs step inside
  simp only [round_steps_concat_head head, List.mem_append, List.mem_singleton] at listed
  rcases listed with (along | rfl) | ⟨reversible, against | itself⟩
  · exact trip.joined several step along
  · exact absurd rfl different
  · exact reversible.joined (trip.joined several step.swap against)
  · obtain rfl := Prod.swap_eq_iff_eq_swap.mp itself
    exact absurd rfl different

theorem Retells.is_tour (retells : graph.Retells first second)
    (alike : graph.IsClosed first ↔ graph.IsClosed second) (passed : graph.isTour first = true) :
    graph.isTour second = true := by
  rcases is_tour_iff_open_or_closed.mp passed with trip | ⟨closed, trip⟩
  · exact is_tour_of_is_round_trip (retells.is_round_trip trip)
  · have otherClosed := alike.mp closed
    have otherTrip := retells.is_round_trip_drop_last closed otherClosed trip
    exact is_tour_iff_open_or_closed.mpr (.inr ⟨otherClosed, otherTrip⟩)

/-- A sequence passes for a round trip just when it is one, or is closed and is one without its last
node. Told from another place it still passes, and on a graph in which every edge has its reverse also
told backwards, as long as an open form stays open and a closed one closed. -/
theorem is_tour_retold (graph : Graph N W) :
    (∀ tour, graph.isTour tour = true ↔
      graph.IsRoundTrip tour ∨ graph.IsClosed tour ∧ graph.IsRoundTrip tour.dropLast) ∧
    (∀ first second, first ~r second → (graph.IsClosed first ↔ graph.IsClosed second) →
      graph.isTour first = graph.isTour second) ∧
    (graph.Reversible → ∀ first second, sameCycle first second = true →
      (graph.IsClosed first ↔ graph.IsClosed second) →
        graph.isTour first = graph.isTour second) := by
  refine ⟨fun _ => is_tour_iff_open_or_closed, ?_, ?_⟩
  · intro first second rotated alike
    rw [Bool.eq_iff_iff]
    exact ⟨(Retells.of_is_rotated rotated).is_tour alike,
      (Retells.of_is_rotated rotated.symm).is_tour alike.symm⟩
  · intro reversible first second same alike
    rw [Bool.eq_iff_iff]
    exact ⟨(Retells.of_same_cycle reversible same).is_tour alike,
      (Retells.of_same_cycle reversible (same_cycle_symm same)).is_tour alike.symm⟩

theorem is_tour_retold_triangle :
    let graph : Graph Int Int32 :=
      ofEdges [⟨1, 2, 5⟩, ⟨2, 3, 5⟩, ⟨3, 1, 5⟩, ⟨2, 1, 5⟩, ⟨3, 2, 5⟩, ⟨1, 3, 5⟩]
    graph.isTour [1, 2, 3] = true ∧ graph.isTour [1, 2, 3] = graph.isTour [3, 1, 2] ∧
      graph.isTour [1, 2, 3] = graph.isTour [1, 3, 2] ∧
      graph.isTour [1, 2, 3, 1] = graph.isTour [1, 3, 2, 1] := by
  intro graph
  have reversible : graph.Reversible := by decide +kernel
  refine ⟨by decide +kernel, ?_, ?_, ?_⟩
  · exact (is_tour_retold graph).2.1 _ _ ⟨2, rfl⟩ (by decide +kernel)
  · exact (is_tour_retold graph).2.2 reversible _ _ (by decide) (by decide +kernel)
  · exact (is_tour_retold graph).2.2 reversible _ _ (by decide) (by decide +kernel)

/-- A single node is no closed form of nothing, though it is one node more than none and its own last
one; and a closed form that is turned repeats its first node inside. -/
theorem is_tour_lone_and_turned :
    let nothing : Graph Int Int32 := empty
    let pair : Graph Int Int32 := ofEdges [⟨1, 2, 1⟩, ⟨2, 1, 1⟩]
    (nothing.isTour [7] = false ∧ [7].length = nothing.nodeCount + 1 ∧
      ([7] : List Int).head? = [7].getLast? ∧ nothing.IsRoundTrip [7].dropLast) ∧
    (pair.Reversible ∧ sameCycle ([1, 2, 1] : List Int) [1, 1, 2] = true ∧
      pair.isTour [1, 2, 1] = true ∧ pair.isTour [1, 1, 2] = false) := by
  refine ⟨⟨by decide +kernel, rfl, rfl, .refl _, ?_⟩, ?_⟩
  · intro several
    cases several
  · decide +kernel

end Graph

end FlowTour
