import FlowTour.Graph.Path
import Mathlib.Data.List.Rotate

/-!
Two sequences are the same round trip exactly when one is a rotation of the other, or of the other
reversed. The program never reverses a list: it reads around from an anchor, forwards or backwards,
so the work here is to say which rotation each of the two readings is.
-/

namespace FlowTour

variable {N : Type}

theorem exists_rotate_lt {size : Nat} {sequence other : List N} (length : sequence.length = size)
    (nonempty : 0 < size) (rotated : sequence ~r other) :
    ∃ start < size, sequence.rotate start = other := by
  obtain ⟨amount, same⟩ := rotated
  refine ⟨amount % size, Nat.mod_lt _ nonempty, ?_⟩
  rw [← length, List.rotate_mod, same]

theorem backwards_place {size index : Nat} (startInside : start < size) (inside : index < size) :
    size - 1 - (index + (size - 1 - start)) % size = (start + size - index) % size := by
  rcases Nat.lt_or_ge start index with beyond | before
  · have wrapped : index + (size - 1 - start) = index - 1 - start + size := by omega
    rw [wrapped, Nat.add_mod_right, Nat.mod_eq_of_lt (by omega), Nat.mod_eq_of_lt (by omega)]
    omega
  · have wrapped : start + size - index = start - index + size := by omega
    rw [wrapped, Nat.add_mod_right, Nat.mod_eq_of_lt (by omega), Nat.mod_eq_of_lt (by omega)]
    omega

variable [DecidableEq N] {first second third : List N} {start : Nat}

theorem reads_as_iff {place : Nat → Nat} :
    readsAs first second place = true ↔
      ∀ index < second.length, second[index]? = first[place index]? := by
  simp only [readsAs, List.all_eq_true, List.mem_range, decide_eq_true_eq]

theorem reads_as_iff_eq {other : List N} {place : Nat → Nat}
    (lengths : other.length = second.length)
    (reads : ∀ index < second.length, other[index]? = first[place index]?) :
    readsAs first second place = true ↔ other = second := by
  rw [reads_as_iff]
  constructor
  · intro same
    refine List.ext_getElem? fun index => ?_
    by_cases inside : index < second.length
    · rw [reads index inside, same index inside]
    · rw [List.getElem?_eq_none (by omega), List.getElem?_eq_none (by omega)]
  · rintro rfl index inside
    exact reads index inside

theorem reads_as_forward (lengths : first.length = second.length) :
    readsAs first second (fun index => (start + index) % first.length) = true ↔
      first.rotate start = second := by
  refine reads_as_iff_eq (by rw [List.length_rotate, lengths]) fun index inside => ?_
  rw [List.getElem?_rotate (by omega), Nat.add_comm]

theorem reads_as_backward (lengths : first.length = second.length) (inside : start < first.length) :
    readsAs first second (fun index => (start + first.length - index) % first.length) = true ↔
      first.reverse.rotate (first.length - 1 - start) = second := by
  refine reads_as_iff_eq (by rw [List.length_rotate, List.length_reverse, lengths])
    fun index indexInside => ?_
  rw [List.getElem?_rotate (by rw [List.length_reverse]; omega), List.length_reverse,
    List.getElem?_reverse (Nat.mod_lt _ (by omega)), backwards_place inside (by omega)]

/-- The anchor is no further demand: a reading from a place shows what stands there first. -/
theorem anchored_of_reads_as {place : Nat → Nat} (reads : readsAs first second place = true)
    (nonempty : 0 < second.length) (anchor : place 0 = start) : first[start]? = second[0]? := by
  rw [reads_as_iff.mp reads 0 nonempty, anchor]

theorem same_cycle_iff :
    sameCycle first second = true ↔ first ~r second ∨ first.reverse ~r second := by
  simp only [sameCycle, Bool.and_eq_true, Bool.or_eq_true, decide_eq_true_eq, List.any_eq_true,
    List.mem_range]
  constructor
  · rintro ⟨lengths, empty | ⟨start, inside, -, forwards | backwards⟩⟩
    · have none : second = [] := List.length_eq_zero_iff.mp (lengths ▸ empty)
      rw [List.length_eq_zero_iff.mp empty, none]
      exact .inl (.refl _)
    · exact .inl ⟨start, (reads_as_forward lengths).mp forwards⟩
    · exact .inr ⟨_, (reads_as_backward lengths inside).mp backwards⟩
  · intro rotated
    have lengths : first.length = second.length := by
      rcases rotated with same | reversed
      · exact same.perm.length_eq
      · rw [← reversed.perm.length_eq, List.length_reverse]
    refine ⟨lengths, (Nat.eq_zero_or_pos first.length).imp_right fun nonempty => ?_⟩
    rcases rotated with same | reversed
    · obtain ⟨start, inside, same⟩ := exists_rotate_lt rfl nonempty same
      have reads := (reads_as_forward lengths).mpr same
      have anchor : first[start]? = second[0]? :=
        anchored_of_reads_as reads (lengths ▸ nonempty) (by simp [Nat.mod_eq_of_lt inside])
      exact ⟨start, inside, anchor, .inl reads⟩
    · obtain ⟨amount, inside, same⟩ := exists_rotate_lt List.length_reverse nonempty reversed
      -- The place whose reversed reading starts `amount` places into the reversed list.
      have placeInside : first.length - 1 - amount < first.length := by omega
      have back : first.length - 1 - (first.length - 1 - amount) = amount := by omega
      have reads := (reads_as_backward lengths placeInside).mpr (back.symm ▸ same)
      have anchor : first[first.length - 1 - amount]? = second[0]? :=
        anchored_of_reads_as reads (lengths ▸ nonempty) (by simp [Nat.mod_eq_of_lt placeInside])
      exact ⟨_, placeInside, anchor, .inr reads⟩

theorem same_cycle_refl : sameCycle first first = true := same_cycle_iff.mpr (.inl (.refl _))

theorem same_cycle_symm (same : sameCycle first second = true) : sameCycle second first = true := by
  refine same_cycle_iff.mpr ((same_cycle_iff.mp same).imp List.IsRotated.symm fun reversed => ?_)
  exact (List.isRotated_reverse_comm_iff.mp reversed).symm

theorem same_cycle_trans (same : sameCycle first second = true)
    (further : sameCycle second third = true) : sameCycle first third = true := by
  refine same_cycle_iff.mpr ?_
  rcases same_cycle_iff.mp same with same | reversed
  · exact (same_cycle_iff.mp further).imp same.trans same.reverse.trans
  · rcases same_cycle_iff.mp further with further | again
    · exact .inr (reversed.trans further)
    · refine .inl (List.IsRotated.trans ?_ again)
      exact List.isRotated_reverse_comm_iff.mp reversed

/-- Being the same round trip is being a rotation, forwards or reversed, and an equivalence: so
round trips may be compared from any of their places, in either direction. -/
theorem same_cycle_is_rotation :
    (∀ first second : List N,
      sameCycle first second = true ↔ first ~r second ∨ first.reverse ~r second) ∧
    Equivalence fun first second : List N => sameCycle first second = true :=
  ⟨fun _ _ => same_cycle_iff, fun _ => same_cycle_refl, same_cycle_symm, same_cycle_trans⟩

example : sameCycle [1, 1, 2, 3] [2, 1, 1, 3] = true := by decide

end FlowTour
