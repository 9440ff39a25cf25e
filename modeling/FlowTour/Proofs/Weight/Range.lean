import FlowTour.Proofs.Weight.Exact

/-!
Which integers a weight type holds. They are an interval around zero that has the opposite of every
weight that is not negative, so a checked operation answers as soon as its exact result lies between
two integers in range. Among the unbounded integers it always answers.
-/

namespace FlowTour.IntegerWeight

open Weight

/-- Some weight is this integer. -/
def InRange (W : Type) [IntegerWeight W] (value : Int) : Prop := ∃ weight : W, toInt weight = value

variable {W : Type} [IntegerWeight W] {value low high : Int}

theorem in_range_iff : InRange W value ↔ (ofInt? value : Option W).isSome = true := by
  rw [Option.isSome_iff_exists]
  exact exists_congr fun weight => of_int?_eq_some_iff.symm

instance : Decidable (InRange W value) := decidable_of_iff _ in_range_iff.symm

theorem in_range_to_int (weight : W) : InRange W (toInt weight) := ⟨weight, rfl⟩

theorem in_range_zero : InRange W 0 := ⟨0, to_int_zero⟩

theorem InRange.of_between (lowest : InRange W low) (highest : InRange W high)
    (atLeast : low ≤ value) (atMost : value ≤ high) : InRange W value := by
  obtain ⟨first, rfl⟩ := lowest
  obtain ⟨last, rfl⟩ := highest
  exact exists_to_int_eq atLeast atMost

theorem InRange.of_nonneg_of_le (highest : InRange W high) (nonneg : 0 ≤ value)
    (atMost : value ≤ high) : InRange W value :=
  in_range_zero.of_between highest nonneg atMost

theorem InRange.neg (inRange : InRange W value) (nonneg : 0 ≤ value) : InRange W (-value) := by
  obtain ⟨weight, rfl⟩ := inRange
  exact in_range_iff.mpr (of_int?_neg_is_some nonneg)

theorem InRange.of_neg_le (highest : InRange W high) (atLeast : -high ≤ value) (atMost : value ≤ 0) :
    InRange W value :=
  (highest.neg (by omega)).of_between in_range_zero atLeast atMost

theorem try_add_is_some_iff {left right : W} :
    (tryAdd left right).isSome = true ↔ InRange W (toInt left + toInt right) := by
  rw [try_add_eq_of_int?, in_range_iff]

theorem try_sub_is_some_iff {left right : W} :
    (trySub left right).isSome = true ↔ InRange W (toInt left - toInt right) := by
  rw [try_sub_eq_of_int?, in_range_iff]

theorem try_mul_is_some_iff {left right : W} :
    (tryMul left right).isSome = true ↔ InRange W (toInt left * toInt right) := by
  rw [try_mul_eq_of_int?, in_range_iff]

/-- A checked sum whose items are not negative answers when the whole sum is in range, if each step
does when its result is. -/
theorem exists_foldlm_sum {Item : Type} {step : W → Item → Option W} {value : Item → Int}
    {items : List Item} (nonneg : ∀ item ∈ items, 0 ≤ value item)
    (answers : ∀ item ∈ items, ∀ sum, 0 ≤ toInt sum → InRange W (toInt sum + value item) →
      ∃ next, step sum item = some next ∧ toInt next = toInt sum + value item)
    {start : W} (startNonneg : 0 ≤ toInt start)
    (highest : InRange W (toInt start + (items.map value).sum)) :
    ∃ sum, items.foldlM step start = some sum := by
  induction items generalizing start with
  | nil => exact ⟨start, rfl⟩
  | cons item rest induction =>
      have here := nonneg item (List.mem_cons_self ..)
      have laterNonneg : ∀ other ∈ rest, 0 ≤ value other := by
        intro other member
        exact nonneg other (List.mem_cons_of_mem _ member)
      have restNonneg := sum_map_nonneg laterNonneg
      rw [List.map_cons, List.sum_cons] at highest
      obtain ⟨next, stepped, exact⟩ := answers item (List.mem_cons_self ..) start startNonneg
        (highest.of_nonneg_of_le (by omega) (by omega))
      have fits : InRange W (toInt next + (rest.map value).sum) := by
        rw [exact, Int.add_assoc]
        exact highest
      obtain ⟨final, others⟩ := induction laterNonneg
        (fun other member => answers other (List.mem_cons_of_mem _ member)) (by omega) fits
      rw [List.foldlM_cons]
      exact ⟨final, Option.bind_eq_some_iff.mpr ⟨next, stepped, others⟩⟩

theorem total?_eq_some {weights : List W} (nonneg : ∀ weight ∈ weights, 0 ≤ toInt weight) {sum : W}
    (exact : (weights.map toInt).sum = toInt sum) : total? weights = some sum := by
  have answers : ∀ weight ∈ weights, ∀ start : W, 0 ≤ toInt start →
      InRange W (toInt start + toInt weight) →
        ∃ next, tryAdd start weight = some next ∧ toInt next = toInt start + toInt weight := by
    intro weight _ start _ inRange
    obtain ⟨next, added⟩ := Option.isSome_iff_exists.mp (try_add_is_some_iff.mpr inRange)
    exact ⟨next, added, try_add_eq_some_iff.mp added⟩
  have highest : InRange W (toInt (0 : W) + (weights.map toInt).sum) := by
    rw [to_int_zero, Int.zero_add, exact]
    exact in_range_to_int sum
  obtain ⟨other, found⟩ := exists_foldlm_sum nonneg answers to_int_zero.ge highest
  have total : total? weights = some other := found
  rw [total, to_int_injective ((to_int_total? total).trans exact)]

theorem exists_sum_products {Item : Type} {first second : Item → W}
    (nonneg : ∀ item, 0 ≤ toInt (first item) * toInt (second item)) (items : List Item) {start : W}
    (startNonneg : 0 ≤ toInt start)
    (highest : InRange W (toInt start +
      (items.map fun item => toInt (first item) * toInt (second item)).sum)) :
    ∃ sum, items.foldlM (fun sum item => do
      let share ← tryMul (first item) (second item)
      tryAdd sum share) start = some sum := by
  apply exists_foldlm_sum (fun item _ => nonneg item) _ startNonneg highest
  intro item _ sum sumNonneg inRange
  have product := inRange.of_nonneg_of_le (nonneg item) (by omega)
  obtain ⟨share, multiplied⟩ := Option.isSome_iff_exists.mp (try_mul_is_some_iff.mpr product)
  have exact := try_mul_eq_some_iff.mp multiplied
  rw [← exact] at inRange ⊢
  obtain ⟨next, added⟩ := Option.isSome_iff_exists.mp (try_add_is_some_iff.mpr inRange)
  exact ⟨next, Option.bind_eq_some_iff.mpr ⟨share, multiplied, added⟩, try_add_eq_some_iff.mp added⟩

section Exact

/-- A weight among all integers, where nothing is out of range. -/
def exact (weight : W) : Unbounded := toInt weight

theorem in_range_unbounded (value : Int) : InRange Unbounded value := ⟨value, rfl⟩

@[simp] theorem to_int_exact (weight : W) : toInt (exact weight) = toInt weight := rfl

@[simp] theorem exact_zero : exact (0 : W) = 0 := by
  apply to_int_injective
  rw [to_int_exact, to_int_zero, to_int_zero]

theorem exact_lt_iff {left right : W} : exact left < exact right ↔ left < right := by
  rw [lt_iff_to_int_lt, lt_iff_to_int_lt, to_int_exact, to_int_exact]

@[simp] theorem is_positive_exact (weight : W) : isPositive (exact weight) = isPositive weight := by
  rw [Bool.eq_iff_iff, is_positive_iff, is_positive_iff, to_int_exact]

@[simp] theorem is_negative_exact (weight : W) : isNegative (exact weight) = isNegative weight := by
  rw [Bool.eq_iff_iff, is_negative_iff, is_negative_iff, to_int_exact]

end Exact

end FlowTour.IntegerWeight
