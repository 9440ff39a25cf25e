import FlowTour.Weight.Integer
import Mathlib.Algebra.BigOperators.Group.List.Basic
import Mathlib.Algebra.Order.BigOperators.Group.List
import Mathlib.Algebra.Ring.Int.Defs
import Mathlib.Order.Lattice

/-!
Whole-number weights seen as integers. Every operation that answers is exact, a plain sum is exact
wherever it stays between two weights, and the smallest of some weights is the smallest integer.
-/

namespace FlowTour.IntegerWeight

open Weight

variable {W : Type} [IntegerWeight W]

theorem to_int_injective : Function.Injective (toInt : W → Int) := by
  intro left right same
  have here : ofInt? (toInt right) = some left := of_int?_eq_some_iff.mpr same
  have there : ofInt? (toInt right) = some right := of_int?_eq_some_iff.mpr rfl
  exact Option.some.inj (here.symm.trans there)

theorem try_add_eq_some_iff {left right sum : W} :
    tryAdd left right = some sum ↔ toInt sum = toInt left + toInt right := by
  rw [try_add_eq_of_int?, of_int?_eq_some_iff]

theorem try_sub_eq_some_iff {left right difference : W} :
    trySub left right = some difference ↔ toInt difference = toInt left - toInt right := by
  rw [try_sub_eq_of_int?, of_int?_eq_some_iff]

theorem try_mul_eq_some_iff {left right product : W} :
    tryMul left right = some product ↔ toInt product = toInt left * toInt right := by
  rw [try_mul_eq_of_int?, of_int?_eq_some_iff]

theorem exists_to_int_eq {low high : W} {value : Int} (atLeast : toInt low ≤ value)
    (atMost : value ≤ toInt high) : ∃ weight : W, toInt weight = value := by
  obtain ⟨weight, found⟩ := Option.isSome_iff_exists.mp (of_int?_is_some_of_between atLeast atMost)
  exact ⟨weight, of_int?_eq_some_iff.mp found⟩

theorem to_int_add {left right low high : W} (atLeast : toInt low ≤ toInt left + toInt right)
    (atMost : toInt left + toInt right ≤ toInt high) :
    toInt (left + right) = toInt left + toInt right := by
  obtain ⟨sum, exact⟩ := exists_to_int_eq atLeast atMost
  rw [add_eq_of_fits (of_int?_eq_some_iff.mpr exact), exact]

theorem to_int_sub {left right low high : W} (atLeast : toInt low ≤ toInt left - toInt right)
    (atMost : toInt left - toInt right ≤ toInt high) :
    toInt (left - right) = toInt left - toInt right := by
  obtain ⟨difference, exact⟩ := exists_to_int_eq atLeast atMost
  rw [sub_eq_of_fits (of_int?_eq_some_iff.mpr exact), exact]

theorem to_int_neg_of_fits {weight opposite : W} (fits : toInt opposite = -toInt weight) :
    toInt (-weight) = -toInt weight := by
  rw [neg_eq_of_fits (of_int?_eq_some_iff.mpr fits), fits]

theorem to_int_neg {weight : W} (notNegative : 0 ≤ toInt weight) :
    toInt (-weight) = -toInt weight := by
  obtain ⟨opposite, found⟩ := Option.isSome_iff_exists.mp (of_int?_neg_is_some notNegative)
  exact to_int_neg_of_fits (of_int?_eq_some_iff.mp found)

theorem is_positive_iff {weight : W} : isPositive weight = true ↔ 0 < toInt weight := by
  rw [isPositive, decide_eq_true_iff, lt_iff_to_int_lt, to_int_zero]

theorem is_negative_iff {weight : W} : isNegative weight = true ↔ toInt weight < 0 := by
  rw [isNegative, decide_eq_true_iff, lt_iff_to_int_lt, to_int_zero]

theorem to_int_smaller (left right : W) :
    toInt (smaller left right) = min (toInt left) (toInt right) := by
  unfold smaller
  split
  case isTrue below =>
    have := lt_iff_to_int_lt.mp below
    omega
  case isFalse notBelow =>
    have := mt lt_iff_to_int_lt.mpr notBelow
    omega

theorem to_int_larger (left right : W) :
    toInt (larger left right) = max (toInt left) (toInt right) := by
  unfold larger
  split
  case isTrue below =>
    have := lt_iff_to_int_lt.mp below
    omega
  case isFalse notBelow =>
    have := mt lt_iff_to_int_lt.mpr notBelow
    omega

theorem to_int_foldlm_try_add {weights : List W} {start sum : W}
    (found : weights.foldlM tryAdd start = some sum) :
    toInt sum = toInt start + (weights.map toInt).sum := by
  induction weights generalizing start with
  | nil =>
      have same : start = sum := Option.some.inj found
      simp [same]
  | cons weight rest induction =>
      rw [List.foldlM_cons] at found
      obtain ⟨next, added, others⟩ := Option.bind_eq_some_iff.mp found
      rw [induction others, try_add_eq_some_iff.mp added, List.map_cons, List.sum_cons]
      omega

theorem to_int_total? {weights : List W} {sum : W} (found : total? weights = some sum) :
    toInt sum = (weights.map toInt).sum := by
  rw [to_int_foldlm_try_add found, to_int_zero, Int.zero_add]

theorem to_int_add_of_le {left right high : W} (leftNonneg : 0 ≤ toInt left)
    (rightNonneg : 0 ≤ toInt right) (atMost : toInt left + toInt right ≤ toInt high) :
    toInt (left + right) = toInt left + toInt right := by
  have atLeastZero : toInt (0 : W) ≤ toInt left + toInt right := by
    rw [to_int_zero]
    omega
  exact to_int_add atLeastZero atMost

theorem sum_map_nonneg {Item : Type} {value : Item → Int} {items : List Item}
    (nonneg : ∀ item ∈ items, 0 ≤ value item) : 0 ≤ (items.map value).sum := by
  apply List.sum_nonneg
  intro share member
  obtain ⟨item, listed, rfl⟩ := List.mem_map.mp member
  exact nonneg item listed

theorem to_int_foldl_add {weights : List W} {start high : W} (startNonneg : 0 ≤ toInt start)
    (nonneg : ∀ weight ∈ weights, 0 ≤ toInt weight)
    (atMost : toInt start + (weights.map toInt).sum ≤ toInt high) :
    toInt (weights.foldl (· + ·) start) = toInt start + (weights.map toInt).sum := by
  induction weights generalizing start with
  | nil => simp
  | cons weight rest induction =>
      have here := nonneg weight (List.mem_cons_self ..)
      have later : ∀ other ∈ rest, 0 ≤ toInt other := by
        intro other member
        exact nonneg other (List.mem_cons_of_mem _ member)
      have restNonneg := sum_map_nonneg later
      rw [List.map_cons, List.sum_cons] at atMost ⊢
      have fits : toInt start + toInt weight ≤ toInt high := by omega
      have added := to_int_add_of_le startNonneg here fits
      rw [List.foldl_cons, induction (by omega) later (by omega), added]
      omega

/-- A plain sum of weights that are not negative is exact when it fits. -/
theorem to_int_total {weights : List W} {high : W} (nonneg : ∀ weight ∈ weights, 0 ≤ toInt weight)
    (atMost : (weights.map toInt).sum ≤ toInt high) :
    toInt (total weights) = (weights.map toInt).sum := by
  have zero : toInt (neutral : W) = 0 := by rw [neutral_eq_zero, to_int_zero]
  have fits : toInt (neutral : W) + (weights.map toInt).sum ≤ toInt high := by omega
  rw [total, to_int_foldl_add zero.ge nonneg fits]
  omega

omit [IntegerWeight W] in
theorem sum_map_filter_map {Entry Item : Type} (item? : Entry → Option Item) (share : Item → Int)
    (entries : List Entry) :
    ((entries.filterMap item?).map share).sum =
      (entries.map fun entry => ((item? entry).map share).getD 0).sum := by
  induction entries with
  | nil => rfl
  | cons entry rest induction =>
      rw [List.map_cons, List.sum_cons, ← induction, List.filterMap_cons]
      cases item? entry <;> simp

section Extremes

variable {weights : List W} {least greatest : W}

theorem to_int_foldl_smaller (weights : List W) (start : W) :
    toInt (weights.foldl smaller start) ≤ toInt start ∧
      (∀ weight ∈ weights, toInt (weights.foldl smaller start) ≤ toInt weight) ∧
        (weights.foldl smaller start = start ∨ weights.foldl smaller start ∈ weights) := by
  induction weights generalizing start with
  | nil => simp
  | cons weight rest induction =>
      obtain ⟨atMostStart, atMostRest, source⟩ := induction (smaller start weight)
      have bound := to_int_smaller start weight
      rw [List.foldl_cons]
      refine ⟨by omega, ?_, ?_⟩
      · intro other member
        rcases List.mem_cons.mp member with rfl | later
        · omega
        · exact atMostRest other later
      · rcases source with same | later
        · rw [same]
          unfold smaller
          split
          · exact .inr (List.mem_cons_self ..)
          · exact .inl rfl
        · exact .inr (List.mem_cons_of_mem _ later)

theorem to_int_least?_le (found : least? weights = some least) :
    ∀ weight ∈ weights, toInt least ≤ toInt weight := by
  cases weights with
  | nil => simp [least?] at found
  | cons first rest =>
      obtain ⟨atMostFirst, atMostRest, -⟩ := to_int_foldl_smaller rest first
      rw [Option.some.inj found] at atMostFirst atMostRest
      intro weight member
      rcases List.mem_cons.mp member with rfl | later
      · exact atMostFirst
      · exact atMostRest weight later

theorem least?_mem (found : least? weights = some least) : least ∈ weights := by
  cases weights with
  | nil => simp [least?] at found
  | cons first rest =>
      obtain ⟨-, -, source⟩ := to_int_foldl_smaller rest first
      rw [Option.some.inj found] at source
      exact List.mem_cons.mpr source

omit [IntegerWeight W] in
theorem least?_is_some_of_mem [Weight W] {weight : W} (member : weight ∈ weights) :
    (least? weights).isSome := by
  cases weights with
  | nil => simp at member
  | cons first rest => rfl

theorem le_to_int_foldl_larger (weights : List W) (start : W) :
    toInt start ≤ toInt (weights.foldl larger start) ∧
      ∀ weight ∈ weights, toInt weight ≤ toInt (weights.foldl larger start) := by
  induction weights generalizing start with
  | nil => simp
  | cons weight rest induction =>
      obtain ⟨atLeastStart, atLeastRest⟩ := induction (larger start weight)
      have bound := to_int_larger start weight
      rw [List.foldl_cons]
      refine ⟨by omega, ?_⟩
      intro other member
      rcases List.mem_cons.mp member with rfl | later
      · omega
      · exact atLeastRest other later

theorem greatest?_is_some_of_mem {weight : W} (member : weight ∈ weights) :
    (greatest? weights).isSome := by
  cases weights with
  | nil => simp at member
  | cons first rest => rfl

theorem le_to_int_greatest? (found : greatest? weights = some greatest) :
    ∀ weight ∈ weights, toInt weight ≤ toInt greatest := by
  cases weights with
  | nil => simp [greatest?] at found
  | cons first rest =>
      obtain ⟨atLeastFirst, atLeastRest⟩ := le_to_int_foldl_larger rest first
      rw [Option.some.inj found] at atLeastFirst atLeastRest
      intro weight member
      rcases List.mem_cons.mp member with rfl | later
      · exact atLeastFirst
      · exact atLeastRest weight later

end Extremes

end FlowTour.IntegerWeight
