import FlowTour.Weight.Basic

/-!
Whole-number weights. A type of this kind holds an interval of the integers around zero: `toInt`
reads a weight as an integer, `ofInt?` finds the weight of an integer that fits. Checked arithmetic
is integer arithmetic followed by `ofInt?`, and plain arithmetic agrees with it wherever the exact
result fits. The two machine widths and the unbounded integers are instances.
-/

namespace FlowTour

class IntegerWeight (W : Type) extends Weight W where
  toInt : W → Int
  ofInt? : Int → Option W
  of_int?_eq_some_iff : ∀ {value : Int} {weight : W}, ofInt? value = some weight ↔ toInt weight = value
  /-- Whatever lies between two integers that fit also fits. -/
  of_int?_is_some_of_between : ∀ {low high : W} {value : Int},
    toInt low ≤ value → value ≤ toInt high → (ofInt? value).isSome
  /-- A weight that is not negative has an opposite. -/
  of_int?_neg_is_some : ∀ {weight : W}, 0 ≤ toInt weight → (ofInt? (-toInt weight)).isSome
  to_int_zero : toInt 0 = 0
  neutral_eq_zero : (neutral : W) = 0
  lt_iff_to_int_lt : ∀ {left right : W}, left < right ↔ toInt left < toInt right
  le_iff_to_int_le : ∀ {left right : W}, left ≤ right ↔ toInt left ≤ toInt right
  beq_iff_to_int_eq : ∀ {left right : W}, (left == right) = true ↔ toInt left = toInt right
  try_add_eq_of_int? : ∀ left right : W, tryAdd left right = ofInt? (toInt left + toInt right)
  try_sub_eq_of_int? : ∀ left right : W, trySub left right = ofInt? (toInt left - toInt right)
  try_mul_eq_of_int? : ∀ left right : W, tryMul left right = ofInt? (toInt left * toInt right)
  add_eq_of_fits : ∀ {left right result : W},
    ofInt? (toInt left + toInt right) = some result → left + right = result
  sub_eq_of_fits : ∀ {left right result : W},
    ofInt? (toInt left - toInt right) = some result → left - right = result
  neg_eq_of_fits : ∀ {weight result : W}, ofInt? (-toInt weight) = some result → -weight = result
  is_negligible_iff : ∀ {weight scale : W}, isNegligible weight scale = true ↔ toInt weight = 0
  rank_eq_to_nat : ∀ weight : W, rank weight = (toInt weight).toNat

namespace IntegerWeight

/-- The integers themselves, among which nothing overflows. They are a type of their own, so that plain
integers keep the arithmetic they have. -/
def Unbounded : Type := Int

instance : IntegerWeight Unbounded where
  zero := Int.ofNat 0
  add := Int.add
  sub := Int.sub
  neg := Int.neg
  lt := Int.lt
  le := Int.le
  beq (left right : Int) := left == right
  decidableLT := Int.decLt
  decidableLE := Int.decLe
  tryAdd left right := some (Int.add left right)
  trySub left right := some (Int.sub left right)
  tryMul left right := some (Int.mul left right)
  neutral := Int.ofNat 0
  isNegligible (weight : Int) _ := weight == 0
  display weight := Int.repr weight
  rank := Int.toNat
  toInt weight := weight
  ofInt? value := some value
  of_int?_eq_some_iff := Option.some_inj.trans ⟨Eq.symm, Eq.symm⟩
  of_int?_is_some_of_between _ _ := rfl
  of_int?_neg_is_some _ := rfl
  to_int_zero := rfl
  neutral_eq_zero := rfl
  lt_iff_to_int_lt := Iff.rfl
  le_iff_to_int_le := Iff.rfl
  beq_iff_to_int_eq {_ _ : Int} := beq_iff_eq
  try_add_eq_of_int? _ _ := rfl
  try_sub_eq_of_int? _ _ := rfl
  try_mul_eq_of_int? _ _ := rfl
  add_eq_of_fits := Option.some.inj
  sub_eq_of_fits := Option.some.inj
  neg_eq_of_fits := Option.some.inj
  is_negligible_iff {_ : Int} _ := beq_iff_eq
  rank_eq_to_nat _ := rfl

def int32? (value : Int) : Option Int32 :=
  if -2147483648 ≤ value ∧ value ≤ 2147483647 then some (Int32.ofInt value) else none

theorem int32_bounds (weight : Int32) :
    -2147483648 ≤ weight.toInt ∧ weight.toInt ≤ 2147483647 := by
  have low := weight.minValue_le_toInt
  have high := weight.toInt_le
  rw [Int32.toInt_minValue] at low
  rw [Int32.toInt_maxValue] at high
  omega

theorem int32?_eq_some_iff {value : Int} {weight : Int32} :
    int32? value = some weight ↔ weight.toInt = value := by
  have bounds := int32_bounds weight
  unfold int32?
  split
  case isTrue fits =>
    have same : (Int32.ofInt value).toInt = value := by
      rw [Int32.toInt_ofInt]
      exact Int.bmod_eq_of_le (by simp [Int32.size]; omega) (by simp [Int32.size]; omega)
    constructor
    · intro found
      rw [← Option.some.inj found, same]
    · intro found
      rw [Option.some.injEq, ← Int32.toInt_inj, same, found]
  case isFalse outside =>
    simp
    omega

instance : IntegerWeight Int32 where
  decidableLT := inferInstance
  decidableLE := inferInstance
  tryAdd left right := int32? (left.toInt + right.toInt)
  trySub left right := int32? (left.toInt - right.toInt)
  tryMul left right := int32? (left.toInt * right.toInt)
  neutral := 0
  isNegligible weight _ := weight == 0
  display weight := toString weight.toInt
  rank weight := weight.toInt.toNat
  toInt := Int32.toInt
  ofInt? := int32?
  of_int?_eq_some_iff := int32?_eq_some_iff
  of_int?_is_some_of_between {low high value} atLeast atMost := by
    have := int32_bounds low
    have := int32_bounds high
    rw [int32?, if_pos (by omega)]
    rfl
  of_int?_neg_is_some {weight} notNegative := by
    have := int32_bounds weight
    rw [int32?, if_pos (by omega)]
    rfl
  to_int_zero := rfl
  neutral_eq_zero := rfl
  lt_iff_to_int_lt := Int32.lt_iff_toInt_lt
  le_iff_to_int_le := Int32.le_iff_toInt_le
  beq_iff_to_int_eq := by simp [← Int32.toInt_inj]
  try_add_eq_of_int? _ _ := rfl
  try_sub_eq_of_int? _ _ := rfl
  try_mul_eq_of_int? _ _ := rfl
  add_eq_of_fits {left right result} fits := by
    have bounds := int32_bounds result
    have same := int32?_eq_some_iff.mp fits
    rw [← Int32.toInt_inj, Int32.toInt_add, same]
    exact Int.bmod_eq_of_le (by omega) (by omega)
  sub_eq_of_fits {left right result} fits := by
    have bounds := int32_bounds result
    have same := int32?_eq_some_iff.mp fits
    rw [← Int32.toInt_inj, Int32.toInt_sub, same]
    exact Int.bmod_eq_of_le (by omega) (by omega)
  neg_eq_of_fits {weight result} fits := by
    have bounds := int32_bounds result
    have same := int32?_eq_some_iff.mp fits
    rw [← Int32.toInt_inj, Int32.toInt_neg, same]
    exact Int.bmod_eq_of_le (by omega) (by omega)
  is_negligible_iff := by simp [← Int32.toInt_inj]
  rank_eq_to_nat _ := rfl

def int64? (value : Int) : Option Int64 :=
  if -9223372036854775808 ≤ value ∧ value ≤ 9223372036854775807 then some (Int64.ofInt value)
  else none

theorem int64_bounds (weight : Int64) :
    -9223372036854775808 ≤ weight.toInt ∧ weight.toInt ≤ 9223372036854775807 := by
  have low := weight.minValue_le_toInt
  have high := weight.toInt_le
  rw [Int64.toInt_minValue] at low
  rw [Int64.toInt_maxValue] at high
  omega

theorem int64?_eq_some_iff {value : Int} {weight : Int64} :
    int64? value = some weight ↔ weight.toInt = value := by
  have bounds := int64_bounds weight
  unfold int64?
  split
  case isTrue fits =>
    have same : (Int64.ofInt value).toInt = value := by
      rw [Int64.toInt_ofInt]
      exact Int.bmod_eq_of_le (by simp [Int64.size]; omega) (by simp [Int64.size]; omega)
    constructor
    · intro found
      rw [← Option.some.inj found, same]
    · intro found
      rw [Option.some.injEq, ← Int64.toInt_inj, same, found]
  case isFalse outside =>
    simp
    omega

instance : IntegerWeight Int64 where
  decidableLT := inferInstance
  decidableLE := inferInstance
  tryAdd left right := int64? (left.toInt + right.toInt)
  trySub left right := int64? (left.toInt - right.toInt)
  tryMul left right := int64? (left.toInt * right.toInt)
  neutral := 0
  isNegligible weight _ := weight == 0
  display weight := toString weight.toInt
  rank weight := weight.toInt.toNat
  toInt := Int64.toInt
  ofInt? := int64?
  of_int?_eq_some_iff := int64?_eq_some_iff
  of_int?_is_some_of_between {low high value} atLeast atMost := by
    have := int64_bounds low
    have := int64_bounds high
    rw [int64?, if_pos (by omega)]
    rfl
  of_int?_neg_is_some {weight} notNegative := by
    have := int64_bounds weight
    rw [int64?, if_pos (by omega)]
    rfl
  to_int_zero := rfl
  neutral_eq_zero := rfl
  lt_iff_to_int_lt := Int64.lt_iff_toInt_lt
  le_iff_to_int_le := Int64.le_iff_toInt_le
  beq_iff_to_int_eq := by simp [← Int64.toInt_inj]
  try_add_eq_of_int? _ _ := rfl
  try_sub_eq_of_int? _ _ := rfl
  try_mul_eq_of_int? _ _ := rfl
  add_eq_of_fits {left right result} fits := by
    have bounds := int64_bounds result
    have same := int64?_eq_some_iff.mp fits
    rw [← Int64.toInt_inj, Int64.toInt_add, same]
    exact Int.bmod_eq_of_le (by omega) (by omega)
  sub_eq_of_fits {left right result} fits := by
    have bounds := int64_bounds result
    have same := int64?_eq_some_iff.mp fits
    rw [← Int64.toInt_inj, Int64.toInt_sub, same]
    exact Int.bmod_eq_of_le (by omega) (by omega)
  neg_eq_of_fits {weight result} fits := by
    have bounds := int64_bounds result
    have same := int64?_eq_some_iff.mp fits
    rw [← Int64.toInt_inj, Int64.toInt_neg, same]
    exact Int.bmod_eq_of_le (by omega) (by omega)
  is_negligible_iff := by simp [← Int64.toInt_inj]
  rank_eq_to_nat _ := rfl

end IntegerWeight

end FlowTour
