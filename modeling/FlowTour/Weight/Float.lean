import FlowTour.Decimal.Shortest
import FlowTour.Weight.Basic

/-!
Floating-point weights. Checked arithmetic never fails here, since results round and may become
infinite. What rounding leaves behind counts as nothing: a weight is negligible when it stays within
a tolerance relative to the scale, and the scale counts as at least one.
-/

namespace FlowTour

instance : Weight Float where
  decidableLT := inferInstance
  decidableLE := inferInstance
  tryAdd left right := some (left + right)
  trySub left right := some (left - right)
  tryMul left right := some (left * right)
  neutral := -0.0
  isNegligible weight scale :=
    let size (value : Float) := if value < 0.0 then -value else value
    let atLeastOne := if 1.0 < size scale then size scale else 1.0
    size weight ≤ 1e-9 * atLeastOne
  display weight := Decimal.Layout.double.text weight.toBits.toNat
  rank weight := weight.toBits.toNat

instance : Weight Float32 where
  decidableLT := inferInstance
  decidableLE := inferInstance
  tryAdd left right := some (left + right)
  trySub left right := some (left - right)
  tryMul left right := some (left * right)
  neutral := -0.0
  isNegligible weight scale :=
    let size (value : Float32) := if value < 0.0 then -value else value
    let atLeastOne := if 1.0 < size scale then size scale else 1.0
    size weight ≤ 1e-5 * atLeastOne
  display weight := Decimal.Layout.single.text weight.toBits.toNat
  rank weight := weight.toBits.toNat

end FlowTour
