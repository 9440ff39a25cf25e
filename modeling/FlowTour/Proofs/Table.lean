import Mathlib.Data.Fin.Basic

/-!
Reading tables that were filled, changed or joined at indices of their own length.
-/

namespace FlowTour.Table

variable {n m : Nat} {Value Other : Type}

theorem get_set (table : Vector Value n) (place : Fin n) (value : Value) (other : Fin n) :
    (table.set place.val value place.isLt).get other =
      if place = other then value else table.get other := by
  change (table.set place.val value place.isLt)[other.val] = _
  rw [Vector.getElem_set]
  simp only [Fin.ext_iff]
  rfl

theorem eq_of_get {first second : Vector Value n}
    (same : ∀ place, first.get place = second.get place) : first = second :=
  Vector.ext fun index bound => same ⟨index, bound⟩

@[simp] theorem get_replicate (value : Value) (place : Fin n) :
    (Vector.replicate n value).get place = value :=
  Vector.getElem_replicate place.isLt

@[simp] theorem get_of_fn (value : Fin n → Value) (place : Fin n) :
    (Vector.ofFn value).get place = value place :=
  Vector.getElem_ofFn place.isLt

@[simp] theorem get_map (table : Vector Value n) (change : Value → Other) (place : Fin n) :
    (table.map change).get place = change (table.get place) :=
  Vector.getElem_map change place.isLt

@[simp] theorem get_append_left (first : Vector Value n) (second : Vector Value m)
    (place : Fin n) : (first ++ second).get (place.castAdd m) = first.get place :=
  Vector.getElem_append_left place.isLt

@[simp] theorem get_append_right (first : Vector Value n) (second : Vector Value m)
    (place : Fin m) : (first ++ second).get (place.natAdd n) = second.get place := by
  change (first ++ second)[n + place.val] = second[place.val]
  rw [Vector.getElem_append_right (by omega) (by omega)]
  simp

end FlowTour.Table
