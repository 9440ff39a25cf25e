import FlowTour.Text.Quoted
import FlowTour.Vertex

/-!
Node keys: anything with a lawful linear order and a text that tells keys apart in messages.
Integers, strings, characters, pairs of keys, and vertices of an extended network are keys. Strings
and characters are ordered by code point and pairs lexicographically.
-/

namespace FlowTour

class NodeKey (N : Type) extends Ord N, Std.TransOrd N, Std.LawfulEqOrd N where
  decideEq : DecidableEq N
  /-- The text of a key inside messages. -/
  debug : N → String

namespace NodeKey

variable {N : Type} [NodeKey N]

instance : DecidableEq N := decideEq

instance decidableMem (node : N) (nodes : List N) : Decidable (node ∈ nodes) := inferInstance

instance : NodeKey Int where
  decideEq := inferInstance
  debug key := toString key

instance : NodeKey String where
  decideEq := inferInstance
  debug := Text.quoteString

instance : NodeKey Char where
  decideEq := inferInstance
  debug := Text.quoteChar

instance {M : Type} [NodeKey M] : NodeKey (M × N) :=
  letI : Ord (M × N) := lexOrd
  { eq_swap := Std.OrientedCmp.eq_swap
    isLE_trans := Std.TransCmp.isLE_trans
    compare_self := Std.ReflCmp.compare_self
    eq_of_compare := Std.LawfulEqCmp.eq_of_compare
    decideEq := inferInstance
    debug := fun key => "(" ++ debug key.1 ++ ", " ++ debug key.2 ++ ")" }

instance : NodeKey (Vertex N) where
  compare := Vertex.order compare
  eq_swap := Std.OrientedCmp.eq_swap
  isLE_trans := Std.TransCmp.isLE_trans
  compare_self := Std.ReflCmp.compare_self
  eq_of_compare := Std.LawfulEqCmp.eq_of_compare
  decideEq := inferInstance
  debug
    | .source => "Source"
    | .sink => "Sink"
    | .node id => "WithId(" ++ debug id ++ ")"

end NodeKey

end FlowTour
