/-!
A vertex of a flow network with two terminals attached: the source, the sink, or a node of the
underlying graph. In a dense layout the nodes come first and the terminals follow them.
-/

namespace FlowTour

inductive Vertex (Id : Type) where
  | source
  | sink
  | node (id : Id)
  deriving DecidableEq, Repr

namespace Vertex

def id? {Id : Type} : Vertex Id → Option Id
  | source => none
  | sink => none
  | node id => some id

def slot (nodeCount : Nat) : Vertex Nat → Nat
  | node index => index
  | source => nodeCount
  | sink => nodeCount + 1

def place {nodeCount : Nat} : Vertex (Fin nodeCount) → Fin (nodeCount + 2)
  | node index => index.castAdd 2
  | source => ⟨nodeCount, by omega⟩
  | sink => ⟨nodeCount + 1, by omega⟩

/-- The source comes first and the sink second; nodes follow in their own order. -/
def order {Id : Type} (compareIds : Id → Id → Ordering) : Vertex Id → Vertex Id → Ordering
  | source, source => .eq
  | source, _ => .lt
  | _, source => .gt
  | sink, sink => .eq
  | sink, _ => .lt
  | _, sink => .gt
  | node left, node right => compareIds left right

variable {Id : Type} {compareIds : Id → Id → Ordering}

instance [Std.TransCmp compareIds] : Std.TransCmp (order compareIds) where
  eq_swap {left right} := by
    cases left <;> cases right
    case node.node left right =>
      exact (Std.OrientedCmp.eq_swap : compareIds left right = (compareIds right left).swap)
    all_goals rfl
  isLE_trans {left middle right} := by
    cases left <;> cases middle <;> cases right <;> simp [order]
    exact Std.TransCmp.isLE_trans

instance [Std.LawfulEqCmp compareIds] : Std.LawfulEqCmp (order compareIds) where
  compare_self {vertex} := by
    cases vertex <;> simp only [order]
    exact Std.ReflCmp.compare_self
  eq_of_compare {left right} := by
    cases left <;> cases right <;> simp [order]

end Vertex

end FlowTour
