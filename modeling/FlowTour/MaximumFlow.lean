import FlowTour.Graph.Basic
import FlowTour.Report
import FlowTour.Residual.Search
import FlowTour.Traced

/-!
Maximum flows and minimum cuts. A flow grows along augmenting paths with the fewest arcs until none
is left; the edges that then lead out of the part still reachable from the source are a cut, and
their capacities sum to the value of the flow.
-/

namespace FlowTour

namespace MaximumFlow

variable {n m : Nat} {N W : Type} [NodeKey N] [Weight W]

structure State (n m : Nat) (W : Type) where
  network : Residual n m W
  value : W
  augmentations : Nat

def augment (source target : Fin n) (state : State n m W) :
    Traced (Progress W) Overflow (Option (State n m W)) :=
  match state.network.augmentingPath? source target with
  | none => pure none
  | some path =>
      match state.network.bottleneck path with
      | none => pure none
      | some amount => do
          Traced.note (.augmented path.length amount)
          let network ← Traced.ofOption .overflow (state.network.pushAll path amount)
          let value ← Traced.ofOption .overflow (Weight.tryAdd state.value amount)
          return some { network, value, augmentations := state.augmentations + 1 }

/-- With paths as short as possible, at most one augmentation for every node and link is needed,
and one more look to see that none is left. -/
def saturate (source target : Fin n) (network : Residual n m W) :
    Traced (Progress W) Overflow (State n m W) := do
  let final ← iterate (augment source target) (n * m + 1) ⟨network, 0, 0⟩
  Traced.note (.flowFound final.value final.augmentations)
  return final

def links (graph : Graph N W) : Vector (Link graph.nodeCount W) graph.edgeCount :=
  Vector.ofFn fun index =>
    { tail := graph.sourceIndex index
      head := graph.targetIndex index
      capacity := some (graph.edge index).weight
      cost := 0 }

/-- Both terminals have to be in the graph and differ, and no capacity may be negative. -/
def terminals (graph : Graph N W) (source target : N) :
    Except (Failure N W) (Fin graph.nodeCount × Fin graph.nodeCount) := do
  let start ← graph.require source
  let finish ← graph.require target
  if start = finish then .error (.sameTerminals (graph.key start))
  else do
    graph.refuseNegative .capacity
    return (start, finish)

def solve (graph : Graph N W) (source target : N) :
    Traced (Progress W) (Failure N W)
      (Fin graph.nodeCount × State graph.nodeCount graph.edgeCount W) := do
  let (start, finish) ← Traced.ofExcept (terminals graph source target)
  let final ← (saturate start finish (Residual.ofLinks (links graph))).mapFailure .ofOverflow
  return (start, final)

end MaximumFlow

namespace Graph

variable {N W : Type} [NodeKey N] [Weight W]

def maximumFlow (graph : Graph N W) (source target : N) :
    Traced (Progress W) (Failure N W) (W × Graph N W) := do
  let (_, final) ← MaximumFlow.solve graph source target
  return (final.value, graph.reweight fun index => final.network.sent.get index)

/-- The edges of a minimum cut: those that leave what the source still reaches. -/
def minimumCut (graph : Graph N W) (source target : N) :
    Traced (Progress W) (Failure N W) (Std.TreeSet (N × N)) := do
  let (start, final) ← MaximumFlow.solve graph source target
  let marks := final.network.breadthFirst start none
  let crossing := (List.finRange graph.edgeCount).filter fun index =>
    (marks.get (graph.sourceIndex index)).isSeen && !(marks.get (graph.targetIndex index)).isSeen
  return Std.TreeSet.ofList (crossing.map fun index => (graph.edge index).ends)

end Graph

end FlowTour
