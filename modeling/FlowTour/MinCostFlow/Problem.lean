import FlowTour.Graph.Basic
import FlowTour.Residual.Basic
import Std.Data.TreeMap

/-!
Minimum-cost flow problems: a graph of unit costs, a supply per node, and optionally a graph of
capacities. A positive supply is to be sent out, a negative one is a demand, and nodes without an
entry pass on what they get. Without a capacity graph every edge is unlimited; with one, an edge
that it lacks carries nothing.
-/

namespace FlowTour

/-- A weight per key, listed in key order. -/
abbrev KeyedWeights (N W : Type) [NodeKey N] := Std.TreeMap N W

namespace MinCostFlow

variable {N W : Type} [NodeKey N] [Weight W]

def edgeCapacity (capacity : Option (Graph N W)) (source target : N) : Option W :=
  capacity.map fun graph => (graph.weight? source target).getD 0

/-- Checks a problem and returns its total supply. Supplies and demands balance when they cancel out
up to rounding. -/
def validate (costs : Graph N W) (supply : KeyedWeights N W) (capacity : Option (Graph N W)) :
    Except (Failure N W) W :=
  match supply.keys.find? fun node => !costs.contains node with
  | some node => .error (.nodeNotFound node)
  | none =>
      let offered := Weight.total? (supply.values.filter Weight.isPositive)
      let demanded := (supply.values.filter Weight.isNegative).mapM (Weight.trySub 0)
        |>.bind Weight.total?
      match offered, demanded with
      | some offered, some demanded =>
          match Weight.trySub offered demanded with
          | none => .error .arithmeticOverflow
          | some excess =>
              if Weight.isNegligible excess offered then do
                costs.refuseNegative .cost
                match capacity with
                | none => return offered
                | some graph => do
                    graph.refuseNegative .capacity
                    return offered
              else .error .unbalanced
      | _, _ => .error .arithmeticOverflow

def edgeLinks (costs : Graph N W) (capacity : Option (Graph N W)) :
    Vector (Link (costs.nodeCount + 2) W) costs.edgeCount :=
  Vector.ofFn fun index =>
    let edge := costs.edge index
    { tail := Vertex.place (.node (costs.sourceIndex index))
      head := Vertex.place (.node (costs.targetIndex index))
      capacity := edgeCapacity capacity edge.source edge.target
      cost := edge.weight }

/-- A link from the source for every supply and one to the sink for every demand, in key order. -/
def terminalLinks (costs : Graph N W) (supply : KeyedWeights N W) :
    List (Link (costs.nodeCount + 2) W) :=
  supply.toList.filterMap fun (node, amount) =>
    (costs.index? node).bind fun index =>
      if Weight.isPositive amount then
        some ⟨Vertex.place .source, Vertex.place (.node index), some amount, 0⟩
      else if Weight.isNegative amount then
        some ⟨Vertex.place (.node index), Vertex.place .sink, some (-amount), 0⟩
      else none

/-- The cost graph with both terminals attached: the edges first, then the terminal links. -/
def extendedLinks (costs : Graph N W) (supply : KeyedWeights N W) (capacity : Option (Graph N W)) :
    Vector (Link (costs.nodeCount + 2) W)
      (costs.edgeCount + (terminalLinks costs supply).length) :=
  edgeLinks costs capacity ++ Vector.mk (terminalLinks costs supply).toArray List.size_toArray

end MinCostFlow

end FlowTour
