import FlowTour.Tour.Basic

/-!
The nearest-neighbour tour: from the first node always on to the closest node not visited yet. The
walk may get stuck although the graph has a tour.
-/

namespace FlowTour.Tour

variable {n : Nat} {N W : Type} [NodeKey N] [Weight W]

/-- The closest of some nodes, the first one on ties. -/
def closest? (distances : Distances n W) (origin : Fin n) (candidates : List (Fin n)) :
    Option (Fin n) :=
  let reachable := candidates.filterMap fun node =>
    (distances.get origin node).map fun weight => (node, weight)
  match reachable with
  | [] => none
  | first :: rest =>
      some (rest.foldl (fun best next => if best.2 ≤ next.2 then best else next) first).1

def nearestFrom? (distances : Distances n W) : Nat → Trail n → Option (Trail n)
  | 0, trail => some trail
  | steps + 1, trail =>
      (closest? distances trail.last trail.remaining).bind fun node =>
        nearestFrom? distances steps (trail.extend node)

/-- The walk from a node, if it neither gets stuck nor ends where it cannot return. -/
def nearestNeighbor? (distances : Distances n W) (start : Fin n) : Option (List (Fin n)) :=
  (nearestFrom? distances (n - 1) ⟨start, []⟩).bind fun trail =>
    if n = 1 ∨ (distances.get trail.last start).isSome then some trail.nodes else none

/-- A stuck walk rules out a tour only where some node cannot be left or entered at all. -/
def walkTour {Event : Type} [Journal W Event] (graph : Graph N W) :
    Traced Event (Failure N W) (Tour N W) := do
  let distances ← Traced.ofExcept (Distances.ofGraph graph)
  if filled : 0 < graph.nodeCount then
    match nearestNeighbor? distances ⟨0, filled⟩ with
    | none =>
        Journal.tell .walkStuck
        Traced.fail (if distances.hasDeadEnd then .noTour else .heuristicFailed)
    | some stops =>
        let length? ← (distances.sumTour stops).attempt
        let distance ← Traced.ofOption .noTour length?
        Journal.tell (.nearestTour distance)
        return ofIndices graph distance stops (graph.nodeCount = 1)
  else Traced.fail .noTour

def greedy (graph : Graph N W) : Traced (Progress W) (Failure N W) (Tour N W) := walkTour graph

end FlowTour.Tour
