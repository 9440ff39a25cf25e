import FlowTour.Graph.Basic

/-!
Sequences of nodes read as paths: their length, whether they follow edges, whether they visit every
node in a round trip, and when two of them describe the same undirected round trip.
-/

namespace FlowTour

/-- Consecutive pairs. -/
def steps {N : Type} (path : List N) : List (N × N) := path.zip path.tail

namespace Graph

variable {N W : Type} [NodeKey N] (graph : Graph N W)

/-- Sums the weights along a path; a missing edge is found when the sum gets there. -/
def pathDistance [Weight W] (path : List N) : Except (Failure N W) W :=
  (steps path).foldlM (fun sum step => do
    let weight ← graph.requireEdge step.1 step.2
    match Weight.tryAdd sum weight with
    | none => .error .arithmeticOverflow
    | some sum => .ok sum) 0

/-- Reports the first node that is not in the graph, and only then the first missing edge. -/
def checkPath (path : List N) : Except (Failure N W) Unit :=
  match path.find? fun node => !graph.contains node with
  | some node => .error (.nodeNotFound node)
  | none =>
      match (steps path).find? fun step => (graph.weight? step.1 step.2).isNone with
      | some step => .error (.missingEdge step.1 step.2)
      | none => .ok ()

def hasPath (path : List N) : Bool := (graph.checkPath path).toOption.isSome

/-- Drops the last node of a round trip that repeats its first node there. -/
def openForm (tour : List N) : List N :=
  if tour.length = graph.nodeCount + 1 ∧ 2 ≤ tour.length ∧ tour.head? = tour.getLast? then
    tour.dropLast
  else tour

/-- Whether a round trip, open or closed, visits every node once and follows edges all the way back
to its first node. A single node needs no edge. -/
def isTour (tour : List N) : Bool :=
  let stops := graph.openForm tour
  stops.length = graph.nodeCount && stops.Nodup &&
    match stops with
    | [] => true
    | [only] => graph.contains only
    | first :: second :: rest =>
        graph.hasPath stops &&
          (graph.weight? ((second :: rest).getLast (by simp)) first).isSome

end Graph

section Rotation

variable {N : Type} [DecidableEq N]

/-- Whether the second sequence shows, place by place, what the first one has at the given places. -/
def readsAs (first second : List N) (place : Nat → Nat) : Bool :=
  (List.range second.length).all fun index => second[index]? = first[place index]?

/-- Whether two sequences describe the same closed, undirected round trip: the second one reads the
first one around from some place, forwards or backwards. -/
def sameCycle (first second : List N) : Bool :=
  let size := first.length
  size = second.length &&
    (size = 0 ||
      (List.range size).any fun start =>
        first[start]? = second[0]? &&
          (readsAs first second (fun index => (start + index) % size) ||
            readsAs first second (fun index => (start + size - index) % size)))

end Rotation

end FlowTour
