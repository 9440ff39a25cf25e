import FlowTour.Graph.Basic
import FlowTour.Tour.Journal

/-!
Round trips through all nodes of a graph, and the distances they are made of. The distances are kept
as a table over node indices. Before any search, the heaviest edges out of the nodes and the heaviest
edges into them must each sum up within the weight type; every tour length and every search bound
stays below one of these sums, so later additions need no check.
-/

namespace FlowTour

/-- A round trip in open form: the last node leads back to the first one. -/
structure Tour (N W : Type) where
  distance : W
  nodes : List N
  /-- Whether the tour is known to be a shortest one. -/
  optimal : Bool

namespace Tour

variable {n : Nat} {N W Event Item : Type}

/-- The distance from every node to every other one, where there is an edge. -/
structure Distances (n : Nat) (W : Type) where
  rows : Vector (Vector (Option W) n) n

def Distances.get (distances : Distances n W) (source target : Fin n) : Option W :=
  (distances.rows.get source).get target

variable [Weight W]

/-- Checks the first negative distance before the sums. -/
def Distances.ofGraph [NodeKey N] (graph : Graph N W) :
    Except (Failure N W) (Distances graph.nodeCount W) := do
  graph.refuseNegative .distance
  let distances : Distances graph.nodeCount W :=
    ⟨Vector.ofFn fun source => Vector.ofFn fun target =>
      graph.weight? (graph.key source) (graph.key target)⟩
  let all := List.finRange graph.nodeCount
  let heaviestOut := all.filterMap fun node =>
    Weight.greatest? (all.filterMap fun target => distances.get node target)
  let heaviestIn := all.filterMap fun node =>
    Weight.greatest? (all.filterMap fun source => distances.get source node)
  if (Weight.total? heaviestOut).isSome ∧ (Weight.total? heaviestIn).isSome then return distances
  else .error .arithmeticOverflow

/-- Whether some node cannot be left or cannot be entered, which rules out every tour. -/
def Distances.hasDeadEnd (distances : Distances n W) : Bool :=
  let all := List.finRange n
  1 < n && all.any fun node =>
    (all.all fun target => (distances.get node target).isNone) ||
      all.all fun source => (distances.get source node).isNone

def addShare [Journal W Event] (share? : Item → Option W) (sum : W) (item : Item) :
    Traced Event Unit W := do
  let share ← Traced.ofOption () (share? item)
  Journal.add sum share

/-- A first share and one more for every item, until one is missing. -/
def addShares [Journal W Event] (first? : Option W) (share? : Item → Option W)
    (items : List Item) : Traced Event Unit W := do
  let first ← Traced.ofOption () first?
  items.foldlM (addShare share?) first

def Distances.sumTour [Journal W Event] (distances : Distances n W) :
    List (Fin n) → Traced Event Unit W
  | [] => Traced.fail ()
  | [_] => Journal.add Weight.neutral 0
  | first :: second :: rest =>
      addShares (some Weight.neutral) (fun (source, target) => distances.get source target)
        ((first :: second :: rest).zip (second :: rest ++ [first]))

/-- The length of the round trip through these nodes, if no edge is missing. -/
def Distances.tourLength (distances : Distances n W) (stops : List (Fin n)) : Option W :=
  (distances.sumTour stops : Traced (Progress W) Unit W).result?

/-- A path without its later nodes, in a form that grows at its end: the last node, and those before
it from the latest to the earliest. -/
structure Trail (n : Nat) where
  last : Fin n
  earlier : List (Fin n)

namespace Trail

def nodes (trail : Trail n) : List (Fin n) := (trail.last :: trail.earlier).reverse

def length (trail : Trail n) : Nat := trail.earlier.length + 1

def visits (trail : Trail n) (node : Fin n) : Bool := node = trail.last || node ∈ trail.earlier

def remaining (trail : Trail n) : List (Fin n) :=
  (List.finRange n).filter fun node => !trail.visits node

def extend (trail : Trail n) (node : Fin n) : Trail n := ⟨node, trail.last :: trail.earlier⟩

end Trail

def ofIndices (graph : Graph N W) (distance : W) (indices : List (Fin graph.nodeCount))
    (optimal : Bool) : Tour N W :=
  { distance, nodes := indices.map graph.key, optimal }

end Tour

end FlowTour
