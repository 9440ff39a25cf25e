import FlowTour.Heap
import FlowTour.Residual.Search
import FlowTour.Traced

/-!
Shortest paths in a residual network by reduced cost, from the source until the sink is settled. A
node's potential enters the reduced cost of its outgoing arcs with a minus and that of its incoming
arcs with a plus, so with the right potentials no arc that has capacity left is negative.
-/

namespace FlowTour.MinCostFlow

/-- What is known about the way to a node: the distance over the last arc that improved it. -/
structure Label (m : Nat) (W : Type) where
  distance : W
  parent : Option (Arc m)
  settled : Bool

/-- Labels on the way, and the nodes still to be settled with the distance they were offered at. A
node is offered again whenever its label improves. -/
structure Exploration (n m : Nat) (W : Type) where
  labels : Vector (Option (Label m W)) n
  offers : Heap (W × Fin n)

variable {n m : Nat} {W : Type} [Weight W]

def offerBelow (offer other : W × Fin n) : Bool := !(offer.1 < other.1)

def isSettled (labels : Vector (Option (Label m W)) n) (node : Fin n) : Bool :=
  (labels.get node).any Label.settled

def reducedCost (network : Residual n m W) (potential : Vector W n) (arc : Arc m) : Option W :=
  (Weight.trySub (network.cost arc) (potential.get (network.tail arc))).bind fun partway =>
    Weight.tryAdd partway (potential.get (network.head arc))

/-- Looks along one arc from a node settled at the given distance. A negative reduced cost can only
be left over by rounding and counts as zero. Nothing is the answer when a number does not fit. -/
def relax (network : Residual n m W) (potential : Vector W n) (distance : W)
    (state : Exploration n m W) (arc : Arc m) : Option (Exploration n m W) :=
  let node := network.head arc
  if !network.hasCapacity arc || isSettled state.labels node then some state
  else do
    let reduced ← reducedCost network potential arc
    let next ← if Weight.isNegative reduced then some distance else Weight.tryAdd distance reduced
    if (state.labels.get node).all fun label => next < label.distance then
      some
        { labels := state.labels.set node.val (some ⟨next, some arc, false⟩) node.isLt
          offers := state.offers.push offerBelow (next, node) }
    else some state

def settle (labels : Vector (Option (Label m W)) n) (node : Fin n) :
    Vector (Option (Label m W)) n :=
  labels.set node.val ((labels.get node).map fun label => { label with settled := true }) node.isLt

/-- Takes the next offer. Nothing is left to do once the sink is settled or no offer is left; the
sink itself is settled without looking further from it. -/
def explore (network : Residual n m W) (potential : Vector W n) (sink : Fin n)
    (state : Exploration n m W) : Option (Option (Exploration n m W)) :=
  if isSettled state.labels sink then some none
  else
    match state.offers.pop? offerBelow with
    | none => some none
    | some ((distance, node), offers) =>
        if isSettled state.labels node then some (some { state with offers })
        else
          let settledState : Exploration n m W := ⟨settle state.labels node, offers⟩
          if node = sink then some (some settledState)
          else
            ((network.arcsFrom node).foldlM (relax network potential distance) settledState).map
              some

/-- The labels when the sink is settled, or when everything in reach of the source is. Every arc is
looked along at most once, so there are no more offers than two for each link and the first one. -/
def shortestPaths (network : Residual n m W) (potential : Vector W n) (source sink : Fin n) :
    Option (Vector (Option (Label m W)) n) :=
  (iterate (explore network potential sink) (2 * m + 3)
    { labels := (Vector.replicate n none).set source.val (some ⟨0, none, false⟩) source.isLt
      offers := Heap.empty.push offerBelow (0, source) }).map Exploration.labels

end FlowTour.MinCostFlow
