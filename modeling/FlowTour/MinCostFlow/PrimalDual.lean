import FlowTour.MinCostFlow.Problem
import FlowTour.MinCostFlow.ShortestPath
import FlowTour.Report

/-!
Minimum-cost flows by cheapest augmenting paths. Every iteration finds a shortest path by reduced
cost from the source to the sink, sends as much along it as fits, and subtracts the distances from
the potentials, which keeps the reduced costs of all arcs with capacity non-negative.
-/

namespace FlowTour.MinCostFlow

variable {n m : Nat} {N W : Type} [NodeKey N] [Weight W]

structure State (n m : Nat) (W : Type) where
  network : Residual n m W
  potential : Vector W n
  routed : W
  iterations : Nat

def gather {Value : Type} (value? : Fin n → Option Value) : Option (Vector Value n) :=
  if total : ∀ index, (value? index).isSome then
    some (Vector.ofFn fun index => (value? index).get (total index))
  else none

/-- How far a node counts as being away: no node is farther than the sink, and one that was not
settled is not nearer either. -/
def cappedDistance (labels : Vector (Option (Label m W)) n) (farthest : W) (node : Fin n) : W :=
  match labels.get node with
  | none => farthest
  | some label =>
      if label.settled ∧ label.distance < farthest then label.distance else farthest

def lowerPotentials (potential : Vector W n) (labels : Vector (Option (Label m W)) n)
    (farthest : W) : Option (Vector W n) :=
  gather fun node => Weight.trySub (potential.get node) (cappedDistance labels farthest node)

def augment (source sink : Fin n) (state : State n m W) :
    Traced (Progress W) Overflow (Option (State n m W)) := do
  let labels ← Traced.ofOption .overflow (shortestPaths state.network state.potential source sink)
  match (labels.get sink).filter Label.settled with
  | none => return none
  | some reached =>
      let potential ← Traced.ofOption .overflow
        (lowerPotentials state.potential labels reached.distance)
      let path := state.network.tracePath (fun node => (labels.get node).bind Label.parent) sink
      match state.network.bottleneck path with
      | none => return none
      | some amount =>
          let network ← Traced.ofOption .overflow (state.network.pushAll path amount)
          Traced.note (.augmentedAt path.length amount reached.distance)
          let routed ← Traced.ofOption .overflow (Weight.tryAdd state.routed amount)
          return some { network, potential, routed, iterations := state.iterations + 1 }

def initialState (links : Vector (Link n W) m) : State n m W where
  network := Residual.ofLinks links
  potential := Vector.replicate n 0
  routed := 0
  iterations := 0

/-- Every iteration uses up some of what may leave the source, so the ranks of these amounts bound
their number; one more look shows that the sink is out of reach. -/
def iterationBound (links : Vector (Link n W) m) (source : Fin n) : Nat :=
  let leaving := links.toList.filter fun link => link.tail = source
  leaving.foldl (fun sum link => sum + (link.capacity.map Weight.rank).getD 0) 1

/-- Routes as much as possible from the source to the sink, always along a cheapest path. -/
def route (links : Vector (Link n W) m) (source sink : Fin n) :
    Traced (Progress W) Overflow (State n m W) := do
  let final ← iterate (augment source sink) (iterationBound links source) (initialState links)
  Traced.note (.supplyRouted final.routed final.iterations)
  return final

/-- A cheapest flow: its total cost, what every edge carries, and potentials that certify it. -/
structure Solution (N W : Type) [NodeKey N] where
  cost : W
  flow : Graph N W
  potentials : KeyedWeights N W

def totalCost? (costs : Graph N W) (flow : Fin costs.edgeCount → W) : Option W :=
  (List.finRange costs.edgeCount).foldlM (fun sum index => do
    let share ← Weight.tryMul (costs.edge index).weight (flow index)
    Weight.tryAdd sum share) 0

/-- What the links that come first carry. -/
def edgeFlow {edges others : Nat} (network : Residual n (edges + others) W) (index : Fin edges) : W :=
  network.sent.get (index.castAdd others)

def nodePotentials (costs : Graph N W) (potential : Vector W (costs.nodeCount + 2)) :
    KeyedWeights N W :=
  Std.TreeMap.ofList ((List.finRange costs.nodeCount).map fun node =>
    (costs.key node, potential.get (Vertex.place (.node node))))

/-- Routes the whole supply at least cost. What is left unrouted may only be rounding error. -/
def primalDual (costs : Graph N W) (supply : KeyedWeights N W) (capacity : Option (Graph N W)) :
    Traced (Progress W) (Failure N W) (Solution N W) := do
  let total ← Traced.ofExcept (validate costs supply capacity)
  let final ← (route (extendedLinks costs supply capacity) (Vertex.place .source)
    (Vertex.place .sink)).mapFailure .ofOverflow
  let shortfall ← Traced.ofOption .arithmeticOverflow (Weight.trySub total final.routed)
  if final.routed < total ∧ ¬Weight.isNegligible shortfall total then
    Traced.note (.supplyStranded final.routed total)
    Traced.fail .noFeasibleFlow
  else
    let flow := edgeFlow final.network
    let cost ← Traced.ofOption .arithmeticOverflow (totalCost? costs flow)
    return { cost, flow := costs.reweight flow, potentials := nodePotentials costs final.potential }

end FlowTour.MinCostFlow
