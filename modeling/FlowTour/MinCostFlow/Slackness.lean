import FlowTour.MinCostFlow.Problem

/-!
Complementary slackness of a flow and node potentials. The reduced cost of an edge is its cost less
the potential of its source plus the potential of its target. An edge without flow must not have a
negative one, a saturated edge must not have a positive one, and on every other edge it is zero.
-/

namespace FlowTour.MinCostFlow

variable {N W : Type} [NodeKey N] [Weight W]

def reducedCost? (potentials : KeyedWeights N W) (edge : Edge N W) : Option W := do
  let atSource ← potentials[edge.source]?
  let atTarget ← potentials[edge.target]?
  let partway ← Weight.trySub edge.weight atSource
  Weight.tryAdd partway atTarget

/-- The condition on one edge. An edge that can carry nothing is never in the way. -/
def edgeIsSlack (capacity : Option W) (amount reduced : W) : Bool :=
  if capacity.any (· == 0) then true
  else if amount == 0 then 0 ≤ reduced
  else if capacity.any (· ≤ amount) then reduced ≤ 0
  else reduced == 0

def complementarySlackness (costs : Graph N W) (capacity : Option (Graph N W)) (flow : Graph N W)
    (potentials : KeyedWeights N W) : Bool :=
  costs.edges.all fun edge =>
    match reducedCost? potentials edge with
    | none => false
    | some reduced =>
        edgeIsSlack (edgeCapacity capacity edge.source edge.target)
          ((flow.weight? edge.source edge.target).getD 0) reduced

end FlowTour.MinCostFlow
