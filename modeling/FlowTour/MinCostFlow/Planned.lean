import FlowTour.MinCostFlow.PrimalDual
import FlowTour.Weight.Integer

/-!
Minimum-cost flows over 32-bit weights handed to a planner. A planner gets a network whose links are
all limited and says what a cheapest maximum flow sends over which links and what it costs; it may
divide what a link carries into several legs, as when it takes a flow apart into paths. The amounts of
the legs are whole numbers of its own kind, which are converted before they are used. Any planner of
this kind serves. The one given here routes over unbounded integers, where nothing overflows.
-/

namespace FlowTour.MinCostFlow

open IntegerWeight

structure Leg (m : Nat) where
  link : Fin m
  amount : Int

structure Plan (m : Nat) where
  cost : Int32
  legs : List (Leg m)

structure Planner where
  plan {n m : Nat} (links : Vector (Link n Int32) m) (source sink : Fin n) : Plan m

def Leg.narrow? {m : Nat} (leg : Leg m) : Option (Fin m × Int32) :=
  (ofInt? leg.amount).map fun amount => (leg.link, amount)

/-- What the legs on the links that pass a test carry together. -/
def carried {m : Nat} (legs : List (Fin m × Int32)) (counts : Fin m → Bool) : Int32 :=
  Weight.total ((legs.filter fun leg => counts leg.1).map Prod.snd)

/-- The same links over the unbounded integers. -/
def exactLinks {n m : Nat} (links : Vector (Link n Int32) m) :
    Vector (Link n Unbounded) m :=
  links.map fun link =>
    { tail := link.tail
      head := link.head
      capacity := link.capacity.map Int32.toInt
      cost := link.cost.toInt }

def exactPlan {n m : Nat} (links : Vector (Link n Int32) m) (source sink : Fin n) : Plan m :=
  let network : Residual n m Unbounded :=
    match (route (exactLinks links) source sink).outcome with
    | .ok final => final.network
    | .error _ => Residual.ofLinks (exactLinks links)
  let shares : List Unbounded := (List.finRange m).map fun link =>
    Int.mul (network.links.get link).cost (network.sent.get link)
  { cost := Int32.ofInt (toInt (Weight.total shares))
    legs := (List.finRange m).map fun link => ⟨link, toInt (network.sent.get link)⟩ }

def exactPlanner : Planner := ⟨exactPlan⟩

variable {N : Type} [NodeKey N]

/-- An unlimited link never carries more than the whole supply, so that is a limit for it. -/
def limitedLinks (costs : Graph N Int32) (supply : KeyedWeights N Int32)
    (capacity : Option (Graph N Int32)) (total : Int32) :
    Vector (Link (costs.nodeCount + 2) Int32)
      (costs.edgeCount + (terminalLinks costs supply).length) :=
  (extendedLinks costs supply capacity).map fun link =>
    { link with capacity := some (link.capacity.getD total) }

def planned (planner : Planner) (costs : Graph N Int32) (supply : KeyedWeights N Int32)
    (capacity : Option (Graph N Int32)) :
    Traced (Progress Int32) (Failure N Int32) (Int32 × Graph N Int32) := do
  let total ← Traced.ofExcept (validate costs supply capacity)
  let links := limitedLinks costs supply capacity total
  let plan := planner.plan links (Vertex.place .source) (Vertex.place .sink)
  let legs ← Traced.ofOption .amountOutOfRange (plan.legs.mapM Leg.narrow?)
  let routed := carried legs fun link => (links.get link).tail = Vertex.place .source
  if routed < total then
    Traced.note (.supplyStranded routed total)
    Traced.fail .noFeasibleFlow
  else
    return (plan.cost, costs.reweight fun index => carried legs (· = index.castAdd _))

end FlowTour.MinCostFlow
