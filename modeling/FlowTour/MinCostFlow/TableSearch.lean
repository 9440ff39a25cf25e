import FlowTour.MinCostFlow.ShortestPath
import FlowTour.Residual.ArcTable

/-!
Shortest paths in a table of arcs by reduced cost. Distances, parents and the marks of what is settled
are kept in tables of their own, one entry for each node.
-/

namespace FlowTour.ArcTable

variable {n : Nat} {W : Type} [Weight W]

structure Survey (n : Nat) (W : Type) where
  distances : Vector (Option W) n
  parents : Vector (Option Nat) n
  settled : Vector Bool n
  offers : Heap (W × Fin n)

variable (table : ArcTable n W) (potential : Vector W n)

def reducedCost (arc : Nat) : Except Fault W := do
  let tail ← table.tail arc
  let head ← table.head arc
  let partway ← checked (Weight.trySub (← table.cost arc) (potential.get tail))
  checked (Weight.tryAdd partway (potential.get head))

def Survey.offer (survey : Survey n W) (node : Fin n) (arc : Nat) (distance : W) : Survey n W :=
  if (survey.distances.get node).all fun old => distance < old then
    { distances := survey.distances.set node.val (some distance) node.isLt
      parents := survey.parents.set node.val (some arc) node.isLt
      settled := survey.settled
      offers := survey.offers.push MinCostFlow.offerBelow (distance, node) }
  else survey

def Survey.relax (distance : W) (survey : Survey n W) (arc : Nat) : Except Fault (Survey n W) := do
  if !(← table.hasCapacity arc) then return survey
  else
    let node ← table.head arc
    if survey.settled.get node then return survey
    else
      let reduced ← table.reducedCost potential arc
      if Weight.isNegative reduced then return survey.offer node arc distance
      else return survey.offer node arc (← checked (Weight.tryAdd distance reduced))

def Survey.explore (sink : Fin n) (survey : Survey n W) : Except Fault (Option (Survey n W)) := do
  if survey.settled.get sink then return none
  else
    match survey.offers.pop? MinCostFlow.offerBelow with
    | none => return none
    | some ((distance, node), offers) =>
        if survey.settled.get node then return some { survey with offers }
        else
          let settled := survey.settled.set node.val true node.isLt
          let settledSurvey : Survey n W := { survey with settled, offers }
          if node = sink then return some settledSurvey
          else
            return some (← (table.arcsFrom node).foldlM (Survey.relax table potential distance)
              settledSurvey)

def shortestPaths (source sink : Fin n) : Except Fault (Survey n W) :=
  iterate (Survey.explore table potential sink) (table.entries.size + 3)
    { distances := (Vector.replicate n none).set source.val (some 0) source.isLt
      parents := Vector.replicate n none
      settled := Vector.replicate n false
      offers := Heap.empty.push MinCostFlow.offerBelow (0, source) }

end FlowTour.ArcTable
