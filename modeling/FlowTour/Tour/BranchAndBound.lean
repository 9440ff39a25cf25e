import FlowTour.Heap
import FlowTour.Tour.NearestNeighbor

/-!
Exact search for a shortest tour. Paths from the first node are explored best bound first; a path is
dropped once its bound does not beat the best tour found so far, which starts out as the
nearest-neighbour tour. When no path is left, the best tour is a shortest one. A budget may stop the
search earlier.
-/

namespace FlowTour.Tour

variable {n : Nat} {N W Event Cause : Type} [NodeKey N] [Weight W]

section Bounds

variable [Journal W Event]

/-- Sums up what leaving every remaining node and the last one of the trail costs at least: each goes on
to another remaining node, and the remaining ones may also return to the start. -/
def sumLeaving (distances : Distances n W) (start last : Fin n) (remaining : List (Fin n)) :
    Traced Event Unit W :=
  addShares (Weight.least? (remaining.filterMap (distances.get last)))
    (fun node =>
      let targets := (remaining.filter (· ≠ node)) ++ [start]
      Weight.least? (targets.filterMap (distances.get node)))
    remaining

def sumEntering (distances : Distances n W) (start last : Fin n) (remaining : List (Fin n)) :
    Traced Event Unit W :=
  addShares (Weight.least? (remaining.filterMap fun node => distances.get node start))
    (fun node =>
      let sources := (remaining.filter (· ≠ node)) ++ [last]
      Weight.least? (sources.filterMap fun source => distances.get source node))
    remaining

def sumBound (distances : Distances n W) (start : Fin n) (trail : Trail n) (distance : W) :
    Traced Event Unit W := do
  let leaving ← sumLeaving distances start trail.last trail.remaining
  let entering ← sumEntering distances start trail.last trail.remaining
  Journal.add distance (Weight.larger leaving entering)

end Bounds

def leavingBound? (distances : Distances n W) (start last : Fin n) (remaining : List (Fin n)) :
    Option W :=
  (sumLeaving distances start last remaining : Traced (Progress W) Unit W).result?

def enteringBound? (distances : Distances n W) (start last : Fin n) (remaining : List (Fin n)) :
    Option W :=
  (sumEntering distances start last remaining : Traced (Progress W) Unit W).result?

/-- A length that no tour extending the trail falls short of; nothing when some node can no longer
be left or entered. -/
def lowerBound? (distances : Distances n W) (start : Fin n) (trail : Trail n) (distance : W) :
    Option W :=
  (sumBound distances start trail distance : Traced (Progress W) Unit W).result?

structure Partial (n : Nat) (W : Type) where
  bound : W
  distance : W
  trail : Trail n

/-- The smaller bound comes out first, and of equal bounds the longer path. -/
def Partial.below (partialTour other : Partial n W) : Bool :=
  if other.bound < partialTour.bound then true
  else if partialTour.bound < other.bound then false
  else partialTour.trail.length ≤ other.trail.length

structure Search (n : Nat) (W : Type) where
  /-- The best tour so far and its length. -/
  incumbent : Option (W × List (Fin n))
  frontier : Heap (Partial n W)
  expansions : Nat
  /-- Whether the budget stopped the search. -/
  stopped : Bool

def Search.beats (search : Search n W) (length : W) : Bool :=
  match search.incumbent with
  | none => true
  | some (best, _) => length < best

/-- With a bound, the path of the start alone is on the frontier. -/
def Search.beginning (start : Fin n) (incumbent : Option (W × List (Fin n))) (bound? : Option W) :
    Search n W where
  incumbent
  frontier :=
    match bound? with
    | none => Heap.empty
    | some bound => Heap.empty.push Partial.below ⟨bound, 0, ⟨start, []⟩⟩
  expansions := 0
  stopped := false

/-- How many paths extend a path, itself included, when so many nodes remain. -/
def extensionCount : Nat → Nat
  | 0 => 1
  | remaining + 1 => (remaining + 1) * extensionCount remaining + 1

section Solver

variable [Journal W Event]

/-- Extends a partial tour by one node: to a complete tour if that was the last one missing, or to
a longer partial tour if its bound still beats the incumbent. -/
def branch (distances : Distances n W) (start : Fin n) (partialTour : Partial n W)
    (search : Search n W) (node : Fin n) : Traced Event Cause (Search n W) :=
  match distances.get partialTour.trail.last node with
  | none => pure search
  | some weight => do
      let distance ← Journal.add partialTour.distance weight
      let trail := partialTour.trail.extend node
      if trail.length = n then
        match distances.get node start with
        | none => pure search
        | some back => do
            let length ← Journal.add distance back
            if search.beats length then do
              Journal.tell (.newIncumbent length (trail.nodes.map Fin.val))
              return { search with incumbent := some (length, trail.nodes) }
            else pure search
      else
        match ← (sumBound distances start trail distance).attempt with
        | none => pure search
        | some bound =>
            if search.beats bound then
              pure { search with
                frontier := search.frontier.push Partial.below ⟨bound, distance, trail⟩ }
            else pure search

/-- Takes the best partial tour off the frontier and branches on it, unless it cannot win any more or
the budget is used up. -/
def expand (distances : Distances n W) (start : Fin n) (budget : Option Nat)
    (search : Search n W) : Traced Event Cause (Option (Search n W)) :=
  if search.stopped then pure none
  else
    match search.frontier.pop? Partial.below with
    | none => pure none
    | some (partialTour, frontier) =>
        let search := { search with frontier }
        if !search.beats partialTour.bound then pure (some search)
        else if budget.any (· ≤ search.expansions) then pure (some { search with stopped := true })
        else do
          let search := { search with expansions := search.expansions + 1 }
          let final ← partialTour.trail.remaining.foldlM
            (branch distances start partialTour) search
          return some final

/-- The walk to the nearest node with its length, if it comes to its end. -/
def measuredWalk (distances : Distances n W) (start : Fin n) :
    Traced Event Cause (Option (W × List (Fin n))) :=
  match nearestNeighbor? distances start with
  | none => pure none
  | some stops => do
      let length? ← (distances.sumTour stops).attempt
      return length?.map fun length => (length, stops)

def beginSearch (distances : Distances n W) (start : Fin n) :
    Traced Event Cause (Search n W) := do
  let incumbent ← measuredWalk distances start
  let bound? ← (sumBound distances start ⟨start, []⟩ 0).attempt
  return Search.beginning start incumbent bound?

/-- Runs the search to its end. No path is on the frontier twice, so there are no more steps than
paths from the start, one for a stop, and one more look. -/
def runSearch (distances : Distances n W) (start : Fin n) (budget : Option Nat) :
    Traced Event Cause (Search n W) := do
  let initial ← beginSearch distances start
  match initial.incumbent with
  | none => pure ()
  | some (length, _) => Journal.tell (.firstIncumbent length)
  let final ← iterate (expand distances start budget) (extensionCount (n - 1) + 2) initial
  Journal.tell (.searchEnded final.expansions final.frontier.size)
  return final

/-- A shortest tour, or the best one found within the budget. Only a search that was not stopped can
tell that there is no tour. -/
def searchTour (graph : Graph N W) (budget : Option Nat) :
    Traced Event (Failure N W) (Tour N W) := do
  let distances ← Traced.ofExcept (Distances.ofGraph graph)
  if filled : 0 < graph.nodeCount then
    let start : Fin graph.nodeCount := ⟨0, filled⟩
    if graph.nodeCount = 1 then return ofIndices graph 0 [start] true
    else
      let final ← runSearch distances start budget
      match final.incumbent with
      | some (length, stops) => return ofIndices graph length stops (!final.stopped)
      | none => Traced.fail (if final.stopped then .searchBudgetExhausted else .noTour)
  else Traced.fail .noTour

end Solver

def branchAndBound (graph : Graph N W) (budget : Option Nat) :
    Traced (Progress W) (Failure N W) (Tour N W) := searchTour graph budget

inductive Method where
  | nearestNeighbor
  | branchAndBound
  deriving DecidableEq, Repr

/-- Without a method named, the search is exact. -/
instance : Inhabited Method := ⟨.branchAndBound⟩

def solve (graph : Graph N W) : Method → Traced (Progress W) (Failure N W) (Tour N W)
  | .nearestNeighbor => greedy graph
  | .branchAndBound => branchAndBound graph none

end FlowTour.Tour
