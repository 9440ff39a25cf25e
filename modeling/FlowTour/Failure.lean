import FlowTour.Edge

/-!
Why a request has no answer. A failure keeps the nodes and weights it is about, and `message` is the
only place where it is put into words.
-/

namespace FlowTour

/-- What the weights of a graph stand for. -/
inductive WeightRole where
  | capacity
  | cost
  | distance
  deriving DecidableEq, Repr

def WeightRole.name : WeightRole → String
  | capacity => "capacity"
  | cost => "cost"
  | distance => "distance"

inductive Failure (N W : Type) where
  | nodeNotFound (node : N)
  | sameTerminals (node : N)
  | negativeWeight (role : WeightRole) (edge : Edge N W)
  | unbalanced
  | noFeasibleFlow
  | noTour
  | searchBudgetExhausted
  | heuristicFailed
  | arithmeticOverflow
  | missingEdge (source target : N)
  | amountOutOfRange
  deriving DecidableEq

/-- A sum, difference or product that the weight type cannot hold. -/
inductive Overflow where
  | overflow
  deriving DecidableEq, Repr

def Failure.ofOverflow {N W : Type} (_ : Overflow) : Failure N W := .arithmeticOverflow

variable {N W : Type} [NodeKey N] [Weight W]

def Failure.message : Failure N W → String
  | nodeNotFound node => "Node " ++ NodeKey.debug node ++ " is not in the graph"
  | sameTerminals node =>
      "Invalid input: source and sink are the same node " ++ NodeKey.debug node
  | negativeWeight role edge =>
      "Invalid input: negative " ++ role.name ++ " " ++ Weight.display edge.weight ++ " on edge " ++
        Edge.arrow edge.source edge.target
  | unbalanced => "Infeasible problem, the supply vector does not sum to zero"
  | noFeasibleFlow => "Infeasible problem, capacities are insufficient to route the supply"
  | noTour => "Infeasible problem, the graph has no hamiltonian cycle"
  | searchBudgetExhausted => "The search budget ran out before any tour was found"
  | heuristicFailed => "The heuristic got stuck before closing a tour, one may still exist"
  | arithmeticOverflow => "Arithmetic overflow while summing weights"
  | missingEdge source target => "Missing edge " ++ Edge.arrow source target
  | amountOutOfRange => "Algorithm specific error: TryFromIntError(())"

end FlowTour
