import FlowTour.Edge

/-!
What the library reports while it works, besides its answers: notices about edges that were dropped
or replaced while a graph was built, and the progress of the solvers. Every report has a level and a
one-line text.
-/

namespace FlowTour

/-- From the most to the least severe. -/
inductive Level where
  | error
  | warn
  | info
  | debug
  | trace
  deriving DecidableEq, Repr

namespace Level

def name : Level → String
  | error => "ERROR"
  | warn => "WARN"
  | info => "INFO"
  | debug => "DEBUG"
  | trace => "TRACE"

def hears (listener report : Level) : Bool := report.ctorIdx ≤ listener.ctorIdx

end Level

inductive Notice (N W : Type) where
  | ignoredLoop (node : N)
  | replacedWeight (source target : N) (old new : W)

inductive Progress (W : Type) where
  | augmented (arcs : Nat) (amount : W)
  | flowFound (value : W) (augmentations : Nat)
  | augmentedAt (arcs : Nat) (amount distance : W)
  | supplyRouted (amount : W) (iterations : Nat)
  | supplyStranded (routed total : W)
  | walkStuck
  | nearestTour (length : W)
  | firstIncumbent (length : W)
  | newIncumbent (length : W) (tour : List Nat)
  | searchEnded (expansions frontier : Nat)

variable {N W : Type} [NodeKey N] [Weight W]

def Notice.level (_ : Notice N W) : Level := .warn

def Notice.text : Notice N W → String
  | ignoredLoop node => "ignoring self-loop on " ++ NodeKey.debug node
  | replacedWeight source target old new =>
      "overwriting edge " ++ Edge.arrow source target ++ " (" ++ Weight.display old ++ " => " ++
        Weight.display new ++ ")"

def Progress.level : Progress W → Level
  | augmented .. | augmentedAt .. | newIncumbent .. => .trace
  | _ => .debug

def indexListText (indices : List Nat) : String :=
  "[" ++ String.intercalate ", " (indices.map toString) ++ "]"

def Progress.text : Progress W → String
  | augmented arcs amount =>
      "augmenting " ++ toString arcs ++ " arcs by " ++ Weight.display amount
  | flowFound value augmentations =>
      "max flow " ++ Weight.display value ++ " after " ++ toString augmentations ++ " augmentations"
  | augmentedAt arcs amount distance =>
      "augmenting " ++ toString arcs ++ " arcs by " ++ Weight.display amount ++ " at distance " ++
        Weight.display distance
  | supplyRouted amount iterations =>
      "routed " ++ Weight.display amount ++ " units in " ++ toString iterations ++ " iterations"
  | supplyStranded routed total =>
      "only " ++ Weight.display routed ++ " of " ++ Weight.display total ++ " units routed"
  | walkStuck => "nearest neighbor walk got stuck"
  | nearestTour length => "greedy tour of length " ++ Weight.display length
  | firstIncumbent length => "starting from the greedy tour of length " ++ Weight.display length
  | newIncumbent length tour =>
      "new incumbent of length " ++ Weight.display length ++ ": " ++ indexListText tour
  | searchEnded expansions frontier =>
      "branch and bound expanded " ++ toString expansions ++ " partial tours (" ++
        toString frontier ++ " left on the frontier)"

end FlowTour
