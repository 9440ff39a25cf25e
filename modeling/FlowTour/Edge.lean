import FlowTour.Key
import FlowTour.Weight.Basic

/-!
A directed edge between two node keys.
-/

namespace FlowTour

structure Edge (N W : Type) where
  source : N
  target : N
  weight : W
  deriving DecidableEq

namespace Edge

variable {N W : Type}

def ends (edge : Edge N W) : N × N := (edge.source, edge.target)

def arrow [NodeKey N] (source target : N) : String :=
  NodeKey.debug source ++ " -> " ++ NodeKey.debug target

end Edge

end FlowTour
