import FlowTour.Residual.Basic

/-!
Breadth-first search over the arcs that have capacity left, and paths traced back from a node to
where a search began.
-/

namespace FlowTour.Residual

/-- How a search first came to a node. -/
inductive Mark (m : Nat) where
  | unseen
  | start
  | via (arc : Arc m)
  deriving DecidableEq, Repr

namespace Mark

variable {m : Nat}

def isSeen : Mark m → Bool
  | unseen => false
  | _ => true

def arc? : Mark m → Option (Arc m)
  | via arc => some arc
  | _ => none

end Mark

structure Sweep (n m : Nat) where
  marks : Vector (Mark m) n
  queue : List (Fin n)

variable {n m : Nat} {W : Type} [Weight W] (network : Residual n m W)

def Sweep.follow (sweep : Sweep n m) (arc : Arc m) : Sweep n m :=
  let node := network.head arc
  if (sweep.marks.get node).isSeen || !network.hasCapacity arc then sweep
  else { marks := sweep.marks.set node.val (.via arc) node.isLt, queue := sweep.queue ++ [node] }

def Sweep.run (target : Option (Fin n)) : Nat → Sweep n m → Sweep n m
  | 0, sweep => sweep
  | fuel + 1, sweep =>
      match sweep.queue with
      | [] => sweep
      | node :: rest =>
          if target = some node then sweep
          else Sweep.run target fuel
            ((network.arcsFrom node).foldl (Sweep.follow network) { sweep with queue := rest })

/-- The marks left by a search from a node, up to the target if there is one. Every node enters the
queue at most once. -/
def breadthFirst (start : Fin n) (target : Option (Fin n)) : Vector (Mark m) n :=
  (Sweep.run network target n
    { marks := (Vector.replicate n Mark.unseen).set start.val .start start.isLt, queue := [start] }).marks

/-- Follows parent arcs back from a node, in front of a path that begins there. -/
def traceBack (parent : Fin n → Option (Arc m)) : Nat → Fin n → List (Arc m) → List (Arc m)
  | 0, _, path => path
  | fuel + 1, node, path =>
      match parent node with
      | none => path
      | some arc => traceBack parent fuel (network.tail arc) (arc :: path)

/-- The path to a node along parent arcs. It visits no node twice, so it has fewer arcs than there
are nodes. -/
def tracePath (parent : Fin n → Option (Arc m)) (node : Fin n) : List (Arc m) :=
  traceBack network parent n node []

/-- A path with the fewest arcs along which more can be sent. -/
def augmentingPath? (start target : Fin n) : Option (List (Arc m)) :=
  let marks := network.breadthFirst start (some target)
  if (marks.get target).isSeen then some (network.tracePath (fun node => (marks.get node).arc?) target)
  else none

end FlowTour.Residual
