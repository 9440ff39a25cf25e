import FlowTour.Weight.Basic

/-!
Residual networks over a dense range of nodes. A network is a list of links, each with a capacity
that may be unlimited. A link can be used in two directions: the forward arc carries more flow as
long as there is room, the reversed arc takes back what was sent, at the opposite cost.
-/

namespace FlowTour

structure Link (n : Nat) (W : Type) where
  tail : Fin n
  head : Fin n
  /-- Nothing is an unlimited capacity. -/
  capacity : Option W
  cost : W

structure Arc (m : Nat) where
  link : Fin m
  reversed : Bool
  deriving DecidableEq, Repr

def Arc.twin {m : Nat} (arc : Arc m) : Arc m := { arc with reversed := !arc.reversed }

structure Residual (n m : Nat) (W : Type) where
  links : Vector (Link n W) m
  /-- What each link can still carry on top of what it carries. -/
  room : Vector (Option W) m
  /-- What each link carries. -/
  sent : Vector W m

namespace Residual

variable {n m : Nat} {W : Type} [Weight W]

def ofLinks (links : Vector (Link n W) m) : Residual n m W where
  links := links
  room := links.map Link.capacity
  sent := Vector.replicate m 0

variable (network : Residual n m W)

def link (arc : Arc m) : Link n W := network.links.get arc.link

def tail (arc : Arc m) : Fin n :=
  if arc.reversed then (network.link arc).head else (network.link arc).tail

def head (arc : Arc m) : Fin n :=
  if arc.reversed then (network.link arc).tail else (network.link arc).head

def cost (arc : Arc m) : W :=
  if arc.reversed then -(network.link arc).cost else (network.link arc).cost

/-- What can still be sent along an arc; nothing is an unlimited amount. -/
def residual (arc : Arc m) : Option W :=
  if arc.reversed then some (network.sent.get arc.link) else network.room.get arc.link

def hasCapacity (arc : Arc m) : Bool :=
  match network.residual arc with
  | none => true
  | some amount => Weight.isPositive amount

/-- The arcs that leave a node, in the order of their links. -/
def arcsFrom (node : Fin n) : List (Arc m) :=
  (List.finRange m).flatMap fun link =>
    (if (network.links.get link).tail = node then [⟨link, false⟩] else []) ++
      if (network.links.get link).head = node then [⟨link, true⟩] else []

/-- Sends an amount along an arc: its residual shrinks and its twin's grows. Nothing is the answer
when the growing side does not fit; an unlimited side stays unlimited. -/
def push (arc : Arc m) (amount : W) : Option (Residual n m W) :=
  let index := arc.link
  if arc.reversed then
    let shrunk := network.sent.set index.val (network.sent.get index - amount) index.isLt
    match network.room.get index with
    | none => some { network with sent := shrunk }
    | some room =>
        (Weight.tryAdd room amount).map fun grown =>
          { network with
            sent := shrunk
            room := network.room.set index.val (some grown) index.isLt }
  else
    let shrunk := network.room.set index.val ((network.room.get index).map (· - amount)) index.isLt
    (Weight.tryAdd (network.sent.get index) amount).map fun grown =>
      { network with
        room := shrunk
        sent := network.sent.set index.val grown index.isLt }

def pushAll (path : List (Arc m)) (amount : W) : Option (Residual n m W) :=
  path.foldlM (fun network arc => network.push arc amount) network

/-- The smallest residual on a path; nothing when every arc of it is unlimited. -/
def bottleneck (path : List (Arc m)) : Option W := Weight.least? (path.filterMap network.residual)

end Residual

end FlowTour
