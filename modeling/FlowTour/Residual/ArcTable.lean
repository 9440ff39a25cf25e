import FlowTour.Residual.Basic

/-!
Residual networks kept in one table of arcs. Adding a link appends its forward arc and, right behind it,
the twin, so the numbers of the two differ in their last bit alone, and lists either arc at its tail. An
arc of the table knows its head; its tail is the head of the twin. The table takes whatever it is given:
that twins stay in step is the work of `addLink` and `push`.
-/

namespace FlowTour

structure ArcEntry (n : Nat) (W : Type) where
  head : Fin n
  /-- Nothing is an unlimited amount. -/
  residual : Option W
  cost : W

structure ArcTable (n : Nat) (W : Type) where
  entries : Array (ArcEntry n W)
  /-- The numbers of the arcs that leave each node, in the order in which they came. -/
  leaving : Vector (List Nat) n

namespace ArcTable

/-- What can be wrong with an operation: an arc is not there, more is sent than its residual covers, or
a number does not fit. -/
inductive Fault where
  | absent
  | uncovered
  | overflow
  deriving DecidableEq, Repr

def checked {Result : Type} : Option Result → Except Fault Result
  | none => .error .overflow
  | some result => .ok result

def twin (arc : Nat) : Nat := arc ^^^ 1

variable {n : Nat} {W : Type} [Weight W]

section Building

def empty : ArcTable n W := ⟨#[], Vector.replicate n []⟩

def list (leaving : Vector (List Nat) n) (node : Fin n) (arc : Nat) : Vector (List Nat) n :=
  leaving.set node.val (leaving.get node ++ [arc]) node.isLt

/-- Also answers the number of the forward arc. -/
def addLink (table : ArcTable n W) (link : Link n W) : ArcTable n W × Nat :=
  let arc := table.entries.size
  ({ entries := (table.entries.push ⟨link.head, link.capacity, link.cost⟩).push
        ⟨link.tail, some 0, -link.cost⟩
     leaving := list (list table.leaving link.tail arc) link.head (twin arc) }, arc)

/-- The table of these links, and the numbers of their forward arcs. -/
def build (links : List (Link n W)) : ArcTable n W × List Nat :=
  links.foldl
    (fun built link =>
      let (table, arc) := built.1.addLink link
      (table, built.2 ++ [arc]))
    (empty, [])

end Building

variable (table : ArcTable n W)

section Reading

def entry (arc : Nat) : Except Fault (ArcEntry n W) :=
  match table.entries[arc]? with
  | none => .error .absent
  | some entry => .ok entry

def head (arc : Nat) : Except Fault (Fin n) := return (← table.entry arc).head

def tail (arc : Nat) : Except Fault (Fin n) := table.head (twin arc)

def cost (arc : Nat) : Except Fault W := return (← table.entry arc).cost

def residual (arc : Nat) : Except Fault (Option W) := return (← table.entry arc).residual

def hasCapacity (arc : Nat) : Except Fault Bool := do
  match ← table.residual arc with
  | none => return true
  | some amount => return Weight.isPositive amount

def flow (arc : Nat) : Except Fault W := return (← table.residual (twin arc)).getD 0

def arcsFrom (node : Fin n) : List Nat := table.leaving.get node

/-- The smallest residual on a path; nothing when every arc of it is unlimited. -/
def bottleneck (path : List Nat) : Except Fault (Option W) :=
  return Weight.least? ((← path.mapM table.residual).filterMap id)

end Reading

section Sending

def setResidual (arc : Nat) (amount : W) : ArcTable n W :=
  { table with
    entries := table.entries.modify arc fun entry => { entry with residual := some amount } }

def shrink (arc : Nat) (amount : W) : Except Fault (ArcTable n W) := do
  match ← table.residual arc with
  | none => return table
  | some left =>
      if amount ≤ left then return table.setResidual arc (left - amount)
      else throw .uncovered

def grow (arc : Nat) (amount : W) : Except Fault (ArcTable n W) := do
  match ← table.residual arc with
  | none => return table
  | some left => return table.setResidual arc (← checked (Weight.tryAdd left amount))

/-- Sends an amount along an arc: its residual shrinks and its twin's grows. -/
def push (arc : Nat) (amount : W) : Except Fault (ArcTable n W) := do
  (← table.shrink arc amount).grow (twin arc) amount

def pushAll (path : List Nat) (amount : W) : Except Fault (ArcTable n W) :=
  path.foldlM (fun table arc => table.push arc amount) table

end Sending

section Searching

structure Sweep (n : Nat) where
  parents : Vector (Option Nat) n
  seen : Vector Bool n
  queue : List (Fin n)

def Sweep.follow (sweep : Sweep n) (arc : Nat) : Except Fault (Sweep n) := do
  let node ← table.head arc
  if sweep.seen.get node then return sweep
  else if ← table.hasCapacity arc then
    return {
      parents := sweep.parents.set node.val (some arc) node.isLt
      seen := sweep.seen.set node.val true node.isLt
      queue := sweep.queue ++ [node] }
  else return sweep

def Sweep.run (target : Option (Fin n)) : Nat → Sweep n → Except Fault (Sweep n)
  | 0, sweep => return sweep
  | fuel + 1, sweep =>
      match sweep.queue with
      | [] => return sweep
      | node :: rest =>
          if some node = target then return sweep
          else do
            let next ← (table.arcsFrom node).foldlM (Sweep.follow table) { sweep with queue := rest }
            Sweep.run target fuel next

def breadthFirst (start : Fin n) (target : Option (Fin n)) : Except Fault (Sweep n) :=
  Sweep.run table target n
    { parents := Vector.replicate n none
      seen := (Vector.replicate n false).set start.val true start.isLt
      queue := [start] }

def traceBack (parents : Vector (Option Nat) n) :
    Nat → Fin n → List Nat → Except Fault (List Nat)
  | 0, _, path => return path
  | fuel + 1, node, path =>
      match parents.get node with
      | none => return path
      | some arc => do traceBack parents fuel (← table.tail arc) (arc :: path)

def tracePath (parents : Vector (Option Nat) n) (node : Fin n) : Except Fault (List Nat) :=
  traceBack table parents n node []

def augmentingPath? (start target : Fin n) : Except Fault (Option (List Nat)) := do
  let sweep ← table.breadthFirst start (some target)
  if sweep.seen.get target then return some (← table.tracePath sweep.parents target)
  else return none

end Searching

end ArcTable

end FlowTour
