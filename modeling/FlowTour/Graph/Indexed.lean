import FlowTour.Graph.Building
import Std.Data.TreeMap

/-!
Graphs kept in two structures: an arena, which numbers the nodes and the joints between them in the
order in which they come, and an ordered index from the keys to the numbers of the nodes. An arena
takes whatever it is given. That a key has one number, that an ordered pair of nodes is joined once and
that no node is joined to itself is the work of the insertions.
-/

namespace FlowTour

/-- A connection of two numbered nodes. -/
structure Joint (W : Type) where
  source : Nat
  target : Nat
  weight : W
  deriving DecidableEq

/-- Adding a node also answers its number. A joint is found by the numbers of its ends. -/
class Arena (A : Type) (N W : outParam Type) where
  empty : A
  nodes : A → List N
  joints : A → List (Joint W)
  addNode : A → N → A × Nat
  addJoint : A → Joint W → A
  findJoint : A → Nat → Nat → Option Nat
  setWeight : A → Nat → W → A

structure Indexed (A N : Type) [NodeKey N] where
  arena : A
  places : Std.TreeMap N Nat

namespace Indexed

variable {A N W : Type} [NodeKey N] [Arena A N W]

def empty : Indexed A N := ⟨Arena.empty, ∅⟩

/-- The number of a node, which is added unless it is there. -/
def locate (store : Indexed A N) (node : N) : Indexed A N × Nat :=
  match store.places[node]? with
  | some place => (store, place)
  | none =>
      let (arena, place) := Arena.addNode store.arena node
      (⟨arena, store.places.insert node place⟩, place)

def insertNode (store : Indexed A N) (node : N) : Indexed A N := (store.locate node).1

/-- Joins two nodes, or replaces the weight of the joint they have. -/
def join (arena : A) (joint : Joint W) : A :=
  match Arena.findJoint arena joint.source joint.target with
  | some place => Arena.setWeight arena place joint.weight
  | none => Arena.addJoint arena joint

def insertEdge (store : Indexed A N) (edge : Edge N W) : Indexed A N × Bool :=
  if edge.source = edge.target then (store.insertNode edge.source, false)
  else
    let (store, source) := store.locate edge.source
    let (store, target) := store.locate edge.target
    ({ store with arena := join store.arena ⟨source, target, edge.weight⟩ }, true)

def insert (store : Indexed A N) : Insertion N W → Indexed A N
  | .node node => store.insertNode node
  | .edge edge => (store.insertEdge edge).1

def build (insertions : List (Insertion N W)) : Indexed A N := insertions.foldl insert empty

def ofEdges (edges : List (Edge N W)) : Indexed A N :=
  edges.foldl (fun store edge => (store.insertEdge edge).1) empty

def ofAdjacency (listing : List (N × List (N × W))) : Indexed A N :=
  listing.foldl
    (fun store entry =>
      entry.2.foldl (fun store target => (store.insertEdge ⟨entry.1, target.1, target.2⟩).1)
        (store.insertNode entry.1))
    empty

section Queries

variable (store : Indexed A N)

def nodeCount : Nat := (Arena.nodes store.arena).length

def edgeCount : Nat := (Arena.joints store.arena).length

def nodeSet : Std.TreeSet N := Std.TreeSet.ofList store.places.keys

def edgeOf? (joint : Joint W) : Option (Edge N W) := do
  let source ← (Arena.nodes store.arena)[joint.source]?
  let target ← (Arena.nodes store.arena)[joint.target]?
  return ⟨source, target, joint.weight⟩

/-- All edges in the order of their joints, if every joint stands for one. -/
def edges? : Option (List (Edge N W)) := (Arena.joints store.arena).mapM store.edgeOf?

def weight? (source target : N) : Option W := do
  let first ← store.places[source]?
  let second ← store.places[target]?
  let place ← Arena.findJoint store.arena first second
  let joint ← (Arena.joints store.arena)[place]?
  return joint.weight

end Queries

end Indexed

end FlowTour
