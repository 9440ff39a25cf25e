import FlowTour.Failure
import Std.Data.TreeSet

/-!
Directed weighted graphs. Nodes are listed in the order in which they were first mentioned and edges
in the order in which their endpoints were first joined; a node's place in its list is its index, and
so is an edge's. An ordered pair of nodes is joined at most once, and never a node to itself.
-/

namespace FlowTour

structure Graph (N W : Type) where
  nodes : List N
  edges : List (Edge N W)
  nodes_nodup : nodes.Nodup
  ends_nodup : (edges.map Edge.ends).Nodup
  ends_mem : ∀ edge ∈ edges, edge.source ∈ nodes ∧ edge.target ∈ nodes
  no_loop : ∀ edge ∈ edges, edge.source ≠ edge.target

namespace Graph

variable {N W : Type}

def empty : Graph N W where
  nodes := []
  edges := []
  nodes_nodup := List.nodup_nil
  ends_nodup := List.nodup_nil
  ends_mem := by simp
  no_loop := by simp

def nodeCount (graph : Graph N W) : Nat := graph.nodes.length

def edgeCount (graph : Graph N W) : Nat := graph.edges.length

def key (graph : Graph N W) (index : Fin graph.nodeCount) : N := graph.nodes.get index

def edge (graph : Graph N W) (index : Fin graph.edgeCount) : Edge N W := graph.edges.get index

/-- The same nodes and connections with new weights, given by edge index. -/
def reweight {V : Type} (graph : Graph N W) (weights : Fin graph.edgeCount → V) : Graph N V where
  nodes := graph.nodes
  edges := List.ofFn fun index =>
    ⟨(graph.edge index).source, (graph.edge index).target, weights index⟩
  nodes_nodup := graph.nodes_nodup
  ends_nodup := by
    have listed : graph.edges.map Edge.ends = List.ofFn fun index => (graph.edge index).ends :=
      (congrArg (List.map Edge.ends) List.ofFn_getElem.symm).trans List.map_ofFn
    rw [List.map_ofFn]
    exact listed ▸ graph.ends_nodup
  ends_mem := by
    intro edge member
    obtain ⟨index, rfl⟩ := List.mem_ofFn.mp member
    exact graph.ends_mem (graph.edge index) (List.get_mem graph.edges index)
  no_loop := by
    intro edge member
    obtain ⟨index, rfl⟩ := List.mem_ofFn.mp member
    exact graph.no_loop (graph.edge index) (List.get_mem graph.edges index)

variable [NodeKey N]

def contains (graph : Graph N W) (node : N) : Bool := node ∈ graph.nodes

def nodeSet (graph : Graph N W) : Std.TreeSet N := Std.TreeSet.ofList graph.nodes

def index? (graph : Graph N W) (node : N) : Option (Fin graph.nodeCount) :=
  graph.nodes.finIdxOf? node

def index (graph : Graph N W) (node : N) (member : node ∈ graph.nodes) : Fin graph.nodeCount :=
  ⟨graph.nodes.idxOf node, List.idxOf_lt_length_of_mem member⟩

def sourceIndex (graph : Graph N W) (index : Fin graph.edgeCount) : Fin graph.nodeCount :=
  graph.index (graph.edge index).source (graph.ends_mem _ (List.get_mem graph.edges index)).1

def targetIndex (graph : Graph N W) (index : Fin graph.edgeCount) : Fin graph.nodeCount :=
  graph.index (graph.edge index).target (graph.ends_mem _ (List.get_mem graph.edges index)).2

def weight? (graph : Graph N W) (source target : N) : Option W :=
  (graph.edges.find? fun edge => edge.source = source ∧ edge.target = target).map Edge.weight

section Require

variable (graph : Graph N W)

def require (node : N) : Except (Failure N W) (Fin graph.nodeCount) :=
  match graph.index? node with
  | none => .error (.nodeNotFound node)
  | some index => .ok index

def requireEdge (source target : N) : Except (Failure N W) W :=
  match graph.weight? source target with
  | none => .error (.missingEdge source target)
  | some weight => .ok weight

/-- Refuses the first edge, in edge order, whose weight is negative. -/
def refuseNegative [Weight W] (role : WeightRole) : Except (Failure N W) Unit :=
  match graph.edges.find? fun edge => Weight.isNegative edge.weight with
  | none => .ok ()
  | some edge => .error (.negativeWeight role edge)

end Require

end Graph

end FlowTour
