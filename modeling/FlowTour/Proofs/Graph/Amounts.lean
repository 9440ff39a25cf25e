import FlowTour.Proofs.Graph.Index
import Mathlib.Algebra.BigOperators.Ring.Finset

/-!
Integer amounts on the edges of a graph: what leaves and enters a node, and the amounts that another
graph shows on the same connections.
-/

namespace FlowTour.Graph

open IntegerWeight

variable {N W V : Type} [NodeKey N] (graph : Graph N V)

def outflow (amount : Fin graph.edgeCount → Int) (node : N) : Int :=
  ∑ index with (graph.edge index).source = node, amount index

def inflow (amount : Fin graph.edgeCount → Int) (node : N) : Int :=
  ∑ index with (graph.edge index).target = node, amount index

/-- What a graph of weights shows on the edges of another graph, zero where it has no such edge. -/
def amountsOn [IntegerWeight W] (flow : Graph N W) (index : Fin graph.edgeCount) : Int :=
  toInt ((flow.weight? (graph.edge index).source (graph.edge index).target).getD 0)

variable {graph}

theorem amounts_on_reweight [IntegerWeight W] (weights : Fin graph.edgeCount → W)
    (index : Fin graph.edgeCount) :
    graph.amountsOn (graph.reweight weights) index = toInt (weights index) := by
  rw [amountsOn, weight?_reweight, Option.getD_some]

theorem amounts_on_self [IntegerWeight V] (index : Fin graph.edgeCount) :
    graph.amountsOn graph index = toInt (graph.edge index).weight := by
  rw [amountsOn, weight?_edge, Option.getD_some]

theorem outflow_eq_sum (amount : Fin graph.edgeCount → Int) (node : Fin graph.nodeCount) :
    graph.outflow amount (graph.key node) =
      ∑ index, amount index * if graph.sourceIndex index = node then 1 else 0 := by
  simp only [outflow, Finset.sum_filter, source_index_eq_iff, mul_ite, mul_one, mul_zero]

theorem inflow_eq_sum (amount : Fin graph.edgeCount → Int) (node : Fin graph.nodeCount) :
    graph.inflow amount (graph.key node) =
      ∑ index, amount index * if graph.targetIndex index = node then 1 else 0 := by
  simp only [inflow, Finset.sum_filter, target_index_eq_iff, mul_ite, mul_one, mul_zero]

theorem sum_mul_outflow (price : N → Int) (amount : Fin graph.edgeCount → Int) :
    ∑ node, price (graph.key node) * graph.outflow amount (graph.key node) =
      ∑ index, price (graph.edge index).source * amount index := by
  simp only [outflow, Finset.mul_sum, ← source_index_eq_iff]
  rw [← Finset.sum_fiberwise Finset.univ graph.sourceIndex]
  apply Finset.sum_congr rfl
  intro node _
  apply Finset.sum_congr rfl
  intro index member
  rw [← (Finset.mem_filter.mp member).2, key_source_index]

theorem sum_mul_inflow (price : N → Int) (amount : Fin graph.edgeCount → Int) :
    ∑ node, price (graph.key node) * graph.inflow amount (graph.key node) =
      ∑ index, price (graph.edge index).target * amount index := by
  simp only [inflow, Finset.mul_sum, ← target_index_eq_iff]
  rw [← Finset.sum_fiberwise Finset.univ graph.targetIndex]
  apply Finset.sum_congr rfl
  intro node _
  apply Finset.sum_congr rfl
  intro index member
  rw [← (Finset.mem_filter.mp member).2, key_target_index]

end FlowTour.Graph
