import FlowTour.Proofs.Graph.Index
import FlowTour.Proofs.Graph.Steps
import Mathlib.Data.Fintype.Fin

/-!
Walks along the edges of a graph, as lists of nodes. A walk that leaves a set of nodes leaves it in
one of its steps, and a node reached along a walk without repetitions lets its next node be reached
along one too.
-/

namespace FlowTour

section Leaving

variable {N : Type}

theorem exists_leaving_step (inside : N → Prop) {path : List N} {source target : N}
    (head : path.head? = some source) (last : path.getLast? = some target)
    (starts : inside source) (ends : ¬inside target) :
    ∃ step ∈ steps path, inside step.1 ∧ ¬inside step.2 := by
  induction path generalizing source with
  | nil => simp at head
  | cons first rest induction =>
      obtain rfl : first = source := by simpa using head
      cases rest with
      | nil =>
          obtain rfl : first = target := by simpa using last
          exact absurd starts ends
      | cons second rest =>
          by_cases stays : inside second
          · obtain ⟨step, member, leaves⟩ := induction rfl (by simpa using last) stays
            exact ⟨step, List.mem_cons_of_mem _ member, leaves⟩
          · exact ⟨(first, second), List.mem_cons_self .., starts, stays⟩

end Leaving

namespace Graph

variable {N W : Type} [NodeKey N] {graph : Graph N W}

structure IsWalk (graph : Graph N W) (source target : N) (walk : List N) : Prop where
  head : walk.head? = some source
  last : walk.getLast? = some target
  joined : ∀ step ∈ steps walk, (graph.weight? step.1 step.2).isSome = true

theorem exists_edge_of_is_some {pair : N × N} (joined : (graph.weight? pair.1 pair.2).isSome = true) :
    ∃ index, (graph.edge index).ends = pair := by
  obtain ⟨weight, found⟩ := Option.isSome_iff_exists.mp joined
  obtain ⟨index, same⟩ := graph.weight?_eq_some_iff.mp found
  exact ⟨index, by rw [same]; rfl⟩

/-- The node ends a walk from the source that visits no node twice and uses no edge of a set. -/
def ReachedAvoiding (graph : Graph N W) (avoided : Finset (Fin graph.edgeCount)) (source node : N) :
    Prop :=
  ∃ walk, graph.IsWalk source node walk ∧ walk.Nodup ∧
    ∀ index ∈ avoided, (graph.edge index).ends ∉ steps walk

theorem reached_avoiding_self (avoided : Finset (Fin graph.edgeCount)) (node : N) :
    graph.ReachedAvoiding avoided node node :=
  ⟨[node], ⟨rfl, rfl, by simp [steps]⟩, List.nodup_singleton node, by simp [steps]⟩

theorem ReachedAvoiding.step {avoided : Finset (Fin graph.edgeCount)} {source : N}
    {index : Fin graph.edgeCount} (kept : index ∉ avoided)
    (reached : graph.ReachedAvoiding avoided source (graph.edge index).source) :
    graph.ReachedAvoiding avoided source (graph.edge index).target := by
  obtain ⟨walk, isWalk, distinct, free⟩ := reached
  by_cases repeated : (graph.edge index).target ∈ walk
  · -- The walk has been at the target before and is cut off there.
    obtain ⟨first, rest, rfl⟩ := List.append_of_mem repeated
    have stepsEq := steps_append_cons first (graph.edge index).target rest
    refine ⟨first ++ [(graph.edge index).target], ⟨?_, by simp, ?_⟩, ?_, ?_⟩
    · have head := isWalk.head
      cases first <;> simpa using head
    · intro step member
      exact isWalk.joined step (stepsEq ▸ List.mem_append_left _ member)
    · exact distinct.sublist ((List.append_sublist_append_left first).mpr
        (List.cons_sublist_cons.mpr (List.nil_sublist rest)))
    · intro other member used
      exact free other member (stepsEq ▸ List.mem_append_left _ used)
  · have stepsEq := steps_concat (graph.edge index).target isWalk.last
    refine ⟨walk ++ [(graph.edge index).target], ⟨?_, by simp, ?_⟩, ?_, ?_⟩
    · have head := isWalk.head
      cases walk with
      | nil => simp at head
      | cons first rest => simpa using head
    · intro step member
      rw [stepsEq, List.mem_append, List.mem_singleton] at member
      rcases member with member | rfl
      · exact isWalk.joined step member
      · rw [graph.weight?_edge]
        rfl
    · rw [List.nodup_append]
      refine ⟨distinct, List.nodup_singleton _, ?_⟩
      intro node member other here same
      rw [same, List.mem_singleton.mp here] at member
      exact repeated member
    · intro other member used
      rw [stepsEq, List.mem_append, List.mem_singleton] at used
      rcases used with used | same
      · exact free other member used
      · exact kept (graph.eq_of_ends_eq same ▸ member)

end Graph

end FlowTour
