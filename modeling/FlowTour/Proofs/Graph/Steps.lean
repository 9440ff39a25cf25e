import FlowTour.Graph.Path
import Mathlib.Data.List.Rotate

/-!
Consecutive pairs of a list, and the pairs of a round trip, where the last place is followed by the
first one again. Read from another place, a round trip has the same pairs in another order.
-/

namespace FlowTour

variable {N : Type}

theorem steps_append_cons (first : List N) (node : N) (rest : List N) :
    steps (first ++ node :: rest) = steps (first ++ [node]) ++ steps (node :: rest) := by
  induction first with
  | nil => rfl
  | cons other first induction =>
      cases first with
      | nil => rfl
      | cons second first => exact congrArg ((other, second) :: ·) induction

theorem steps_concat {path : List N} {node : N} (next : N) (last : path.getLast? = some node) :
    steps (path ++ [next]) = steps path ++ [(node, next)] := by
  obtain ⟨first, rfl⟩ := List.getLast?_eq_some_iff.mp last
  rw [List.append_assoc, List.singleton_append, steps_append_cons]
  rfl

theorem mem_steps_append {path : List N} {step : N × N} (member : step ∈ steps path)
    (more : List N) : step ∈ steps (path ++ more) := by
  induction path with
  | nil => simp [steps] at member
  | cons node rest induction =>
      cases rest with
      | nil => simp [steps] at member
      | cons next rest =>
          rcases List.mem_cons.mp member with rfl | later
          · exact List.mem_cons_self ..
          · exact List.mem_cons_of_mem _ (induction later)

theorem steps_reverse (path : List N) :
    steps path.reverse = ((steps path).map Prod.swap).reverse := by
  induction path with
  | nil => rfl
  | cons node rest induction =>
      cases rest with
      | nil => rfl
      | cons next rest =>
          have last : (next :: rest).reverse.getLast? = some next := by simp
          rw [List.reverse_cons, steps_concat node last, induction]
          exact List.reverse_cons.symm

theorem steps_map_fst (path : List N) : (steps path).map Prod.fst = path.dropLast := by
  induction path with
  | nil => rfl
  | cons node rest induction =>
      cases rest with
      | nil => rfl
      | cons next rest => exact congrArg (node :: ·) induction

theorem steps_map_snd (path : List N) : (steps path).map Prod.snd = path.tail := by
  rw [steps, List.map_snd_zip]
  simp

theorem fst_mem_of_mem_steps {path : List N} {step : N × N} (member : step ∈ steps path) :
    step.1 ∈ path.dropLast := by
  rw [← steps_map_fst]
  exact List.mem_map_of_mem member

theorem snd_mem_of_mem_steps {path : List N} {step : N × N} (member : step ∈ steps path) :
    step.2 ∈ path.tail := by
  rw [← steps_map_snd]
  exact List.mem_map_of_mem member

theorem ne_of_mem_steps {path : List N} (distinct : path.Nodup) {step : N × N}
    (member : step ∈ steps path) : step.1 ≠ step.2 := by
  induction path with
  | nil => simp [steps] at member
  | cons node rest induction =>
      cases rest with
      | nil => simp [steps] at member
      | cons next rest =>
          have parts := List.nodup_cons.mp distinct
          rcases List.mem_cons.mp member with rfl | later
          · intro same
            apply parts.1
            rw [show node = next from same]
            exact List.mem_cons_self ..
          · exact induction parts.2 later

/-- The pairs of a round trip in open form. -/
def roundSteps (cycle : List N) : List (N × N) := cycle.zip (cycle.rotate 1)

theorem round_steps_cons (first : N) (rest : List N) :
    roundSteps (first :: rest) = steps (first :: rest ++ [first]) := by
  have longer : ∀ (start : N) (body : List N) (final : N),
      (start :: body).zip (body ++ [final]) = (start :: body ++ [final]).zip (body ++ [final]) := by
    intro start body final
    induction body generalizing start with
    | nil => rfl
    | cons next body induction => exact congrArg ((start, next) :: ·) (induction next)
  rw [roundSteps, List.rotate_cons_succ, List.rotate_zero]
  exact longer first rest first

theorem round_steps_of_head {cycle : List N} {first : N} (head : cycle.head? = some first) :
    roundSteps cycle = steps (cycle ++ [first]) := by
  cases cycle with
  | nil => cases head
  | cons node rest =>
      obtain rfl := Option.some.inj head
      exact round_steps_cons node rest

theorem round_steps_rotate (cycle : List N) (places : Nat) :
    roundSteps (cycle.rotate places) = (roundSteps cycle).rotate places := by
  have turned : (cycle.rotate places).rotate 1 = (cycle.rotate 1).rotate places := by
    rw [List.rotate_rotate, List.rotate_rotate, Nat.add_comm]
  rw [roundSteps, roundSteps, turned]
  exact (List.zipWith_rotate_distrib Prod.mk cycle (cycle.rotate 1) places (by simp)).symm

theorem round_steps_map {M : Type} (change : N → M) (cycle : List N) :
    roundSteps (cycle.map change) = (roundSteps cycle).map (Prod.map change change) := by
  rw [roundSteps, roundSteps, ← List.map_rotate, List.zip_map]

section Around

variable {cycle : List N} {first : N}

theorem mem_round_steps_of_is_rotated {turned : List N} (rotated : cycle ~r turned) {step : N × N}
    (member : step ∈ roundSteps turned) : step ∈ roundSteps cycle := by
  obtain ⟨places, rfl⟩ := rotated
  rw [round_steps_rotate] at member
  exact List.mem_rotate.mp member

theorem swap_mem_round_steps {step : N × N} (member : step ∈ roundSteps cycle.reverse) :
    step.swap ∈ roundSteps cycle := by
  cases cycle with
  | nil => simp [roundSteps] at member
  | cons first rest =>
      have turned : first :: rest.reverse ~r (first :: rest).reverse := by
        rw [List.reverse_cons]
        exact ⟨1, by simp⟩
      have backwards : first :: rest.reverse ++ [first] = (first :: rest ++ [first]).reverse := by
        simp
      have found := mem_round_steps_of_is_rotated turned member
      rw [round_steps_cons, backwards, steps_reverse, List.mem_reverse, List.mem_map] at found
      obtain ⟨forwards, listed, rfl⟩ := found
      rwa [Prod.swap_swap, round_steps_cons]

/-- A closed form has the pairs of its open form, and its first node beside itself. -/
theorem round_steps_concat_head (head : cycle.head? = some first) :
    roundSteps (cycle ++ [first]) = roundSteps cycle ++ [(first, first)] := by
  have longerHead : (cycle ++ [first]).head? = some first := by
    rw [List.head?_append, head, Option.some_or]
  rw [round_steps_of_head longerHead, steps_concat first List.getLast?_concat,
    round_steps_of_head head]

theorem ne_of_mem_round_steps (distinct : cycle.Nodup) (several : 1 < cycle.length) {step : N × N}
    (member : step ∈ roundSteps cycle) : step.1 ≠ step.2 := by
  obtain ⟨index, inside, rfl⟩ := List.mem_iff_getElem.mp member
  have bound : index < cycle.length := by
    rw [roundSteps, List.length_zip, List.length_rotate] at inside
    omega
  simp only [roundSteps, List.getElem_zip, List.getElem_rotate]
  intro same
  have wrapped := (distinct.getElem_inj_iff).mp same
  rcases Nat.lt_or_ge (index + 1) cycle.length with within | beyond
  · rw [Nat.mod_eq_of_lt within] at wrapped
    omega
  · have last : index + 1 = cycle.length := by omega
    rw [last, Nat.mod_self] at wrapped
    omega

end Around

end FlowTour
