import FlowTour.Graph.Path
import FlowTour.Proofs.Weight.Range

/-!
Distances along paths over the integers. A path has a distance when all its steps are edges and the sum
is in range after every one of them; then the distance is the exact sum.
-/

namespace FlowTour.Graph

open IntegerWeight

variable {N W : Type} [NodeKey N] [IntegerWeight W]

/-- The weight of a step; a missing edge counts as zero. -/
def stepWeight (graph : Graph N W) (step : N × N) : Int :=
  toInt ((graph.weight? step.1 step.2).getD 0)

def addStep (graph : Graph N W) (sum : W) (step : N × N) : Except (Failure N W) W := do
  let weight ← graph.requireEdge step.1 step.2
  match Weight.tryAdd sum weight with
  | none => .error .arithmeticOverflow
  | some sum => .ok sum

variable {graph : Graph N W} {path : List N} {pairs : List (N × N)} {start sum : W}

theorem path_distance_eq (graph : Graph N W) (path : List N) :
    graph.pathDistance path = (steps path).foldlM graph.addStep 0 := rfl

theorem add_step_eq_ok_iff {step : N × N} : graph.addStep start step = .ok sum ↔
    (graph.weight? step.1 step.2).isSome = true ∧
      toInt sum = toInt start + graph.stepWeight step := by
  rw [addStep, requireEdge, stepWeight]
  cases graph.weight? step.1 step.2 with
  | none => simp [bind, Except.bind]
  | some weight =>
      simp only [bind, Except.bind, Option.isSome_some, Option.getD_some, true_and]
      rw [← try_add_eq_some_iff]
      split
      · next missing => simp [missing]
      · next next found => simp [found]

theorem foldlm_add_step_eq_ok_iff : pairs.foldlM graph.addStep start = .ok sum ↔
    (∀ step ∈ pairs, (graph.weight? step.1 step.2).isSome = true) ∧
      (∀ first, first <+: pairs → InRange W (toInt start + (first.map graph.stepWeight).sum)) ∧
        toInt sum = toInt start + (pairs.map graph.stepWeight).sum := by
  induction pairs generalizing start with
  | nil =>
      constructor
      · intro ended
        obtain rfl := Except.ok.inj ended
        simp [in_range_to_int]
      · rintro ⟨-, -, same⟩
        obtain rfl := to_int_injective (by simpa using same)
        rfl
  | cons step rest induction =>
      rw [List.foldlM_cons, List.forall_mem_cons, List.map_cons, List.sum_cons, ← Int.add_assoc]
      constructor
      · intro ended
        cases added : graph.addStep start step with
        | error failure => simp [added, bind, Except.bind] at ended
        | ok next =>
            obtain ⟨joined, exact⟩ := add_step_eq_ok_iff.mp added
            simp only [added, bind, Except.bind] at ended
            obtain ⟨others, ranges, total⟩ := induction.mp ended
            rw [exact] at total
            refine ⟨⟨joined, others⟩, ?_, total⟩
            intro first leading
            rcases List.prefix_cons_iff.mp leading with rfl | ⟨later, rfl, within⟩
            · simpa using in_range_to_int start
            · have inRange := ranges later within
              rwa [exact, Int.add_assoc] at inRange
      · rintro ⟨⟨joined, others⟩, ranges, total⟩
        have inRange := ranges [step] (List.prefix_cons_iff.mpr (.inr ⟨[], rfl, List.nil_prefix⟩))
        rw [List.map_singleton, List.sum_singleton] at inRange
        obtain ⟨next, exact⟩ := inRange
        rw [add_step_eq_ok_iff.mpr ⟨joined, exact⟩]
        refine induction.mpr ⟨others, ?_, exact ▸ total⟩
        intro first leading
        have inRange := ranges (step :: first) (List.cons_prefix_cons.mpr ⟨rfl, leading⟩)
        rwa [List.map_cons, List.sum_cons, ← Int.add_assoc, ← exact] at inRange

/-- Steps that do not lead back need only the whole sum to be in range. -/
theorem path_distance_eq_ok (joined : ∀ step ∈ steps path, (graph.weight? step.1 step.2).isSome = true)
    (nonneg : ∀ step ∈ steps path, 0 ≤ graph.stepWeight step)
    (exact : toInt sum = ((steps path).map graph.stepWeight).sum) :
    graph.pathDistance path = .ok sum := by
  rw [path_distance_eq, foldlm_add_step_eq_ok_iff, to_int_zero]
  simp only [Int.zero_add]
  refine ⟨joined, ?_, exact⟩
  intro first leading
  obtain ⟨last, same⟩ := leading
  rw [← same, List.forall_mem_append] at nonneg
  rw [← same, List.map_append, List.sum_append] at exact
  have before := sum_map_nonneg nonneg.1
  have after := sum_map_nonneg nonneg.2
  exact (in_range_to_int sum).of_nonneg_of_le before (by omega)

end FlowTour.Graph
