import FlowTour.Proofs.Tour.Answers
import FlowTour.Proofs.Tour.Budget

/-!
The search and the walk to the nearest node. The search begins with the round trip of the walk and gives
it up only for a shorter one, so it never loses to the walk; without any budget to spend, and wherever
it finds nothing shorter, it answers with the very same round trip.
-/

namespace FlowTour.Tour

open IntegerWeight

section Search

variable {n : Nat} {W : Type} [Weight W] {distances : Distances n W} {start : Fin n}
  {search next final : Search n W} {stops : List (Fin n)} {length : W} {Cause : Type}

theorem incumbent_of_walk (walked : nearestNeighbor? distances start = some stops)
    (measured : distances.tourLength stops = some length) :
    (initialSearch distances start).incumbent = some (length, stops) := by
  rw [initialSearch, walked, Option.bind_some, measured]
  rfl

theorem ExpandStep.incumbent_eq (step : ExpandStep distances start (some 0) search (some next)) :
    next.incumbent = search.incumbent := by
  cases step with
  | expanded running popped beating unspent branched =>
      exact absurd (unspent 0 rfl) (Nat.not_lt_zero _)
  | _ => rfl

/-- A search that may not expand any path keeps what it began with. -/
theorem run_search_incumbent_eq (ran : (runSearch distances start (some 0) :
      Traced (Progress W) Cause (Search n W)).outcome = .ok final) :
    final.incumbent = (initialSearch distances start).incumbent :=
  Answering.ofTraced.iterate_keeps
    (fun state => state.incumbent = (initialSearch distances start).incumbent)
    (fun _ _ same stepped => (expand_step_of_expand stepped).incumbent_eq.trans same)
    rfl (run_search_eq_ok_iff.mp ran)

end Search

section Walks

variable {N W : Type} [NodeKey N] [IntegerWeight W] {graph : Graph N W}

theorem distance_of_single {n : Nat} {distances : Distances n W} {start : Fin n} {length : W}
    (measured : distances.tourLength [start] = some length) : length = 0 := by
  obtain rfl := Option.some.inj measured
  have neutral : toInt (Weight.neutral : W) = 0 := by rw [neutral_eq_zero, to_int_zero]
  have zero : toInt (0 : W) = 0 := to_int_zero
  have atMost : toInt (Weight.neutral : W) + toInt (0 : W) ≤ toInt (0 : W) := by omega
  apply to_int_injective
  rw [to_int_add_of_le neutral.ge zero.ge atMost, neutral, Int.zero_add]

theorem branch_and_bound_never_loses {walk : Tour N W} (walked : (greedy graph).outcome = .ok walk)
    (budget : Option Nat) : ∃ tour, (branchAndBound graph budget).outcome = .ok tour ∧
      toInt tour.distance ≤ toInt walk.distance ∧
      (tour.distance = walk.distance → tour.nodes = walk.nodes) ∧
      (budget = some 0 → tour.distance = walk.distance ∧ tour.nodes = walk.nodes) := by
  obtain ⟨distances, filled, stops, length, accepted, found, measured, rfl⟩ := greedy_eq_ok walked
  by_cases single : graph.nodeCount = 1
  · obtain rfl := Option.some.inj (found.symm.trans (nearest_neighbor?_single _ single))
    obtain rfl := distance_of_single measured
    exact ⟨_, branch_and_bound_single accepted filled single, Int.le_refl _, fun _ => rfl,
      fun _ => ⟨rfl, rfl⟩⟩
  · have several : 1 < graph.nodeCount := by omega
    obtain ⟨final, ran⟩ : ∃ final, (runSearch distances ⟨0, filled⟩ budget :
        Traced (Progress W) (Failure N W) (Search graph.nodeCount W)).outcome = .ok final :=
      run_search_answers distances ⟨0, filled⟩ budget
    have outcome := branch_and_bound_several accepted filled several ran
    have initially := incumbent_of_walk found measured
    rcases improves_of_iterate (run_search_eq_ok_iff.mp ran) with same | ⟨best, trip, better, beating⟩
    · rw [same, initially] at outcome
      exact ⟨_, outcome, Int.le_refl _, fun _ => rfl, fun _ => ⟨rfl, rfl⟩⟩
    · have shorter : toInt best < toInt length := lt_of_beats beating initially
      rw [better] at outcome
      refine ⟨_, outcome, shorter.le, ?_, ?_⟩
      · intro same
        have equal : best = length := same
        rw [equal] at shorter
        exact absurd shorter (Int.lt_irrefl _)
      · rintro rfl
        have kept := (run_search_incumbent_eq ran).trans initially
        obtain ⟨rfl, rfl⟩ := Prod.mk.inj (Option.some.inj (better.symm.trans kept))
        exact ⟨rfl, rfl⟩

theorem branch_and_bound_never_loses_lured : ∃ walk tour : Tour Int Int32,
    (greedy lured).outcome = .ok walk ∧ walk.distance = 12 ∧
      (branchAndBound lured (some 0)).outcome = .ok tour ∧ tour.distance = 12 ∧
      tour.nodes = walk.nodes ∧
      ∃ best, (branchAndBound lured none).outcome = .ok best ∧ toInt best.distance ≤ 12 := by
  have walked : (greedy lured).outcome.toOption.any (·.distance = 12) = true := by decide +kernel
  obtain ⟨walk, answered, distance⟩ := Traced.exists_ok_of_any walked
  have length : walk.distance = 12 := of_decide_eq_true distance
  obtain ⟨tour, unspent, -, -, same⟩ := branch_and_bound_never_loses answered (some 0)
  obtain ⟨best, searched, atMost, -⟩ := branch_and_bound_never_loses answered none
  obtain ⟨sameLength, sameNodes⟩ := same rfl
  rw [length] at sameLength atMost
  exact ⟨walk, tour, answered, length, unspent, sameLength, sameNodes, best, searched, atMost⟩

end Walks

end FlowTour.Tour
