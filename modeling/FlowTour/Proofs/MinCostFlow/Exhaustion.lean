import FlowTour.Proofs.MinCostFlow.Routing
import FlowTour.Proofs.Residual.Cut
import Mathlib.Algebra.BigOperators.Fin

/-!
The run that routes a supply comes to its end. Every iteration routes a unit more, and no more can be
routed than the links out of the source let through, so the run stops because a search has missed the
sink: no route leads there any more.
-/

namespace FlowTour.MinCostFlow

open IntegerWeight Residual

variable {n m : Nat} {W : Type} [IntegerWeight W] {links : Vector (Link n W) m}
  {source sink : Fin n} {state next final : State n m W}

/-- What the links out of the source let through. -/
def leavingCapacity (links : Vector (Link n W) m) (source : Fin n) : Nat :=
  ∑ index with (links.get index).tail = source,
    ((links.get index).capacity.map Weight.rank).getD 0

theorem iteration_bound_eq (links : Vector (Link n W) m) (source : Fin n) :
    iterationBound links source = leavingCapacity links source + 1 := by
  have added : ∀ (listed : List (Link n W)) (start : Nat),
      (listed.filter fun link => link.tail = source).foldl
          (fun sum link => sum + (link.capacity.map Weight.rank).getD 0) start =
        start + (listed.map fun link =>
          if link.tail = source then (link.capacity.map Weight.rank).getD 0 else 0).sum := by
    intro listed
    induction listed with
    | nil => simp
    | cons link rest induction =>
        intro start
        rw [List.map_cons, List.sum_cons, List.filter_cons]
        by_cases leaves : link.tail = source
        · simp only [leaves, decide_true, if_true, List.foldl_cons]
          rw [induction]
          omega
        · simp only [leaves, decide_false, Bool.false_eq_true, if_false]
          rw [induction]
          omega
  rw [iterationBound, added, leavingCapacity, Finset.sum_filter, Nat.add_comm]
  obtain ⟨⟨listed⟩, rfl⟩ := links
  exact congrArg (· + 1) (Fin.sum_univ_fun_getElem listed fun link =>
    if link.tail = source then (link.capacity.map Weight.rank).getD 0 else 0).symm

theorem Routed.routed_nonneg (routed : Routed links source sink state)
    (noneEnters : ∀ index, (links.get index).head ≠ source) : 0 ≤ toInt state.routed := by
  rw [← routed.value_eq, net_outflow_of_none_enters noneEnters]
  apply Finset.sum_nonneg
  intro index _
  exact mul_nonneg (routed.sound.flow_nonneg index) (by split <;> decide)

theorem Routed.routed_le (routed : Routed links source sink state)
    (noneEnters : ∀ index, (links.get index).head ≠ source)
    (limited : ∀ index, (links.get index).tail = source → (links.get index).capacity ≠ none) :
    toInt state.routed ≤ leavingCapacity links source := by
  rw [← routed.value_eq, net_outflow_of_none_enters noneEnters, leavingCapacity, Nat.cast_sum,
    Finset.sum_filter]
  apply Finset.sum_le_sum
  intro index _
  split
  · next leaves =>
    obtain ⟨capacity, limit⟩ := Option.ne_none_iff_exists'.mp (limited index leaves)
    have within := routed.sound.limited index capacity (routed.links_eq ▸ limit)
    rw [limit, Option.map_some, Option.getD_some, rank_eq_to_nat]
    omega
  · omega

/-- A flow to which nothing can be added, with potentials that are not positive. -/
structure Exhausted (links : Vector (Link n W) m) (source sink : Fin n) (state : State n m W) :
    Prop where
  routed : Routed links source sink state
  prices_nonpos : ∀ node, price state.potential node ≤ 0
  unreachable : ¬state.network.Reaches source sink

theorem Routed.unreachable (routed : Routed links source sink state) (different : source ≠ sink)
    (limited : ∀ index, (links.get index).tail = source → (links.get index).capacity ≠ none)
    (stopped : (MinCostFlow.augment source sink state).outcome = .ok none) :
    ¬state.network.Reaches source sink := by
  obtain ⟨labels, searched, missed | ⟨reached, found, settled, unlimited⟩⟩ :=
    augment_eq_none stopped
  · obtain ⟨rank, clock, offers, finished⟩ := shortest_paths_finished routed.reduced_nonneg searched
    exact finished.unreachable missed
  · -- The path begins with an arc from the source, so it has a bottleneck.
    have guided := routed.guided searched found settled
    obtain ⟨leads, -, -, -, -, -⟩ := guided
    generalize state.network.tracePath (fun node => (labels.get node).bind Label.parent) sink = path
      at leads unlimited
    cases path with
    | nil => exact absurd leads different
    | cons arc rest =>
        apply absurd unlimited
        apply routed.sound.bottleneck_ne_none (List.mem_cons_self ..)
        intro forward
        rw [routed.links_eq]
        apply limited
        have tail := leads.1
        rwa [Residual.tail, forward, if_neg (by decide), Residual.link, routed.links_eq] at tail

section Ending

variable (different : source ≠ sink) (costs : ∀ index, 0 ≤ toInt (links.get index).cost)
  (capacities : ∀ index capacity, (links.get index).capacity = some capacity →
    0 ≤ toInt capacity)
  (noneEnters : ∀ index, (links.get index).head ≠ source)
  (limited : ∀ index, (links.get index).tail = source → (links.get index).capacity ≠ none)
include different costs capacities noneEnters limited

theorem route_ends (ended : (route links source sink).outcome = .ok final) :
    Traced.Passes (MinCostFlow.augment source sink) (initialState links) final ∧
      (MinCostFlow.augment source sink final).outcome = .ok none := by
  obtain ⟨result, run, noted⟩ := Traced.bind_eq_ok_iff.mp ended
  obtain ⟨_, -, last⟩ := Traced.bind_eq_ok_iff.mp noted
  obtain rfl := Except.ok.inj last
  have start : Routed links source sink (initialState links) := Routed.initial costs capacities
  have routedAt : ∀ state,
      Traced.Passes (MinCostFlow.augment source sink) (initialState links) state →
        Routed links source sink state :=
    fun _ passes => passes.keeps (Routed links source sink)
      (fun _ _ routed stepped => routed.augment different costs stepped) start
  have kept : ∀ before after : State n m W,
      Traced.Passes (MinCostFlow.augment source sink) (initialState links) before →
      (MinCostFlow.augment source sink before).outcome = .ok (some after) →
        Traced.Passes (MinCostFlow.augment source sink) (initialState links) after ∧
          (leavingCapacity links source - toInt after.routed).toNat <
            (leavingCapacity links source - toInt before.routed).toNat := by
    intro before after passes stepped
    have passesNext := passes.next stepped
    have more := ((routedAt before passes).augment_progress stepped).1
    have atMost := (routedAt after passesNext).routed_le noneEnters limited
    exact ⟨passesNext, by omega⟩
  have enough : (leavingCapacity links source - toInt (initialState links).routed).toNat <
      iterationBound links source := by
    have nothing := start.routed_nonneg noneEnters
    rw [iteration_bound_eq]
    omega
  exact Answering.ofTraced.iterate_ends
    (fun state : State n m W => (leavingCapacity links source - toInt state.routed).toNat) kept
    .first enough run

theorem route_exhausted (ended : (route links source sink).outcome = .ok final) :
    Exhausted links source sink final := by
  obtain ⟨passes, stopped⟩ := route_ends different costs capacities noneEnters limited ended
  have noPrice : ∀ node, price (initialState links).potential node ≤ 0 := by
    intro node
    rw [price, initialState, Table.get_replicate, to_int_zero]
  have kept : ∀ before after : State n m W,
      Routed links source sink before ∧ (∀ node, price before.potential node ≤ 0) →
      (MinCostFlow.augment source sink before).outcome = .ok (some after) →
        Routed links source sink after ∧ ∀ node, price after.potential node ≤ 0 := by
    rintro before after ⟨routed, nonpos⟩ stepped
    obtain ⟨-, lower⟩ := routed.augment_progress stepped
    exact ⟨routed.augment different costs stepped, fun node => (lower node).trans (nonpos node)⟩
  obtain ⟨routed, nonpos⟩ :=
    passes.keeps (fun state => Routed links source sink state ∧ ∀ node, price state.potential node ≤ 0)
      kept ⟨Routed.initial costs capacities, noPrice⟩
  exact ⟨routed, nonpos, routed.unreachable different limited stopped⟩

end Ending

end FlowTour.MinCostFlow
