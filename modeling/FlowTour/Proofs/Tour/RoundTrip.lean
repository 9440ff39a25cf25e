import FlowTour.Proofs.Graph.Index
import FlowTour.Proofs.Graph.Steps
import FlowTour.Proofs.Table
import FlowTour.Proofs.Tour.Journal
import Mathlib.Algebra.BigOperators.Fin
import Mathlib.Algebra.Order.BigOperators.Group.Finset

/-!
Round trips and their lengths over the integers. A table of distances that was accepted has a ceiling:
no steps that leave different nodes are farther in sum, so every path and every round trip can be
measured by plain sums. Round trips of keys and of indices that begin at the first node correspond
to each other, with the same lengths.
-/

namespace FlowTour

open IntegerWeight

section Keys

variable {N W : Type} [NodeKey N]

/-- A round trip through all nodes, in open form. A single node needs no edge. -/
structure Graph.IsRoundTrip (graph : Graph N W) (cycle : List N) : Prop where
  perm : cycle.Perm graph.nodes
  joined : 1 < graph.nodeCount →
    ∀ step ∈ roundSteps cycle, (graph.weight? step.1 step.2).isSome = true

/-- The length of a round trip back to its first node; a missing edge counts as zero. -/
def Graph.closedLength [IntegerWeight W] (graph : Graph N W) (cycle : List N) : Int :=
  ((roundSteps cycle).map fun step => toInt ((graph.weight? step.1 step.2).getD 0)).sum

end Keys

namespace Tour

variable {n : Nat} {N W : Type} [IntegerWeight W]

namespace Distances

variable (distances : Distances n W)

def hop (step : Fin n × Fin n) : Int := toInt ((distances.get step.1 step.2).getD 0)

def span (pairs : List (Fin n × Fin n)) : Int := (pairs.map distances.hop).sum

def Joins (pairs : List (Fin n × Fin n)) : Prop :=
  ∀ step ∈ pairs, (distances.get step.1 step.2).isSome = true

/-- Distances none of which is negative, and which sum up below the ceiling along any steps that leave
different nodes. -/
structure Fits (ceiling : W) : Prop where
  nonneg : ∀ source target weight, distances.get source target = some weight → 0 ≤ toInt weight
  span_le : ∀ pairs, (pairs.map Prod.fst).Nodup → distances.span pairs ≤ toInt ceiling

variable {distances} {ceiling : W} {pairs : List (Fin n × Fin n)}

theorem hop_of_get {source target : Fin n} {weight : W}
    (found : distances.get source target = some weight) :
    distances.hop (source, target) = toInt weight := by
  rw [hop, found, Option.getD_some]

@[simp] theorem span_nil : distances.span [] = 0 := rfl

@[simp] theorem span_cons (step : Fin n × Fin n) :
    distances.span (step :: pairs) = distances.hop step + distances.span pairs := by
  rw [span, List.map_cons, List.sum_cons, span]

@[simp] theorem span_append (later : List (Fin n × Fin n)) :
    distances.span (pairs ++ later) = distances.span pairs + distances.span later := by
  rw [span, List.map_append, List.sum_append, span, span]

theorem Fits.hop_nonneg (fits : distances.Fits ceiling) (step : Fin n × Fin n) :
    0 ≤ distances.hop step := by
  rw [hop]
  cases found : distances.get step.1 step.2 with
  | none => rw [Option.getD_none, to_int_zero]
  | some weight => exact fits.nonneg _ _ weight found

theorem Fits.span_nonneg (fits : distances.Fits ceiling) (pairs : List (Fin n × Fin n)) :
    0 ≤ distances.span pairs :=
  sum_map_nonneg fun step _ => fits.hop_nonneg step

section Accepted

/-- The heaviest edge out of a node, zero where there is none. -/
def heaviest (distances : Distances n W) (source : Fin n) : Int :=
  ((Weight.greatest? ((List.finRange n).filterMap (distances.get source))).map toInt).getD 0

theorem hop_le_heaviest (nonneg : ∀ source target weight,
      distances.get source target = some weight → 0 ≤ toInt weight) (step : Fin n × Fin n) :
    0 ≤ heaviest distances step.1 ∧ distances.hop step ≤ heaviest distances step.1 := by
  have bounds : ∀ target weight, distances.get step.1 target = some weight →
      toInt weight ≤ heaviest distances step.1 := by
    intro target weight found
    have member : weight ∈ (List.finRange n).filterMap (distances.get step.1) :=
      List.mem_filterMap.mpr ⟨target, List.mem_finRange target, found⟩
    rw [heaviest]
    cases top : Weight.greatest? ((List.finRange n).filterMap (distances.get step.1)) with
    | none =>
        have isSome := greatest?_is_some_of_mem member
        rw [top] at isSome
        cases isSome
    | some greatest => exact le_to_int_greatest? top weight member
  have floor : 0 ≤ heaviest distances step.1 := by
    cases entries : (List.finRange n).filterMap (distances.get step.1) with
    | nil => simp [heaviest, entries, Weight.greatest?]
    | cons weight rest =>
        have listed : weight ∈ (List.finRange n).filterMap (distances.get step.1) := by
          rw [entries]
          exact List.mem_cons_self ..
        obtain ⟨target, -, found⟩ := List.mem_filterMap.mp listed
        exact (nonneg _ _ _ found).trans (bounds target weight found)
  refine ⟨floor, ?_⟩
  rw [hop]
  cases found : distances.get step.1 step.2 with
  | none => rwa [Option.getD_none, to_int_zero]
  | some weight => exact bounds step.2 weight found

theorem sum_map_le_of_nodup {share : Fin n → Int} (nonneg : ∀ node, 0 ≤ share node)
    {nodes : List (Fin n)} (distinct : nodes.Nodup) : (nodes.map share).sum ≤ ∑ node, share node := by
  rw [← List.sum_toFinset share distinct]
  apply Finset.sum_le_sum_of_subset_of_nonneg (Finset.subset_univ _)
  intro node _ _
  exact nonneg node

/-- Steps that leave different nodes leave each of them at most as far as its heaviest edge. -/
theorem fits_of_total (nonneg : ∀ source target weight,
      distances.get source target = some weight → 0 ≤ toInt weight)
    (summed : Weight.total? ((List.finRange n).filterMap fun source =>
      Weight.greatest? ((List.finRange n).filterMap (distances.get source))) = some ceiling) :
    distances.Fits ceiling := by
  refine ⟨nonneg, ?_⟩
  intro pairs distinct
  have bound := fun step => hop_le_heaviest nonneg step
  have ceilingEq : toInt ceiling = ∑ node, heaviest distances node := by
    rw [to_int_total? summed, sum_map_filter_map, Fin.sum_univ_def]
    rfl
  have each : distances.span pairs ≤ ((pairs.map Prod.fst).map (heaviest distances)).sum := by
    rw [span, List.map_map]
    apply List.sum_le_sum
    intro step _
    exact (bound step).2
  rw [ceilingEq]
  exact each.trans (sum_map_le_of_nodup (fun node => (bound (node, node)).1) distinct)

/-- The table shows the weights of the graph's edges. -/
def Shows [NodeKey N] {graph : Graph N W} (distances : Distances graph.nodeCount W) : Prop :=
  ∀ source target, distances.get source target =
    graph.weight? (graph.key source) (graph.key target)

omit [IntegerWeight W] in
theorem accepted_eq [Weight W] [NodeKey N] {graph : Graph N W}
    {distances : Distances graph.nodeCount W} (accepted : Distances.ofGraph graph = .ok distances) :
    distances.Shows ∧ graph.refuseNegative .distance = .ok () ∧
      (Weight.total? ((List.finRange graph.nodeCount).filterMap fun source =>
        Weight.greatest? ((List.finRange graph.nodeCount).filterMap
          (distances.get source)))).isSome = true ∧
      (Weight.total? ((List.finRange graph.nodeCount).filterMap fun target =>
        Weight.greatest? ((List.finRange graph.nodeCount).filterMap fun source =>
          distances.get source target))).isSome = true := by
  unfold Distances.ofGraph at accepted
  cases refused : graph.refuseNegative (W := W) .distance with
  | error failure => simp [refused, bind, Except.bind] at accepted
  | ok done =>
      simp only [refused, bind, Except.bind] at accepted
      split at accepted
      · next sums =>
        obtain rfl := Except.ok.inj accepted
        refine ⟨?_, rfl, sums⟩
        intro source target
        rw [Distances.get, Table.get_of_fn, Table.get_of_fn]
      · cases accepted

theorem of_graph_eq_ok [NodeKey N] {graph : Graph N W} {distances : Distances graph.nodeCount W}
    (accepted : Distances.ofGraph graph = .ok distances) :
    distances.Shows ∧ ∃ ceiling, distances.Fits ceiling := by
  obtain ⟨shows, refused, sums, -⟩ := accepted_eq accepted
  obtain ⟨ceiling, summed⟩ := Option.isSome_iff_exists.mp sums
  refine ⟨shows, ceiling, fits_of_total ?_ summed⟩
  intro source target weight found
  rw [shows] at found
  obtain ⟨index, edge⟩ := graph.weight?_eq_some_iff.mp found
  have here := graph.refuse_negative_eq_ok_iff.mp refused _ (graph.edge_mem index)
  rwa [edge] at here

end Accepted

section Measured

/-- A round trip over indices that begins at the start. -/
structure Circuit (distances : Distances n W) (start : Fin n) (cycle : List (Fin n)) : Prop where
  head : cycle.head? = some start
  perm : cycle.Perm (List.finRange n)
  joins : distances.Joins (roundSteps cycle)

variable {start : Fin n} {cycle : List (Fin n)}

omit [IntegerWeight W] in
theorem Circuit.nodup (circuit : distances.Circuit start cycle) : cycle.Nodup :=
  circuit.perm.nodup_iff.mpr (List.nodup_finRange n)

theorem round_steps_map_fst (cycle : List (Fin n)) : (roundSteps cycle).map Prod.fst = cycle := by
  rw [roundSteps, List.map_fst_zip]
  simp

theorem round_steps_map_snd (cycle : List (Fin n)) :
    (roundSteps cycle).map Prod.snd = cycle.rotate 1 := by
  rw [roundSteps, List.map_snd_zip]
  simp

theorem Fits.span_round_steps_le (fits : distances.Fits ceiling) (distinct : cycle.Nodup) :
    distances.span (roundSteps cycle) ≤ toInt ceiling := by
  apply fits.span_le
  rwa [round_steps_map_fst]

theorem Fits.span_steps_le (fits : distances.Fits ceiling) (distinct : cycle.Nodup) :
    distances.span (steps cycle) ≤ toInt ceiling := by
  apply fits.span_le
  rw [steps_map_fst]
  exact distinct.sublist (List.dropLast_sublist cycle)

theorem joins_of_mapm {weights : List W}
    (found : (pairs.mapM fun (step : Fin n × Fin n) => distances.get step.1 step.2) =
      some weights) :
    distances.Joins pairs ∧ weights.map toInt = pairs.map distances.hop := by
  induction pairs generalizing weights with
  | nil =>
      obtain rfl := Option.some.inj found
      exact ⟨by simp [Joins], rfl⟩
  | cons step rest induction =>
      rw [List.mapM_cons] at found
      obtain ⟨weight, here, others⟩ := Option.bind_eq_some_iff.mp found
      obtain ⟨later, foundLater, last⟩ := Option.bind_eq_some_iff.mp others
      obtain rfl := Option.some.inj last
      obtain ⟨joins, hops⟩ := induction foundLater
      constructor
      · intro other member
        rcases List.mem_cons.mp member with rfl | member
        · rw [here]
          rfl
        · exact joins other member
      · rw [List.map_cons, List.map_cons, hops, ← hop_of_get here]

omit [IntegerWeight W] in
theorem exists_mapm_of_joins (joins : distances.Joins pairs) :
    ∃ weights, (pairs.mapM fun (step : Fin n × Fin n) => distances.get step.1 step.2) =
      some weights := by
  induction pairs with
  | nil => exact ⟨[], rfl⟩
  | cons step rest induction =>
      obtain ⟨weight, here⟩ := Option.isSome_iff_exists.mp (joins step (List.mem_cons_self ..))
      obtain ⟨weights, others⟩ :=
        induction fun other member => joins other (List.mem_cons_of_mem _ member)
      refine ⟨weight :: weights, ?_⟩
      rw [List.mapM_cons, here, others]
      rfl

omit [IntegerWeight W] in
theorem zip_eq_round_steps {Item : Type} (first second : Item) (rest : List Item) :
    (first :: second :: rest).zip (second :: rest ++ [first]) =
      roundSteps (first :: second :: rest) := by
  rw [roundSteps, List.rotate_cons_succ, List.rotate_zero]

omit [IntegerWeight W] in
theorem exists_tour_length [Weight W] (joins : distances.Joins (roundSteps cycle))
    (nonempty : cycle ≠ []) : ∃ length, distances.tourLength cycle = some length := by
  cases cycle with
  | nil => exact absurd rfl nonempty
  | cons first rest =>
      cases rest with
      | nil => exact ⟨_, rfl⟩
      | cons second rest =>
          rw [← zip_eq_round_steps] at joins
          obtain ⟨weights, listed⟩ := exists_mapm_of_joins joins
          exact ⟨Weight.total weights, by rw [tour_length_cons_cons, listed, Option.map_some]⟩

theorem tour_length_eq_some (fits : distances.Fits ceiling) (distinct : cycle.Nodup)
    (several : 1 < cycle.length) {length : W} (found : distances.tourLength cycle = some length) :
    distances.Joins (roundSteps cycle) ∧ toInt length = distances.span (roundSteps cycle) := by
  cases cycle with
  | nil => cases found
  | cons first rest =>
      cases rest with
      | nil => simp at several
      | cons second rest =>
          rw [tour_length_cons_cons] at found
          obtain ⟨weights, listed, rfl⟩ := Option.map_eq_some_iff.mp found
          rw [zip_eq_round_steps] at listed
          obtain ⟨joins, hops⟩ := joins_of_mapm listed
          refine ⟨joins, ?_⟩
          have below := fits.span_round_steps_le distinct
          rw [span, ← hops] at below ⊢
          apply to_int_total _ below
          intro weight member
          have value : toInt weight ∈ (roundSteps (first :: second :: rest)).map distances.hop := by
            rw [← hops]
            exact List.mem_map_of_mem member
          obtain ⟨step, -, same⟩ := List.mem_map.mp value
          rw [← same]
          exact fits.hop_nonneg step

end Measured

section Correspondence

variable [NodeKey N] {graph : Graph N W} {distances : Distances graph.nodeCount W}
  {start : Fin graph.nodeCount}

theorem Shows.closed_length_map (shows : distances.Shows) (cycle : List (Fin graph.nodeCount)) :
    graph.closedLength (cycle.map graph.key) = distances.span (roundSteps cycle) := by
  rw [Graph.closedLength, round_steps_map, List.map_map, span]
  apply congrArg
  apply List.map_congr_left
  intro step _
  rw [hop, shows]
  rfl

omit [IntegerWeight W] in
theorem Shows.joins_iff (shows : distances.Shows) (cycle : List (Fin graph.nodeCount)) :
    distances.Joins (roundSteps cycle) ↔
      ∀ step ∈ roundSteps (cycle.map graph.key), (graph.weight? step.1 step.2).isSome = true := by
  rw [round_steps_map, List.forall_mem_map]
  apply forall₂_congr
  intro step _
  rw [shows]
  rfl

omit [IntegerWeight W] in
theorem Shows.is_round_trip (shows : distances.Shows) {cycle : List (Fin graph.nodeCount)}
    (circuit : distances.Circuit start cycle) : graph.IsRoundTrip (cycle.map graph.key) where
  perm := by
    rw [← graph.map_key_fin_range]
    exact circuit.perm.map graph.key
  joined _ := (shows.joins_iff cycle).mp circuit.joins

omit [IntegerWeight W] in
theorem exists_map_key_eq {cycle : List N} (perm : cycle.Perm graph.nodes) :
    ∃ indices : List (Fin graph.nodeCount), indices.map graph.key = cycle ∧
      indices.Perm (List.finRange graph.nodeCount) := by
  have listed : (cycle.attach.map fun node =>
      graph.index node.1 (perm.mem_iff.mp node.2)).map graph.key = cycle := by
    simp only [List.map_map, Function.comp_def, Graph.key_index, List.attach_map_subtype_val]
  refine ⟨_, listed, ?_⟩
  rw [← List.map_perm_map_iff graph.key_injective, listed, graph.map_key_fin_range]
  exact perm

omit [IntegerWeight W] in
/-- Every round trip is a circuit from the start, read from another place. -/
theorem Shows.exists_circuit_eq (shows : distances.Shows) (several : 1 < graph.nodeCount)
    (start : Fin graph.nodeCount) {cycle : List N} (trip : graph.IsRoundTrip cycle) :
    ∃ indices places, distances.Circuit start indices ∧
      cycle.rotate places = indices.map graph.key := by
  obtain ⟨indices, rfl, perm⟩ := exists_map_key_eq trip.perm
  obtain ⟨before, after, rfl⟩ := List.append_of_mem (perm.mem_iff.mpr (List.mem_finRange start))
  have joins := (shows.joins_iff _).mpr (trip.joined several)
  have turned : (before ++ start :: after).rotate before.length = start :: after ++ before :=
    List.rotate_append_length_eq before (start :: after)
  refine ⟨start :: after ++ before, before.length, ⟨rfl, ?_, ?_⟩, ?_⟩
  · rw [← turned]
    exact (List.rotate_perm _ _).trans perm
  · intro step member
    rw [← turned, round_steps_rotate, List.mem_rotate] at member
    exact joins step member
  · rw [← List.map_rotate, turned]

theorem closed_length_rotate (cycle : List N) (places : Nat) :
    graph.closedLength (cycle.rotate places) = graph.closedLength cycle := by
  rw [Graph.closedLength, round_steps_rotate]
  exact ((List.rotate_perm _ _).map _).sum_eq

theorem Shows.exists_circuit (shows : distances.Shows) (several : 1 < graph.nodeCount)
    (start : Fin graph.nodeCount) {cycle : List N} (trip : graph.IsRoundTrip cycle) :
    ∃ indices, distances.Circuit start indices ∧
      distances.span (roundSteps indices) = graph.closedLength cycle := by
  obtain ⟨indices, places, circuit, turned⟩ := shows.exists_circuit_eq several start trip
  refine ⟨indices, circuit, ?_⟩
  rw [← shows.closed_length_map, ← turned, closed_length_rotate]

end Correspondence

end Distances

end Tour

end FlowTour
