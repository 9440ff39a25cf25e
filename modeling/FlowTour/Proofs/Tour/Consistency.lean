import FlowTour.Proofs.Tour.Budget
import FlowTour.Proofs.Tour.Charges

/-!
How the bound of the search behaves along a path. No round trip that extends the path is shorter, and
going on by an edge never lowers the bound: the steps that the longer path's bound is made of, together
with that edge, are steps that the shorter path's bound chooses from.
-/

namespace FlowTour.Tour

open IntegerWeight

section Table

variable {n : Nat} {W : Type} [IntegerWeight W] {distances : Distances n W} {ceiling high : W}
  {start node : Fin n} {trail : Trail n} {opening : Fin n × Fin n} {pairs : List (Fin n × Fin n)}
  {distance weight longer : W}

omit [IntegerWeight W] in
theorem Departures.prepend (fresh : node ∈ trail.remaining)
    (joined : (distances.get trail.last node).isSome = true)
    (departures : Departures distances start node (trail.extend node).remaining opening pairs) :
    Departures distances start trail.last trail.remaining (trail.last, node) (opening :: pairs) where
  opens := ⟨rfl, fresh⟩
  leave := by
    rw [List.map_cons, departures.opens.1]
    exact (departures.leave.cons node).trans (Trail.perm_remaining_extend fresh)
  onward := by
    obtain ⟨origin, among⟩ := departures.opens
    obtain ⟨ahead, different⟩ := Trail.mem_remaining_extend.mp among
    rw [List.forall_mem_cons]
    constructor
    · apply List.mem_append_left
      rw [List.mem_filter, decide_eq_true_iff, origin]
      exact ⟨ahead, different⟩
    · intro step member
      rcases List.mem_append.mp (departures.onward step member) with later | final
      · apply List.mem_append_left
        obtain ⟨target, apart⟩ := List.mem_filter.mp later
        exact List.mem_filter.mpr ⟨(Trail.mem_remaining_extend.mp target).1, apart⟩
      · exact List.mem_append_right _ final
  joins := List.forall_mem_cons.mpr ⟨joined, departures.joins⟩

omit [IntegerWeight W] in
theorem Arrivals.prepend (fresh : node ∈ trail.remaining)
    (joined : (distances.get trail.last node).isSome = true)
    (arrivals : Arrivals distances start node (trail.extend node).remaining opening pairs) :
    Arrivals distances start trail.last trail.remaining opening ((trail.last, node) :: pairs) where
  closes := ⟨(Trail.mem_remaining_extend.mp arrivals.closes.1).1, arrivals.closes.2⟩
  enter := by
    rw [List.map_cons]
    exact (arrivals.enter.cons node).trans (Trail.perm_remaining_extend fresh)
  onward := by
    rw [List.forall_mem_cons]
    constructor
    · exact List.mem_append_right _ (List.mem_singleton.mpr rfl)
    · intro step member
      have entered := arrivals.enter.mem_iff.mp (List.mem_map_of_mem member)
      have different := (Trail.mem_remaining_extend.mp entered).2
      apply List.mem_append_left
      rw [List.mem_filter, decide_eq_true_iff]
      rcases List.mem_append.mp (arrivals.onward step member) with later | final
      · obtain ⟨source, apart⟩ := List.mem_filter.mp later
        exact ⟨(Trail.mem_remaining_extend.mp source).1, of_decide_eq_true apart⟩
      · rw [List.mem_singleton.mp final]
        exact ⟨fresh, Ne.symm different⟩
  joins := by
    obtain ⟨closing, others⟩ := List.forall_mem_cons.mp arrivals.joins
    exact List.forall_mem_cons.mpr ⟨closing, List.forall_mem_cons.mpr ⟨joined, others⟩⟩

/-- A longer path has no smaller bound, and it has none where the shorter one has none. -/
theorem lower_bound?_le_extend (fits : distances.Fits ceiling)
    (entering : distances.FitsEntering high) (isPath : trail.IsPath distances start)
    (exact : toInt distance = distances.span (steps trail.nodes)) (fresh : node ∈ trail.remaining)
    (joined : distances.get trail.last node = some weight)
    (found : lowerBound? distances start (trail.extend node) (distance + weight) = some longer) :
    ∃ bound, lowerBound? distances start trail distance = some bound ∧
      toInt bound ≤ toInt longer := by
  have edge : (distances.get trail.last node).isSome = true := by rw [joined, Option.isSome_some]
  have hop := Distances.hop_of_get joined
  obtain ⟨longerPath, longerExact⟩ := extend_exact fits isPath exact fresh joined
  have length := longerExact.trans (span_extend exact joined)
  have before : 0 ≤ toInt distance := exact ▸ fits.span_nonneg _
  obtain ⟨⟨opening, pairs, departures, leavingLe⟩, closing, others, arrivals, enteringLe⟩ :=
    (lower_bound_ledger_charged fits entering longerPath longerExact).2 longer found
  have leavingEq : distances.span ((trail.last, node) :: opening :: pairs) =
      toInt weight + distances.span (opening :: pairs) := by rw [Distances.span_cons, hop]
  have enteringEq : distances.span (closing :: (trail.last, node) :: others) =
      toInt weight + distances.span (closing :: others) := by
    rw [Distances.span_cons, Distances.span_cons, Distances.span_cons, hop]
    omega
  have leavingFits : distances.span ((trail.last, node) :: opening :: pairs) ≤ toInt longer := by
    omega
  have enteringFits : distances.span (closing :: (trail.last, node) :: others) ≤ toInt longer := by
    omega
  obtain ⟨leaving, left, leavingNonneg, leavingAtMost⟩ :=
    (departures.prepend fresh edge).leaving_bound?_le fits leavingFits
  obtain ⟨entered, arrived, -, enteringAtMost⟩ :=
    (arrivals.prepend fresh edge).entering_bound?_le fits enteringFits
  exact lower_bound?_of_parts before left leavingNonneg (by omega) arrived (by omega)
    (Int.le_refl (toInt longer))

end Table

section Graphs

variable {N W : Type} [NodeKey N] [IntegerWeight W] {graph : Graph N W}
  {distances : Distances graph.nodeCount W} {start : Fin graph.nodeCount}
  {indices : List (Fin graph.nodeCount)}

omit [IntegerWeight W] in
theorem Distances.Shows.circuit (shows : distances.Shows) (several : 1 < graph.nodeCount)
    (head : indices.head? = some start) (trip : graph.IsRoundTrip (indices.map graph.key)) :
    distances.Circuit start indices where
  head := head
  perm := by
    rw [← List.map_perm_map_iff graph.key_injective, graph.map_key_fin_range]
    exact trip.perm
  joins := (shows.joins_iff indices).mpr (trip.joined several)

omit [IntegerWeight W] in
theorem Distances.Shows.exists_circuit_of_extends (shows : distances.Shows)
    {trail : Trail graph.nodeCount} (isPath : trail.IsPath distances start)
    (several : 1 < graph.nodeCount) {cycle : List N} (trip : graph.IsRoundTrip cycle)
    (extending : trail.nodes.map graph.key <+: cycle) :
    ∃ indices, indices.map graph.key = cycle ∧ distances.Circuit start indices ∧
      trail.nodes <+: indices := by
  obtain ⟨indices, rfl, -⟩ := Distances.exists_map_key_eq trip.perm
  have before : trail.nodes <+: indices :=
    (List.prefix_map_iff_of_injective graph.key_injective).mp extending
  have head : indices.head? = some start := by
    obtain ⟨rest, rfl⟩ := before
    rw [List.head?_append, isPath.head]
    rfl
  exact ⟨indices, rfl, shows.circuit several head trip, before⟩

/-- The bound of a path that is no round trip yet is at most the length of every round trip that extends
it, it is missing only where there is none, and going on by an edge neither lowers nor creates it. -/
theorem lower_bound?_is_consistent (graph : Graph N W) (distances : Distances graph.nodeCount W)
    (accepted : Distances.ofGraph graph = .ok distances) (start : Fin graph.nodeCount)
    (trail : Trail graph.nodeCount) (isPath : trail.IsPath distances start)
    (unfinished : trail.remaining ≠ []) (distance : W)
    (exact : toInt distance = distances.span (steps trail.nodes)) :
    (∀ cycle, graph.IsRoundTrip cycle → trail.nodes.map graph.key <+: cycle →
        ∃ bound, lowerBound? distances start trail distance = some bound ∧
          toInt bound ≤ graph.closedLength cycle) ∧
      (lowerBound? distances start trail distance = none →
        ¬∃ cycle, graph.IsRoundTrip cycle ∧ trail.nodes.map graph.key <+: cycle) ∧
      ∀ node ∈ trail.remaining, ∀ weight, distances.get trail.last node = some weight →
        (∀ longer,
          lowerBound? distances start (trail.extend node) (distance + weight) = some longer →
            ∃ bound, lowerBound? distances start trail distance = some bound ∧
              toInt bound ≤ toInt longer) ∧
          (lowerBound? distances start trail distance = none →
            lowerBound? distances start (trail.extend node) (distance + weight) = none) := by
  obtain ⟨shows, ceiling, fits⟩ := Distances.of_graph_eq_ok accepted
  obtain ⟨high, entering⟩ := Distances.exists_fits_entering accepted
  have size := Trail.length_add_length_remaining isPath.nodup
  have ahead : 0 < trail.remaining.length := List.length_pos_iff.mpr unfinished
  have short : trail.length < graph.nodeCount := by omega
  have several : 1 < graph.nodeCount := Nat.lt_of_le_of_lt (Nat.le_add_left 1 _) short
  have admissible : ∀ cycle, graph.IsRoundTrip cycle → trail.nodes.map graph.key <+: cycle →
      ∃ bound, lowerBound? distances start trail distance = some bound ∧
        toInt bound ≤ graph.closedLength cycle := by
    intro cycle trip extending
    obtain ⟨indices, rfl, circuit, before⟩ :=
      shows.exists_circuit_of_extends isPath several trip extending
    rw [shows.closed_length_map]
    exact lower_bound?_le_of_extends fits isPath exact short circuit before
  refine ⟨admissible, ?_, ?_⟩
  · rintro missing ⟨cycle, trip, extending⟩
    obtain ⟨bound, found, -⟩ := admissible cycle trip extending
    cases missing.symm.trans found
  · intro node fresh weight joined
    have consistent : ∀ longer,
        lowerBound? distances start (trail.extend node) (distance + weight) = some longer →
          ∃ bound, lowerBound? distances start trail distance = some bound ∧
            toInt bound ≤ toInt longer :=
      fun _ found => lower_bound?_le_extend fits entering isPath exact fresh joined found
    refine ⟨consistent, ?_⟩
    intro missing
    rw [Option.eq_none_iff_forall_ne_some]
    intro longer found
    obtain ⟨bound, shorter, -⟩ := consistent longer found
    cases missing.symm.trans shorter

theorem lower_bound?_is_consistent_lured : ∃ distances : Distances lured.nodeCount Int32,
    Distances.ofGraph lured = .ok distances ∧
      ∃ bound, lowerBound? distances ⟨0, by decide⟩ ⟨⟨1, by decide⟩, [⟨0, by decide⟩]⟩ 1 =
          some bound ∧
        toInt bound ≤ lured.closedLength [1, 2, 4, 3] ∧
        ∃ longer, lowerBound? distances ⟨0, by decide⟩
            ⟨⟨2, by decide⟩, [⟨1, by decide⟩, ⟨0, by decide⟩]⟩ 2 = some longer ∧
          toInt bound ≤ toInt longer := by
  have accepted : (Distances.ofGraph lured).toOption.isSome = true := by decide +kernel
  have further : ((Distances.ofGraph lured).toOption.bind fun distances =>
      lowerBound? distances ⟨0, by decide⟩
        ⟨⟨2, by decide⟩, [⟨1, by decide⟩, ⟨0, by decide⟩]⟩ 2) = some 12 := by decide +kernel
  have trip : lured.IsRoundTrip [1, 2, 4, 3] := ⟨by decide +kernel, fun _ => by decide +kernel⟩
  cases table : Distances.ofGraph lured with
  | error failure => simp [table, Except.toOption] at accepted
  | ok distances =>
      have shows := (Distances.accepted_eq table).1
      have first : distances.get ⟨0, by decide⟩ ⟨1, by decide⟩ = some 1 := by
        rw [shows]
        decide +kernel
      have second : distances.get ⟨1, by decide⟩ ⟨2, by decide⟩ = some 1 := by
        rw [shows]
        decide +kernel
      have isPath : Trail.IsPath distances ⟨0, by decide⟩ ⟨⟨1, by decide⟩, [⟨0, by decide⟩]⟩ :=
        (Trail.is_path_single distances ⟨0, by decide⟩).extend (by decide) (by rw [first]; rfl)
      have length : toInt (1 : Int32) =
          distances.span [(⟨0, by decide⟩, ⟨1, by decide⟩)] := by
        rw [Distances.span_cons, Distances.span_nil, Distances.hop_of_get first, Int.add_zero]
      obtain ⟨admissible, -, consistent⟩ := lower_bound?_is_consistent lured distances table
        ⟨0, by decide⟩ ⟨⟨1, by decide⟩, [⟨0, by decide⟩]⟩ isPath (by decide) 1 length
      obtain ⟨bound, found, atMost⟩ := admissible [1, 2, 4, 3] trip (by decide +kernel)
      have longerFound : lowerBound? distances ⟨0, by decide⟩
          ⟨⟨2, by decide⟩, [⟨1, by decide⟩, ⟨0, by decide⟩]⟩ 2 = some 12 := by
        rwa [table] at further
      obtain ⟨same, again, below⟩ :=
        (consistent ⟨2, by decide⟩ (by decide) 1 second).1 12 longerFound
      obtain rfl := Option.some.inj (found.symm.trans again)
      exact ⟨distances, rfl, bound, found, atMost, 12, longerFound, below⟩

end Graphs

end FlowTour.Tour
