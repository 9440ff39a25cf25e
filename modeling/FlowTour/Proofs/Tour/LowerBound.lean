import FlowTour.Proofs.Tour.Journal
import FlowTour.Proofs.Tour.Trail

/-!
The bound of the search. A round trip that extends a trail leaves the last node and every remaining
one by an edge among those the bound chooses from, and enters every remaining node and the start by
one, so the bound exists and no such round trip is shorter.
-/

namespace FlowTour.Tour

open IntegerWeight

variable {n : Nat} {W : Type} [IntegerWeight W] {distances : Distances n W} {ceiling : W}
  {start : Fin n} {trail : Trail n}

section Shares

variable {share? : Fin n → Option W} {nodes : List (Fin n)} {pairs : List (Fin n × Fin n)}

theorem least?_le_of_mem {edge? : Fin n → Option W}
    (nonneg : ∀ node weight, edge? node = some weight → 0 ≤ toInt weight) {node : Fin n}
    (member : node ∈ nodes) {weight : W} (found : edge? node = some weight) :
    ∃ least, Weight.least? (nodes.filterMap edge?) = some least ∧ 0 ≤ toInt least ∧
      toInt least ≤ toInt weight := by
  have listed : weight ∈ nodes.filterMap edge? := List.mem_filterMap.mpr ⟨node, member, found⟩
  obtain ⟨least, smallest⟩ := Option.isSome_iff_exists.mp (least?_is_some_of_mem listed)
  refine ⟨least, smallest, ?_, to_int_least?_le smallest weight listed⟩
  obtain ⟨origin, -, source⟩ := List.mem_filterMap.mp (least?_mem smallest)
  exact nonneg origin least source

theorem foldlm_shares {first high : W} (firstNonneg : 0 ≤ toInt first)
    (shared : ∀ node ∈ nodes, ∃ share, share? node = some share ∧ 0 ≤ toInt share)
    (atMost : toInt first + (nodes.map fun node => toInt ((share? node).getD 0)).sum ≤
      toInt high) :
    ∃ sum, nodes.foldlM (fun sum node => do
        let share ← share? node
        return sum + share) first = some sum ∧
      toInt sum = toInt first + (nodes.map fun node => toInt ((share? node).getD 0)).sum := by
  induction nodes generalizing first with
  | nil => exact ⟨first, rfl, by simp⟩
  | cons node rest induction =>
      obtain ⟨share, here, nonneg⟩ := shared node (List.mem_cons_self ..)
      have later : ∀ other ∈ rest, ∃ share, share? other = some share ∧ 0 ≤ toInt share := by
        intro other member
        exact shared other (List.mem_cons_of_mem _ member)
      have restNonneg : 0 ≤ (rest.map fun node => toInt ((share? node).getD 0)).sum := by
        apply sum_map_nonneg
        intro other member
        obtain ⟨otherShare, there, otherNonneg⟩ := later other member
        rwa [there, Option.getD_some]
      rw [List.map_cons, List.sum_cons, here, Option.getD_some] at atMost ⊢
      have fits : toInt first + toInt share ≤ toInt high := by omega
      have added := to_int_add_of_le firstNonneg nonneg fits
      have nextNonneg : 0 ≤ toInt (first + share) := by omega
      obtain ⟨sum, run, exact⟩ := induction nextNonneg later (by omega)
      refine ⟨sum, ?_, by omega⟩
      rw [List.foldlM_cons, here]
      exact run

theorem exists_bound (key : Fin n × Fin n → Fin n) (perm : nodes.Perm (pairs.map key))
    {first? : Option W} {opening : Fin n × Fin n}
    (first : ∃ share, first? = some share ∧ 0 ≤ toInt share ∧
      toInt share ≤ distances.hop opening)
    (each : ∀ step ∈ pairs, ∃ share, share? (key step) = some share ∧ 0 ≤ toInt share ∧
      toInt share ≤ distances.hop step)
    (atMost : distances.hop opening + distances.span pairs ≤ toInt ceiling) :
    ∃ bound, (do
        let first ← first?
        nodes.foldlM (fun sum node => do
          let share ← share? node
          return sum + share) first) = some bound ∧
      0 ≤ toInt bound ∧ toInt bound ≤ distances.hop opening + distances.span pairs := by
  obtain ⟨firstShare, rfl, firstNonneg, firstLe⟩ := first
  have sumEq : (nodes.map fun node => toInt ((share? node).getD 0)).sum =
      (pairs.map fun step => toInt ((share? (key step)).getD 0)).sum := by
    rw [(perm.map _).sum_eq, List.map_map]
    rfl
  have sumLe : (pairs.map fun step => toInt ((share? (key step)).getD 0)).sum ≤
      distances.span pairs := by
    apply List.sum_le_sum
    intro step member
    obtain ⟨share, found, -, shareLe⟩ := each step member
    rwa [found, Option.getD_some]
  have sumNonneg : 0 ≤ (pairs.map fun step => toInt ((share? (key step)).getD 0)).sum := by
    apply sum_map_nonneg
    intro step member
    obtain ⟨share, found, nonneg, -⟩ := each step member
    rwa [found, Option.getD_some]
  have shared : ∀ node ∈ nodes, ∃ share, share? node = some share ∧ 0 ≤ toInt share := by
    intro node member
    obtain ⟨step, listed, rfl⟩ := List.mem_map.mp (perm.mem_iff.mp member)
    obtain ⟨share, found, nonneg, -⟩ := each step listed
    exact ⟨share, found, nonneg⟩
  have below : toInt firstShare + (nodes.map fun node => toInt ((share? node).getD 0)).sum ≤
      toInt ceiling := by omega
  obtain ⟨bound, run, exact⟩ := foldlm_shares firstNonneg shared below
  exact ⟨bound, run, by omega, by omega⟩

end Shares

section Charges

variable {last : Fin n} {remaining : List (Fin n)} {opening : Fin n × Fin n}
  {pairs : List (Fin n × Fin n)} {high : W}

/-- Steps that leave the last node of a trail and every remaining one, to where the bound lets them. -/
structure Departures (distances : Distances n W) (start last : Fin n) (remaining : List (Fin n))
    (opening : Fin n × Fin n) (pairs : List (Fin n × Fin n)) : Prop where
  opens : opening.1 = last ∧ opening.2 ∈ remaining
  leave : (pairs.map Prod.fst).Perm remaining
  onward : ∀ step ∈ pairs, step.2 ∈ remaining.filter (· ≠ step.1) ++ [start]
  joins : distances.Joins (opening :: pairs)

/-- Steps that enter the start and every remaining node, from where the bound lets them. -/
structure Arrivals (distances : Distances n W) (start last : Fin n) (remaining : List (Fin n))
    (closing : Fin n × Fin n) (pairs : List (Fin n × Fin n)) : Prop where
  closes : closing.1 ∈ remaining ∧ closing.2 = start
  enter : (pairs.map Prod.snd).Perm remaining
  onward : ∀ step ∈ pairs, step.1 ∈ remaining.filter (· ≠ step.2) ++ [last]
  joins : distances.Joins (closing :: pairs)

theorem Departures.leaving_bound?_le (fits : distances.Fits ceiling)
    (departures : Departures distances start last remaining opening pairs)
    (atMost : distances.span (opening :: pairs) ≤ toInt high) :
    ∃ bound, leavingBound? distances start last remaining = some bound ∧ 0 ≤ toInt bound ∧
      toInt bound ≤ distances.span (opening :: pairs) := by
  rw [Distances.span_cons] at atMost ⊢
  obtain ⟨rfl, among⟩ := departures.opens
  rw [leavingBound?, sumLeaving, result?_add_shares]
  apply exists_bound Prod.fst departures.leave.symm
  · obtain ⟨weight, found⟩ :=
      Option.isSome_iff_exists.mp (departures.joins opening (List.mem_cons_self ..))
    rw [show distances.hop opening = toInt weight from Distances.hop_of_get found]
    exact least?_le_of_mem (fits.nonneg _) among found
  · intro step member
    obtain ⟨weight, found⟩ :=
      Option.isSome_iff_exists.mp (departures.joins step (List.mem_cons_of_mem _ member))
    rw [show distances.hop step = toInt weight from Distances.hop_of_get found]
    exact least?_le_of_mem (fits.nonneg _) (departures.onward step member) found
  · exact atMost

theorem Arrivals.entering_bound?_le (fits : distances.Fits ceiling)
    (arrivals : Arrivals distances start last remaining opening pairs)
    (atMost : distances.span (opening :: pairs) ≤ toInt high) :
    ∃ bound, enteringBound? distances start last remaining = some bound ∧ 0 ≤ toInt bound ∧
      toInt bound ≤ distances.span (opening :: pairs) := by
  rw [Distances.span_cons] at atMost ⊢
  obtain ⟨among, rfl⟩ := arrivals.closes
  rw [enteringBound?, sumEntering, result?_add_shares]
  apply exists_bound Prod.snd arrivals.enter.symm
  · obtain ⟨weight, found⟩ :=
      Option.isSome_iff_exists.mp (arrivals.joins opening (List.mem_cons_self ..))
    rw [show distances.hop opening = toInt weight from Distances.hop_of_get found]
    exact least?_le_of_mem (fun source => fits.nonneg source opening.2) among found
  · intro step member
    obtain ⟨weight, found⟩ :=
      Option.isSome_iff_exists.mp (arrivals.joins step (List.mem_cons_of_mem _ member))
    rw [show distances.hop step = toInt weight from Distances.hop_of_get found]
    exact least?_le_of_mem (fun source => fits.nonneg source step.2)
      (arrivals.onward step member) found
  · exact atMost

end Charges

section Admissible

variable {rest : List (Fin n)}

omit [IntegerWeight W] in
theorem steps_after_trail (circuit : distances.Circuit start (trail.nodes ++ rest)) :
    roundSteps (trail.nodes ++ rest) =
      steps trail.nodes ++ steps (trail.last :: rest ++ [start]) := by
  have split : trail.nodes = trail.earlier.reverse ++ [trail.last] := List.reverse_cons
  rw [round_steps_of_head circuit.head, split, List.append_assoc, List.append_assoc,
    List.singleton_append, steps_append_cons]
  rfl

/-- The nodes after a trail, each once, and none of them is the start or the last of the trail. -/
structure Ahead (distances : Distances n W) (start : Fin n) (trail : Trail n)
    (rest : List (Fin n)) : Prop where
  perm : rest.Perm trail.remaining
  joins : distances.Joins (steps (trail.last :: rest ++ [start]))
  from_last : (trail.last :: rest).Nodup
  to_start : (rest ++ [start]).Nodup

omit [IntegerWeight W] in
theorem ahead_of_circuit (circuit : distances.Circuit start (trail.nodes ++ rest))
    (head : trail.nodes.head? = some start) : Ahead distances start trail rest where
  perm := Trail.perm_remaining circuit.perm
  joins := by
    intro step member
    apply circuit.joins
    rw [steps_after_trail circuit]
    exact List.mem_append_right _ member
  from_last := by
    have parts := List.nodup_append.mp circuit.nodup
    rw [List.nodup_cons]
    refine ⟨?_, parts.2.1⟩
    intro later
    exact parts.2.2 _ (List.mem_of_getLast? trail.get_last?_nodes) _ later rfl
  to_start := by
    have parts := List.nodup_append.mp circuit.nodup
    rw [List.nodup_append]
    refine ⟨parts.2.1, List.nodup_singleton start, ?_⟩
    rintro node later other final rfl
    rw [List.mem_singleton.mp final] at later
    exact parts.2.2 _ (List.mem_of_head? head) _ later rfl

omit [IntegerWeight W] in
theorem Ahead.target_mem (ahead : Ahead distances start trail rest) {step : Fin n × Fin n}
    (member : step ∈ steps (rest ++ [start])) :
    step.2 ∈ trail.remaining.filter (· ≠ step.1) ++ [start] := by
  have different := ne_of_mem_steps ahead.to_start member
  have beyond := List.mem_of_mem_tail (snd_mem_of_mem_steps member)
  rcases List.mem_append.mp beyond with later | final
  · apply List.mem_append_left
    rw [List.mem_filter, decide_eq_true_iff]
    exact ⟨ahead.perm.mem_iff.mp later, Ne.symm different⟩
  · exact List.mem_append_right _ final

omit [IntegerWeight W] in
theorem Ahead.source_mem (ahead : Ahead distances start trail rest) {step : Fin n × Fin n}
    (member : step ∈ steps (trail.last :: rest)) :
    step.1 ∈ trail.remaining.filter (· ≠ step.2) ++ [trail.last] := by
  have different := ne_of_mem_steps ahead.from_last member
  have before := List.dropLast_subset _ (fst_mem_of_mem_steps member)
  rcases List.mem_cons.mp before with isLast | later
  · exact List.mem_append_right _ (List.mem_singleton.mpr isLast)
  · apply List.mem_append_left
    rw [List.mem_filter, decide_eq_true_iff]
    exact ⟨ahead.perm.mem_iff.mp later, different⟩

omit [IntegerWeight W] in
theorem Ahead.departures {next : Fin n} {others : List (Fin n)}
    (ahead : Ahead distances start trail (next :: others)) :
    Departures distances start trail.last trail.remaining (trail.last, next)
      (steps (next :: others ++ [start])) where
  opens := ⟨rfl, ahead.perm.mem_iff.mp (List.mem_cons_self ..)⟩
  leave := by
    rw [steps_map_fst, List.dropLast_concat]
    exact ahead.perm
  onward _ member := ahead.target_mem member
  joins := ahead.joins

omit [IntegerWeight W] in
theorem steps_return {final : Fin n} (last : rest.getLast? = some final) :
    steps (trail.last :: rest ++ [start]) = steps (trail.last :: rest) ++ [(final, start)] := by
  apply steps_concat
  rw [List.getLast?_cons, last, Option.getD_some]

omit [IntegerWeight W] in
theorem Ahead.arrivals (ahead : Ahead distances start trail rest) {final : Fin n}
    (last : rest.getLast? = some final) :
    Arrivals distances start trail.last trail.remaining (final, start)
      (steps (trail.last :: rest)) where
  closes := ⟨ahead.perm.mem_iff.mp (List.mem_of_getLast? last), rfl⟩
  enter := by
    rw [steps_map_snd]
    exact ahead.perm
  onward _ member := ahead.source_mem member
  joins := by
    have joins := ahead.joins
    rw [steps_return last] at joins
    intro step member
    apply joins
    rwa [List.mem_append, List.mem_singleton, or_comm, ← List.mem_cons]

theorem leaving_bound?_le (fits : distances.Fits ceiling) (ahead : Ahead distances start trail rest)
    (unfinished : rest ≠ [])
    (atMost : distances.span (steps (trail.last :: rest ++ [start])) ≤ toInt ceiling) :
    ∃ bound, leavingBound? distances start trail.last trail.remaining = some bound ∧
      0 ≤ toInt bound ∧
      toInt bound ≤ distances.span (steps (trail.last :: rest ++ [start])) := by
  cases rest with
  | nil => exact absurd rfl unfinished
  | cons next others => exact ahead.departures.leaving_bound?_le fits atMost

theorem entering_bound?_le (fits : distances.Fits ceiling) (ahead : Ahead distances start trail rest)
    (unfinished : rest ≠ [])
    (atMost : distances.span (steps (trail.last :: rest ++ [start])) ≤ toInt ceiling) :
    ∃ bound, enteringBound? distances start trail.last trail.remaining = some bound ∧
      0 ≤ toInt bound ∧
      toInt bound ≤ distances.span (steps (trail.last :: rest ++ [start])) := by
  have last := List.getLast?_eq_some_getLast unfinished
  have spanEq : distances.span (steps (trail.last :: rest ++ [start])) =
      distances.span ((rest.getLast unfinished, start) :: steps (trail.last :: rest)) := by
    rw [steps_return last, Distances.span_append, Distances.span_cons, Distances.span_cons,
      Distances.span_nil]
    omega
  rw [spanEq] at atMost ⊢
  exact (ahead.arrivals last).entering_bound?_le fits atMost

theorem lower_bound?_of_parts {distance high : W} {leaving entering : W} {total : Int}
    (before : 0 ≤ toInt distance)
    (left : leavingBound? distances start trail.last trail.remaining = some leaving)
    (leavingNonneg : 0 ≤ toInt leaving) (leavingLe : toInt distance + toInt leaving ≤ total)
    (entered : enteringBound? distances start trail.last trail.remaining = some entering)
    (enteringLe : toInt distance + toInt entering ≤ total) (atMost : total ≤ toInt high) :
    ∃ bound, lowerBound? distances start trail distance = some bound ∧ toInt bound ≤ total := by
  have larger := to_int_larger leaving entering
  have largerNonneg : 0 ≤ toInt (Weight.larger leaving entering) := by omega
  have below : toInt distance + toInt (Weight.larger leaving entering) ≤ toInt high := by omega
  have sum := to_int_add_of_le before largerNonneg below
  refine ⟨distance + Weight.larger leaving entering, ?_, by omega⟩
  exact lower_bound?_eq_some_iff.mpr ⟨leaving, left, entering, entered, rfl⟩

/-- For a trail that some round trip extends, the bound exists and the round trip is no shorter. -/
theorem lower_bound?_le (fits : distances.Fits ceiling)
    (head : trail.nodes.head? = some start) {distance : W}
    (exact : toInt distance = distances.span (steps trail.nodes))
    (circuit : distances.Circuit start (trail.nodes ++ rest)) (unfinished : rest ≠ []) :
    ∃ bound, lowerBound? distances start trail distance = some bound ∧
      toInt bound ≤ distances.span (roundSteps (trail.nodes ++ rest)) := by
  have ahead := ahead_of_circuit circuit head
  have whole : distances.span (roundSteps (trail.nodes ++ rest)) =
      toInt distance + distances.span (steps (trail.last :: rest ++ [start])) := by
    rw [steps_after_trail circuit, Distances.span_append, exact]
  have most := fits.span_round_steps_le circuit.nodup
  have before : 0 ≤ toInt distance := exact ▸ fits.span_nonneg _
  have after : distances.span (steps (trail.last :: rest ++ [start])) ≤ toInt ceiling := by omega
  obtain ⟨leaving, left, leavingNonneg, leavingLe⟩ := leaving_bound?_le fits ahead unfinished after
  obtain ⟨entering, entered, -, enteringLe⟩ := entering_bound?_le fits ahead unfinished after
  exact lower_bound?_of_parts before left leavingNonneg (by omega) entered (by omega) most

end Admissible

section Existing

omit [IntegerWeight W]

variable [Weight W] {rest : List (Fin n)}

theorem exists_least? (edge? : Fin n → Option W) {nodes : List (Fin n)} {node : Fin n}
    (member : node ∈ nodes) (joined : (edge? node).isSome = true) :
    ∃ least, Weight.least? (nodes.filterMap edge?) = some least := by
  obtain ⟨weight, found⟩ := Option.isSome_iff_exists.mp joined
  have listed : weight ∈ nodes.filterMap edge? := List.mem_filterMap.mpr ⟨node, member, found⟩
  exact Option.isSome_iff_exists.mp (least?_is_some_of_mem listed)

theorem exists_foldlm_shares {share? : Fin n → Option W} {nodes : List (Fin n)}
    (shared : ∀ node ∈ nodes, ∃ share, share? node = some share) (first : W) :
    ∃ sum, nodes.foldlM (fun sum node => do
      let share ← share? node
      return sum + share) first = some sum := by
  apply Answering.of_option_lawful.exists_foldlm
  intro node member sum
  obtain ⟨share, here⟩ := shared node member
  exact ⟨sum + share, Option.bind_eq_some_iff.mpr ⟨share, here, rfl⟩⟩

theorem Ahead.exists_leaving_bound? (ahead : Ahead distances start trail rest)
    (unfinished : rest ≠ []) :
    ∃ bound, leavingBound? distances start trail.last trail.remaining = some bound := by
  cases rest with
  | nil => exact absurd rfl unfinished
  | cons next others =>
      have departures := ahead.departures
      obtain ⟨first, least⟩ := exists_least? (distances.get trail.last) departures.opens.2
        (departures.joins _ (List.mem_cons_self ..))
      rw [leavingBound?, sumLeaving, result?_add_shares, least]
      apply exists_foldlm_shares
      intro node member
      obtain ⟨step, listed, rfl⟩ := List.mem_map.mp (departures.leave.mem_iff.mpr member)
      exact exists_least? (distances.get step.1) (departures.onward step listed)
        (departures.joins step (List.mem_cons_of_mem _ listed))

theorem Ahead.exists_entering_bound? (ahead : Ahead distances start trail rest)
    (unfinished : rest ≠ []) :
    ∃ bound, enteringBound? distances start trail.last trail.remaining = some bound := by
  have arrivals := ahead.arrivals (List.getLast?_eq_some_getLast unfinished)
  obtain ⟨final, least⟩ := exists_least? (fun node => distances.get node start) arrivals.closes.1
    (arrivals.joins _ (List.mem_cons_self ..))
  rw [enteringBound?, sumEntering, result?_add_shares, least]
  apply exists_foldlm_shares
  intro node member
  obtain ⟨step, listed, rfl⟩ := List.mem_map.mp (arrivals.enter.mem_iff.mpr member)
  exact exists_least? (fun source => distances.get source step.2)
    (arrivals.onward step listed) (arrivals.joins step (List.mem_cons_of_mem _ listed))

/-- Whatever the weights are, a trail that some round trip extends has a bound. -/
theorem exists_lower_bound? (head : trail.nodes.head? = some start)
    (circuit : distances.Circuit start (trail.nodes ++ rest)) (unfinished : rest ≠ [])
    (distance : W) : ∃ bound, lowerBound? distances start trail distance = some bound := by
  have ahead := ahead_of_circuit circuit head
  obtain ⟨leaving, leavingFound⟩ := ahead.exists_leaving_bound? unfinished
  obtain ⟨entering, enteringFound⟩ := ahead.exists_entering_bound? unfinished
  exact ⟨_, lower_bound?_eq_some_iff.mpr ⟨leaving, leavingFound, entering, enteringFound, rfl⟩⟩

end Existing

end FlowTour.Tour
