import FlowTour.Proofs.Tour.Ledger
import FlowTour.Proofs.Tour.LowerBound

/-!
The sums of the two solvers, charged to nodes. Every share of a sum is the length of a step, and the
steps of one sum either leave different nodes or enter different nodes. Accepted distances leave room
for such steps, so every addition is exact, also where a sum is given up because a share is missing.
-/

namespace FlowTour.Tour

open IntegerWeight

variable {n : Nat} {W : Type} [IntegerWeight W] {distances : Distances n W} {ceiling high : W}
  {start last : Fin n} {remaining : List (Fin n)} {trail : Trail n}

/-- The exact sum of the two weights is a weight, not a negative one, and adding them finds it. -/
structure Addition.Exact (addition : Addition W) : Prop where
  nonneg : 0 ≤ toInt addition.left + toInt addition.right
  same : toInt (addition.left + addition.right) = toInt addition.left + toInt addition.right

theorem Addition.exact_of_le {left right : W} (leftNonneg : 0 ≤ toInt left)
    (rightNonneg : 0 ≤ toInt right) (atMost : toInt left + toInt right ≤ toInt high) :
    Addition.Exact ⟨left, right⟩ :=
  ⟨Int.add_nonneg leftNonneg rightNonneg, to_int_add_of_le leftNonneg rightNonneg atMost⟩

theorem reports_add {Cause : Type} {left right : W} (exact : Addition.Exact ⟨left, right⟩) :
    (Journal.add left right : Ledger W Cause W).Reports Addition.Exact := by
  intro addition member
  obtain rfl := List.mem_singleton.mp member
  exact exact

namespace Distances

/-- Distances that sum up below the ceiling along any steps that enter different nodes. -/
def FitsEntering (distances : Distances n W) (ceiling : W) : Prop :=
  ∀ pairs, (pairs.map Prod.snd).Nodup → distances.span pairs ≤ toInt ceiling

omit [IntegerWeight W] in
def reversed (distances : Distances n W) : Distances n W :=
  ⟨Vector.ofFn fun source => Vector.ofFn fun target => distances.get target source⟩

omit [IntegerWeight W] in
theorem get_reversed (distances : Distances n W) (source target : Fin n) :
    distances.reversed.get source target = distances.get target source := by
  rw [get, reversed, Table.get_of_fn, Table.get_of_fn]

theorem span_reversed (distances : Distances n W) (pairs : List (Fin n × Fin n)) :
    distances.reversed.span (pairs.map Prod.swap) = distances.span pairs := by
  rw [span, span, List.map_map]
  apply congrArg
  apply List.map_congr_left
  intro step _
  exact congrArg (fun found => toInt (found.getD 0)) (distances.get_reversed step.2 step.1)

theorem fits_entering_of_fits_reversed (fits : distances.reversed.Fits ceiling) :
    distances.FitsEntering ceiling := by
  intro pairs distinct
  rw [← span_reversed]
  apply fits.span_le
  rwa [List.map_map]

theorem exists_fits_entering {N : Type} [NodeKey N] {graph : Graph N W}
    {distances : Distances graph.nodeCount W} (accepted : Distances.ofGraph graph = .ok distances) :
    ∃ ceiling, distances.FitsEntering ceiling := by
  obtain ⟨-, first, fits⟩ := of_graph_eq_ok accepted
  obtain ⟨-, -, -, sums⟩ := accepted_eq accepted
  obtain ⟨ceiling, summed⟩ := Option.isSome_iff_exists.mp sums
  refine ⟨ceiling, fits_entering_of_fits_reversed (fits_of_total ?_ ?_)⟩
  · intro source target weight found
    rw [get_reversed] at found
    exact fits.nonneg target source weight found
  · simpa only [get_reversed] using summed

end Distances

section Sums

variable {Item : Type} {label : Fin n × Fin n → Item} {share? : Item → Option W}
  {items : List Item} {opens allowed : Fin n × Fin n → Prop} {item : Item} {first share : W}

omit [IntegerWeight W] in
theorem add_share_of_some [Weight W] (found : share? item = some share) (sum : W) :
    (addShare share? sum item : Ledger W Unit W) = Journal.add sum share := by
  rw [addShare, found]
  rfl

omit [IntegerWeight W] in
theorem add_share_of_none [Weight W] (missing : share? item = none) (sum : W) :
    (addShare share? sum item : Ledger W Unit W) = Traced.fail () := by
  rw [addShare, missing]
  rfl

/-- Every share of an item is the length of a step that is charged to the item. -/
def Charged (distances : Distances n W) (label : Fin n × Fin n → Item)
    (allowed : Fin n × Fin n → Prop) (share? : Item → Option W) (items : List Item) : Prop :=
  ∀ item ∈ items, ∀ share, share? item = some share →
    ∃ step, label step = item ∧ allowed step ∧ distances.get step.1 step.2 = some share

/-- Whatever steps are charged to the next items, their lengths still fit on top of the sum so far. -/
def Room (distances : Distances n W) (label : Fin n × Fin n → Item) (items : List Item)
    (sum high : W) : Prop :=
  ∀ pairs, pairs.map label <+: items → toInt sum + distances.span pairs ≤ toInt high

theorem Room.next {step : Fin n × Fin n} (fits : distances.Fits ceiling)
    (room : Room distances label (label step :: items) first high) (firstNonneg : 0 ≤ toInt first)
    (joined : distances.get step.1 step.2 = some share) :
    Addition.Exact ⟨first, share⟩ ∧ Room distances label items (first + share) high := by
  have hop : distances.hop step = toInt share := Distances.hop_of_get joined
  have single := room [step] ⟨items, rfl⟩
  rw [Distances.span_cons, Distances.span_nil, hop, Int.add_zero] at single
  have added := Addition.exact_of_le firstNonneg (fits.nonneg _ _ _ joined) single
  refine ⟨added, ?_⟩
  have sumEq : toInt (first + share) = toInt first + toInt share := added.same
  intro pairs before
  have more := room (step :: pairs) ((List.prefix_cons_inj _).mpr before)
  rw [Distances.span_cons, hop] at more
  omega

/-- Shares are added without loss where there is room for the steps that they are the lengths of, and
a sum of all shares is the length of one step for every item. -/
theorem foldlm_add_share (fits : distances.Fits ceiling)
    (charged : Charged distances label allowed share? items) (firstNonneg : 0 ≤ toInt first)
    (room : Room distances label items first high) :
    (items.foldlM (addShare share?) first : Ledger W Unit W).Reports Addition.Exact ∧
      ∀ sum, (items.foldlM (addShare share?) first : Ledger W Unit W).result? = some sum →
        ∃ pairs, pairs.map label = items ∧ (∀ step ∈ pairs, allowed step) ∧
          distances.Joins pairs ∧ toInt sum = toInt first + distances.span pairs := by
  induction items generalizing first with
  | nil =>
      refine ⟨Traced.reports_of_no_events rfl, ?_⟩
      intro sum found
      obtain rfl := Option.some.inj found
      exact ⟨[], rfl, by simp, by simp [Distances.Joins], by simp⟩
  | cons item rest induction =>
      rw [List.foldlM_cons]
      cases here : share? item with
      | none =>
          -- The sum is given up here, and what was added before has been reported.
          rw [add_share_of_none here]
          refine ⟨Traced.reports_of_no_events rfl, ?_⟩
          intro sum found
          cases found
      | some share =>
          obtain ⟨step, rfl, admitted, joined⟩ := charged item (List.mem_cons_self ..) share here
          obtain ⟨added, later⟩ := room.next fits firstNonneg joined
          have sumEq : toInt (first + share) = toInt first + toInt share := added.same
          have sumNonneg : 0 ≤ toInt (first + share) := sumEq ▸ added.nonneg
          obtain ⟨reports, attained⟩ := induction
            (fun other member => charged other (List.mem_cons_of_mem _ member)) sumNonneg later
          rw [add_share_of_some here]
          constructor
          · apply (reports_add added).bind
            intro sum summed
            obtain rfl := Except.ok.inj summed
            exact reports
          · intro sum found
            obtain ⟨pairs, labels, allAllowed, joins, exact⟩ := attained sum found
            refine ⟨step :: pairs, congrArg (label step :: ·) labels, ?_, ?_, ?_⟩
            · exact List.forall_mem_cons.mpr ⟨admitted, allAllowed⟩
            · exact List.forall_mem_cons.mpr ⟨by rw [joined, Option.isSome_some], joins⟩
            · rw [exact, sumEq, Distances.span_cons, Distances.hop_of_get joined, Int.add_assoc]

theorem add_shares_charged {first? : Option W} (fits : distances.Fits ceiling)
    (opened : ∀ share, first? = some share →
      ∃ step, opens step ∧ distances.get step.1 step.2 = some share)
    (charged : Charged distances label allowed share? items)
    (room : ∀ opening pairs, opens opening → pairs.map label <+: items →
      distances.span (opening :: pairs) ≤ toInt high) :
    (addShares first? share? items : Ledger W Unit W).Reports Addition.Exact ∧
      ∀ sum, (addShares first? share? items : Ledger W Unit W).result? = some sum →
        ∃ opening pairs, opens opening ∧ pairs.map label = items ∧
          (∀ step ∈ pairs, allowed step) ∧ distances.Joins (opening :: pairs) ∧
          toInt sum = distances.span (opening :: pairs) := by
  cases first? with
  | none =>
      refine ⟨Traced.reports_of_no_events rfl, ?_⟩
      intro sum found
      cases found
  | some first =>
      obtain ⟨opening, admitted, joined⟩ := opened first rfl
      have hop : distances.hop opening = toInt first := Distances.hop_of_get joined
      have within : Room distances label items first high := by
        intro pairs before
        have most := room opening pairs admitted before
        rwa [Distances.span_cons, hop] at most
      obtain ⟨reports, attained⟩ :=
        foldlm_add_share fits charged (fits.nonneg _ _ _ joined) within
      refine ⟨reports, ?_⟩
      intro sum found
      obtain ⟨pairs, labels, allAllowed, joins, exact⟩ := attained sum found
      refine ⟨opening, pairs, admitted, labels, allAllowed, ?_, ?_⟩
      · exact List.forall_mem_cons.mpr ⟨by rw [joined, Option.isSome_some], joins⟩
      · rw [exact, Distances.span_cons, hop]

theorem tour_length_ledger_reports (fits : distances.Fits ceiling) {stops : List (Fin n)}
    (distinct : stops.Nodup) : (tourLengthLedger distances stops).Reports Addition.Exact := by
  have zero : toInt (Weight.neutral : W) = 0 := by rw [neutral_eq_zero, to_int_zero]
  match stops with
  | [] => exact Traced.reports_of_no_events rfl
  | [_] =>
      apply reports_add
      have fitting : toInt (Weight.neutral : W) + toInt (0 : W) ≤ toInt (0 : W) := by omega
      exact Addition.exact_of_le zero.ge to_int_zero.ge fitting
  | first :: second :: rest =>
      have charged : Charged distances id (fun _ => True)
          (fun step : Fin n × Fin n => distances.get step.1 step.2)
          (roundSteps (first :: second :: rest)) :=
        fun step _ share found => ⟨step, rfl, trivial, found⟩
      have room : Room distances id (roundSteps (first :: second :: rest)) Weight.neutral
          ceiling := by
        intro pairs before
        rw [List.map_id] at before
        rw [zero, Int.zero_add]
        apply fits.span_le
        apply List.Nodup.sublist (before.sublist.map Prod.fst)
        rwa [Distances.round_steps_map_fst]
      rw [tourLengthLedger, Distances.sumTour, Distances.zip_eq_round_steps]
      exact (foldlm_add_share fits charged zero.ge room).1

end Sums

section Bound

variable {opening : Fin n × Fin n} {pairs : List (Fin n × Fin n)} {distance : W}

theorem exists_least?_eq {edge? : Fin n → Option W} {nodes : List (Fin n)} {least : W}
    (found : Weight.least? (nodes.filterMap edge?) = some least) :
    ∃ node ∈ nodes, edge? node = some least :=
  List.mem_filterMap.mp (least?_mem found)

theorem sum_leaving_charged (fits : distances.Fits ceiling) (start : Fin n)
    (distinct : (last :: remaining).Nodup) :
    (sumLeaving distances start last remaining : Ledger W Unit W).Reports Addition.Exact ∧
      ∀ bound, leavingBound? distances start last remaining = some bound →
        ∃ opening pairs, Departures distances start last remaining opening pairs ∧
          toInt bound = distances.span (opening :: pairs) := by
  have opened : ∀ share, Weight.least? (remaining.filterMap (distances.get last)) = some share →
      ∃ step : Fin n × Fin n, (step.1 = last ∧ step.2 ∈ remaining) ∧
        distances.get step.1 step.2 = some share := by
    intro share found
    obtain ⟨node, member, joined⟩ := exists_least?_eq found
    exact ⟨(last, node), ⟨rfl, member⟩, joined⟩
  have charged : Charged distances Prod.fst
      (fun step => step.2 ∈ remaining.filter (· ≠ step.1) ++ [start])
      (fun node => Weight.least?
        ((remaining.filter (· ≠ node) ++ [start]).filterMap (distances.get node))) remaining := by
    intro node _ share found
    obtain ⟨target, member, joined⟩ := exists_least?_eq found
    exact ⟨(node, target), rfl, member, joined⟩
  have room : ∀ (opening : Fin n × Fin n) pairs, opening.1 = last ∧ opening.2 ∈ remaining →
      pairs.map Prod.fst <+: remaining → distances.span (opening :: pairs) ≤ toInt ceiling := by
    rintro opening pairs ⟨rfl, -⟩ before
    apply fits.span_le
    exact distinct.sublist (before.sublist.cons_cons _)
  obtain ⟨reports, attained⟩ := add_shares_charged fits opened charged room
  refine ⟨reports, ?_⟩
  intro bound found
  have ledgered : (sumLeaving distances start last remaining : Ledger W Unit W).result? =
      some bound := by rw [result?_sum_leaving, found]
  obtain ⟨opening, pairs, opens, labels, onward, joins, exact⟩ := attained bound ledgered
  exact ⟨opening, pairs, ⟨opens, labels ▸ List.Perm.refl _, onward, joins⟩, exact⟩

theorem sum_entering_charged (fits : distances.Fits ceiling)
    (entering : distances.FitsEntering high) (last : Fin n) (distinct : (start :: remaining).Nodup) :
    (sumEntering distances start last remaining : Ledger W Unit W).Reports Addition.Exact ∧
      ∀ bound, enteringBound? distances start last remaining = some bound →
        ∃ closing pairs, Arrivals distances start last remaining closing pairs ∧
          toInt bound = distances.span (closing :: pairs) := by
  have opened : ∀ share,
      Weight.least? (remaining.filterMap fun node => distances.get node start) = some share →
        ∃ step : Fin n × Fin n, (step.1 ∈ remaining ∧ step.2 = start) ∧
          distances.get step.1 step.2 = some share := by
    intro share found
    obtain ⟨node, member, joined⟩ := exists_least?_eq found
    exact ⟨(node, start), ⟨member, rfl⟩, joined⟩
  have charged : Charged distances Prod.snd
      (fun step => step.1 ∈ remaining.filter (· ≠ step.2) ++ [last])
      (fun node => Weight.least?
        ((remaining.filter (· ≠ node) ++ [last]).filterMap fun source => distances.get source node))
      remaining := by
    intro node _ share found
    obtain ⟨source, member, joined⟩ := exists_least?_eq found
    exact ⟨(source, node), rfl, member, joined⟩
  have room : ∀ (closing : Fin n × Fin n) pairs, closing.1 ∈ remaining ∧ closing.2 = start →
      pairs.map Prod.snd <+: remaining → distances.span (closing :: pairs) ≤ toInt high := by
    rintro closing pairs ⟨-, rfl⟩ before
    apply entering
    exact distinct.sublist (before.sublist.cons_cons _)
  obtain ⟨reports, attained⟩ := add_shares_charged fits opened charged room
  refine ⟨reports, ?_⟩
  intro bound found
  have ledgered : (sumEntering distances start last remaining : Ledger W Unit W).result? =
      some bound := by rw [result?_sum_entering, found]
  obtain ⟨closing, pairs, closes, labels, onward, joins, exact⟩ := attained bound ledgered
  exact ⟨closing, pairs, ⟨closes, labels ▸ List.Perm.refl _, onward, joins⟩, exact⟩

/-- The steps of a path and the steps that leave what is still ahead leave different nodes. -/
theorem Departures.span_le (fits : distances.Fits ceiling) (isPath : trail.IsPath distances start)
    (departures : Departures distances start trail.last trail.remaining opening pairs) :
    distances.span (steps trail.nodes) + distances.span (opening :: pairs) ≤ toInt ceiling := by
  rw [← Distances.span_append]
  apply fits.span_le
  have path : trail.nodes.dropLast ++ [trail.last] = trail.nodes :=
    List.dropLast_append_getLast? _ trail.get_last?_nodes
  have left : (steps trail.nodes ++ opening :: pairs).map Prod.fst =
      trail.nodes ++ pairs.map Prod.fst := by
    rw [List.map_append, List.map_cons, steps_map_fst, departures.opens.1,
      ← List.singleton_append, ← List.append_assoc, path]
  rw [left, (departures.leave.append_left trail.nodes).nodup_iff,
    (Trail.perm_append_remaining isPath.nodup).nodup_iff]
  exact List.nodup_finRange n

theorem Arrivals.span_le (entering : distances.FitsEntering high)
    (isPath : trail.IsPath distances start)
    (arrivals : Arrivals distances start trail.last trail.remaining opening pairs) :
    distances.span (steps trail.nodes) + distances.span (opening :: pairs) ≤ toInt high := by
  rw [← Distances.span_append]
  apply entering
  have path : start :: trail.nodes.tail = trail.nodes := List.cons_head?_tail isPath.head
  have entered : ((steps trail.nodes ++ opening :: pairs).map Prod.snd).Perm
      (trail.nodes ++ pairs.map Prod.snd) := by
    rw [List.map_append, List.map_cons, steps_map_snd, arrivals.closes.2]
    apply List.perm_middle.trans
    rw [← List.cons_append, path]
  rw [entered.nodup_iff, (arrivals.enter.append_left trail.nodes).nodup_iff,
    (Trail.perm_append_remaining isPath.nodup).nodup_iff]
  exact List.nodup_finRange n

/-- With the path behind, there is room for what leaves and for what enters the nodes ahead, so also for
the larger of the two. -/
theorem larger_addition (fits : distances.Fits ceiling) (entering : distances.FitsEntering high)
    (isPath : trail.IsPath distances start)
    (exact : toInt distance = distances.span (steps trail.nodes)) {leaving arriving : W}
    (departures : Departures distances start trail.last trail.remaining opening pairs)
    (leavingEq : toInt leaving = distances.span (opening :: pairs))
    {closing : Fin n × Fin n} {others : List (Fin n × Fin n)}
    (arrivals : Arrivals distances start trail.last trail.remaining closing others)
    (arrivingEq : toInt arriving = distances.span (closing :: others)) :
    Addition.Exact ⟨distance, Weight.larger leaving arriving⟩ := by
  have before : 0 ≤ toInt distance := exact ▸ fits.span_nonneg _
  have leavingNonneg : 0 ≤ toInt leaving := leavingEq ▸ fits.span_nonneg _
  have larger := to_int_larger leaving arriving
  have leavingRoom := departures.span_le fits isPath
  have arrivingRoom := arrivals.span_le entering isPath
  rcases Int.le_total (toInt leaving) (toInt arriving) with most | most
  · have fitting : toInt distance + toInt (Weight.larger leaving arriving) ≤ toInt high := by omega
    exact Addition.exact_of_le before (by omega) fitting
  · have fitting : toInt distance + toInt (Weight.larger leaving arriving) ≤ toInt ceiling := by
      omega
    exact Addition.exact_of_le before (by omega) fitting

/-- The bound of a path is added up without loss, and it reaches the lengths of steps that leave and of
steps that enter all nodes ahead. -/
theorem lower_bound_ledger_charged (fits : distances.Fits ceiling)
    (entering : distances.FitsEntering high) (isPath : trail.IsPath distances start)
    (exact : toInt distance = distances.span (steps trail.nodes)) :
    (lowerBoundLedger distances start trail distance).Reports Addition.Exact ∧
      ∀ bound, lowerBound? distances start trail distance = some bound →
        (∃ opening pairs, Departures distances start trail.last trail.remaining opening pairs ∧
          toInt distance + distances.span (opening :: pairs) ≤ toInt bound) ∧
        ∃ closing pairs, Arrivals distances start trail.last trail.remaining closing pairs ∧
          toInt distance + distances.span (closing :: pairs) ≤ toInt bound := by
  obtain ⟨leavingReports, departing⟩ := sum_leaving_charged fits start
    (Trail.nodup_cons_remaining (List.mem_of_getLast? trail.get_last?_nodes))
  obtain ⟨enteringReports, arriving⟩ := sum_entering_charged fits entering trail.last
    (Trail.nodup_cons_remaining (List.mem_of_head? isPath.head))
  constructor
  · apply leavingReports.bind
    intro leaving left
    apply enteringReports.bind
    intro arrived entered
    rw [← Traced.result?_eq_some_iff, result?_sum_leaving] at left
    rw [← Traced.result?_eq_some_iff, result?_sum_entering] at entered
    obtain ⟨opening, pairs, departures, leavingEq⟩ := departing leaving left
    obtain ⟨closing, others, arrivals, arrivingEq⟩ := arriving arrived entered
    exact reports_add
      (larger_addition fits entering isPath exact departures leavingEq arrivals arrivingEq)
  · intro bound found
    obtain ⟨leaving, left, arrived, entered, rfl⟩ := lower_bound?_eq_some_iff.mp found
    obtain ⟨opening, pairs, departures, leavingEq⟩ := departing leaving left
    obtain ⟨closing, others, arrivals, arrivingEq⟩ := arriving arrived entered
    have sum : toInt (distance + Weight.larger leaving arrived) =
        toInt distance + toInt (Weight.larger leaving arrived) :=
      (larger_addition fits entering isPath exact departures leavingEq arrivals arrivingEq).same
    have larger := to_int_larger leaving arrived
    exact ⟨⟨opening, pairs, departures, by omega⟩, ⟨closing, others, arrivals, by omega⟩⟩

end Bound

end FlowTour.Tour
