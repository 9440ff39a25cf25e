import FlowTour.Proofs.MinCostFlow.Underway

/-!
Searches that answer. With potentials that are not positive, the numbers met on the way along an arc lie
between zero and the distance gone so far with the cost of the arc and without the potential of its
tail. So a search answers as soon as this much is in range wherever it looks along an arc.
-/

namespace FlowTour.MinCostFlow

open IntegerWeight Residual

variable {n m : Nat} {W : Type} [IntegerWeight W] {network : Residual n m W}
  {potential : Vector W n} {source sink node : Fin n} {rank : Fin n → Nat} {clock : Nat}
  {state : Exploration n m W} {distance : W} {arc : Arc m}

/-- What is needed to look along an arc from a node at the given distance. -/
def outlay (network : Residual n m W) (potential : Vector W n) (distance : Int) (arc : Arc m) :
    Int :=
  distance + (toInt (network.cost arc) - price potential (network.tail arc))

theorem exists_reduced_cost (nonneg : 0 ≤ reduced network (price potential) arc)
    (nonpos : price potential (network.head arc) ≤ 0) {high : Int} (highest : InRange W high)
    (atMost : toInt (network.cost arc) - price potential (network.tail arc) ≤ high) :
    ∃ found, reducedCost network potential arc = some found := by
  rw [reduced] at nonneg
  have first : InRange W (toInt (network.cost arc) - price potential (network.tail arc)) :=
    highest.of_nonneg_of_le (by omega) atMost
  obtain ⟨partway, lowered⟩ := Option.isSome_iff_exists.mp (try_sub_is_some_iff.mpr first)
  have exact := try_sub_eq_some_iff.mp lowered
  unfold price at *
  have second : InRange W (toInt partway + toInt (potential.get (network.head arc))) :=
    highest.of_nonneg_of_le (by omega) (by omega)
  obtain ⟨found, raised⟩ := Option.isSome_iff_exists.mp (try_add_is_some_iff.mpr second)
  exact ⟨found, Option.bind_eq_some_iff.mpr ⟨partway, lowered, raised⟩⟩

theorem exists_relax (nonneg : network.hasCapacity arc = true →
      0 ≤ reduced network (price potential) arc)
    (nonpos : price potential (network.head arc) ≤ 0) (notBefore : 0 ≤ toInt distance)
    (inRange : network.hasCapacity arc = true →
      InRange W (outlay network potential (toInt distance) arc)) :
    ∃ next, relax network potential distance state arc = some next := by
  unfold relax
  dsimp only
  split
  · exact ⟨state, rfl⟩
  · next notSkipped =>
    simp only [Bool.or_eq_true, Bool.not_eq_true', not_or, Bool.not_eq_false] at notSkipped
    have usable := notSkipped.1
    have highest := inRange usable
    have step := nonneg usable
    obtain ⟨cost, reducible⟩ := exists_reduced_cost step nonpos highest (by rw [outlay]; omega)
    have exact := to_int_reduced_cost reducible
    have notNegative : ¬Weight.isNegative cost = true := by
      rw [is_negative_iff]
      omega
    have sum : InRange W (toInt distance + toInt cost) := by
      apply highest.of_nonneg_of_le (by omega)
      rw [exact, reduced, outlay]
      omega
    obtain ⟨offer, added⟩ := Option.isSome_iff_exists.mp (try_add_is_some_iff.mpr sum)
    simp only [reducible, bind, Option.bind, if_neg notNegative, added]
    split
    · exact ⟨_, rfl⟩
    · exact ⟨_, rfl⟩

theorem Explored.exists_explore {charge : Arc m → Int}
    (explored : Explored network charge source sink rank clock [] state)
    (anchored : Anchored source state.labels)
    (nonneg : ∀ arc, network.hasCapacity arc = true → 0 ≤ reduced network (price potential) arc)
    (nonpos : ∀ node, price potential node ≤ 0)
    (inRange : ∀ distance node offers, isSettled state.labels sink = false →
      state.offers.pop? offerBelow = some ((distance, node), offers) →
      isSettled state.labels node = false → node ≠ sink →
      ∀ arc, network.tail arc = node → network.hasCapacity arc = true →
        InRange W (outlay network potential (toInt distance) arc)) :
    ∃ found, MinCostFlow.explore network potential sink state = some found := by
  unfold MinCostFlow.explore
  split
  · exact ⟨none, rfl⟩
  · next sinkOpen =>
    rw [Bool.not_eq_true] at sinkOpen
    split
    · exact ⟨none, rfl⟩
    · next distance node offers popped =>
      split
      · exact ⟨_, rfl⟩
      · next unsettled =>
        rw [Bool.not_eq_true] at unsettled
        dsimp only
        split
        · exact ⟨_, rfl⟩
        · next notSink =>
          obtain ⟨nearer, near, labelled⟩ :=
            explored.offering.labelled _ ((Heap.mem_pop? _ popped).mpr (.inl rfl))
          have notBefore := (anchored.nonneg _ _ labelled).trans near
          have each : ∀ arc ∈ network.arcsFrom node, ∀ state,
              ∃ next, MinCostFlow.relax network potential distance state arc = some next := by
            intro arc member state
            have leaves := (Residual.mem_arcs_from _).mp member
            exact exists_relax (nonneg arc) (nonpos _) notBefore
              (inRange distance node offers sinkOpen popped unsettled notSink arc leaves)
          obtain ⟨final, relaxed⟩ := Answering.of_option_lawful.exists_foldlm each
            ⟨MinCostFlow.settle state.labels node, offers⟩
          exact ⟨some final, Option.map_eq_some_iff.mpr ⟨final, relaxed, rfl⟩⟩

theorem route_outcome {m : Nat} (links : Vector (Link n W) m) (source sink : Fin n) :
    (route links source sink).outcome =
      (iterate (augment source sink) (iterationBound links source) (initialState links)).outcome := by
  rw [route, Traced.outcome_bind]
  cases (iterate (augment source sink) (iterationBound links source) (initialState links)).outcome
  · rfl
  · rfl

section Dearest

variable {links : Vector (Link n W) m} {run : State n m W} {total : Int} {dearest : Int}

theorem Posed.cost_le (posed : Posed links source sink total) (linksEq : network.links = links)
    (each : ∀ index, toInt (links.get index).cost ≤ dearest) (nonneg : 0 ≤ dearest) (arc : Arc m) :
    toInt (network.cost arc) ≤ dearest := by
  have linkNonneg : 0 ≤ toInt (network.link arc).cost := by
    rw [Residual.link, linksEq]
    exact posed.cost_nonneg arc.link
  have atMost : toInt (network.link arc).cost ≤ dearest := by
    rw [Residual.link, linksEq]
    exact each arc.link
  rw [to_int_cost linkNonneg, Arc.sign]
  split <;> omega

/-- Where the dearest link fits once for every node between the terminals, every search answers. -/
theorem Underway.exists_shortest_paths (underway : Underway links source sink run)
    (posed : Posed links source sink total)
    (each : ∀ index, toInt (links.get index).cost ≤ dearest) (nonneg : 0 ≤ dearest)
    (highest : InRange W (((n : Int) - 2) * dearest)) :
    ∃ labels, shortestPaths run.network run.potential source sink = some labels := by
  have routed := underway.routed
  obtain ⟨final, ended⟩ := Answering.of_option_lawful.exists_iterate
    (MinCostFlow.explore run.network run.potential sink)
    (Sought run.network run.potential source sink)
    (fun before after sought stepped => sought.explore routed.reduced_nonneg stepped)
    (by
      intro state sought
      obtain ⟨rank, clock, explored⟩ := sought.explored
      apply explored.exists_explore sought.anchored routed.reduced_nonneg underway.prices_nonpos
      intro distance node offers sinkOpen popped unsettled notSink arc leaves usable
      obtain rfl := leaves
      obtain ⟨settling, settled, -⟩ := explored.settle sinkOpen popped unsettled
      have stillOpen : isSettled (settle state.labels (run.network.tail arc)) sink = false := by
        rwa [isSettled, get_settle, if_neg notSink]
      have atMost := settling.grown.outlay_le (labelled_at_settle.mpr sought.anchored.source_label)
        stillOpen posed.different underway.source_price
        (posed.cost_le routed.links_eq each nonneg) nonneg
        (fun other => posed.cost_eq_zero routed.links_eq) settled
      have step := routed.reduced_nonneg arc usable
      have below := underway.prices_nonpos (run.network.head arc)
      have notBefore := sought.anchored.nonneg _ _
        (explored.offering.labelled_at_of_pop popped unsettled)
      rw [reduced] at step
      exact highest.of_nonneg_of_le (by rw [outlay]; omega) atMost)
    (Sought.initial run.network run.potential source sink) (2 * m + 3)
  exact ⟨final.labels, Option.map_eq_some_iff.mpr ⟨final, ended, rfl⟩⟩

theorem Underway.sink_price_in_range (underway : Underway links source sink run)
    (posed : Posed links source sink total)
    (each : ∀ index, toInt (links.get index).cost ≤ dearest) (nonneg : 0 ≤ dearest)
    (highest : InRange W (((n : Int) - 2) * dearest))
    {labels : Vector (Option (Label m W)) n} {reached : Label m W}
    (searched : shortestPaths run.network run.potential source sink = some labels)
    (found : labels.get sink = some reached) (settled : reached.settled = true) :
    InRange W (price run.potential sink - toInt reached.distance) := by
  have routed := underway.routed
  have guided := routed.guided searched found settled
  have cost := underway.path_cost_eq searched found settled
  have short := length_lt_of_simple guided.simple
  obtain ⟨-, atSink⟩ := routed.capped_terminals searched found settled
  have farther := guided.nonneg sink
  have below := underway.prices_nonpos sink
  have leads := guided.leads
  generalize run.network.tracePath (fun node => (labels.get node).bind Label.parent) sink = path
    at leads cost short
  cases path with
  | nil => exact absurd leads posed.different
  | cons first rest =>
      have spent := path_cost_le_of_free (posed.cost_le routed.links_eq each nonneg)
        (fun other => posed.cost_eq_zero routed.links_eq) leads
      rw [List.length_cons] at short
      have atMost : (rest.length : Int) * dearest ≤ ((n : Int) - 2) * dearest :=
        mul_le_mul_of_nonneg_right (by omega) nonneg
      exact highest.of_neg_le (by omega) (by omega)

theorem Posed.exists_route (posed : Posed links source sink total)
    (each : ∀ index, toInt (links.get index).cost ≤ dearest) (nonneg : 0 ≤ dearest)
    (highest : InRange W (((n : Int) - 2) * dearest)) :
    ∃ final, (route links source sink).outcome = .ok final := by
  obtain ⟨final, ended⟩ := Answering.of_traced_lawful.exists_iterate
    (MinCostFlow.augment source sink) (Underway links source sink)
    (fun before after underway stepped => underway.augment posed stepped)
    (by
      intro state underway
      obtain ⟨labels, searched⟩ := underway.exists_shortest_paths posed each nonneg highest
      exact underway.exists_augment posed searched
        fun reached => underway.sink_price_in_range posed each nonneg highest searched)
    (Underway.initial posed) (iterationBound links source)
  exact ⟨final, (route_outcome links source sink).trans ended⟩

end Dearest

section Closed

variable {links : Vector (Link n W) m} {total : Int} {run : State n m W}

theorem foldlm_relax_of_closed {arcs : List (Arc m)} (potential : Vector W n) (distance : W)
    (closed : ∀ arc ∈ arcs, network.hasCapacity arc = false) (state : Exploration n m W) :
    arcs.foldlM (relax network potential distance) state = some state := by
  induction arcs with
  | nil => rfl
  | cons arc rest induction =>
      have skipped : relax network potential distance state arc = some state := by
        simp [relax, closed arc (List.mem_cons_self ..)]
      rw [List.foldlM_cons, skipped]
      exact induction fun other member => closed other (List.mem_cons_of_mem _ member)

theorem shortest_paths_of_closed (different : source ≠ sink)
    (closed : ∀ arc, network.tail arc = source → network.hasCapacity arc = false)
    (potential : Vector W n) :
    ∃ labels, shortestPaths network potential source sink = some labels ∧
      isSettled labels sink = false := by
  let start : Exploration n m W :=
    { labels := (Vector.replicate n none).set source.val (some ⟨0, none, false⟩) source.isLt
      offers := Heap.empty.push offerBelow (0, source) }
  let last : Exploration n m W := ⟨settle start.labels source, Heap.empty⟩
  have atSource : start.labels.get source = some ⟨0, none, false⟩ := by
    rw [Table.get_set, if_pos rfl]
  have atSink : start.labels.get sink = none := by
    rw [Table.get_set, if_neg different, Table.get_replicate]
  have sinkOpen : isSettled last.labels sink = false := by
    rw [isSettled, get_settle, if_neg different, atSink, Option.any_none]
  have popped : start.offers.pop? offerBelow = some ((0, source), Heap.empty) := rfl
  have first : explore network potential sink start = some (some last) := by
    have startOpen : isSettled start.labels sink = false := by
      rw [isSettled, atSink, Option.any_none]
    have fresh : isSettled start.labels source = false := by
      rw [isSettled, atSource, Option.any_some]
    have scanned := foldlm_relax_of_closed potential (0 : W)
      (fun arc member => closed arc ((mem_arcs_from network).mp member)) last
    simp only [explore, startOpen, popped, fresh, if_neg different, Bool.false_eq_true, if_false]
    rw [scanned, Option.map_some]
  have second : explore network potential sink last = some none := by
    have drained : last.offers.pop? offerBelow = none := rfl
    simp only [explore, sinkOpen, drained, Bool.false_eq_true, if_false]
  refine ⟨last.labels, ?_, sinkOpen⟩
  change (iterate (explore network potential sink) (2 * m + 1 + 1 + 1) start).map
    Exploration.labels = _
  rw [iterate, first]
  change (iterate (explore network potential sink) (2 * m + 1 + 1) last).map Exploration.labels = _
  rw [iterate, second]
  rfl

theorem Underway.augment_of_whole (underway : Underway links source sink run)
    (posed : Posed links source sink total) (whole : total ≤ toInt run.routed) :
    (MinCostFlow.augment source sink run).outcome = .ok none := by
  have closed : ∀ arc, run.network.tail arc = source → run.network.hasCapacity arc = false :=
    fun arc => closed_of_whole posed underway.routed whole
  obtain ⟨labels, searched, missed⟩ :=
    shortest_paths_of_closed posed.different closed run.potential
  exact augment_of_missed searched missed

end Closed

end FlowTour.MinCostFlow
