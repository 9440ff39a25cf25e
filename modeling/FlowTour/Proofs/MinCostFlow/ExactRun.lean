import FlowTour.Proofs.MinCostFlow.ExactSearch

/-!
Runs among all integers beside runs over a bounded weight type. The exact run keeps in step for as long
as the bounded one gets on. It gets to the end if the cost of the exact flow is in range and so is, on
every link, the unit cost less the final potential of its tail: potentials only fall, so no search before
has met a larger number.
-/

namespace FlowTour.MinCostFlow

open IntegerWeight Residual

variable {n m : Nat} {W : Type} [IntegerWeight W] {links : Vector (Link n W) m}
  {exactLinks : Vector (Link n Unbounded) m} {source sink : Fin n} {total : Int}

theorem exists_lower_potentials_unbounded (potential : Vector Unbounded n)
    (labels : Vector (Option (Label m Unbounded)) n) (farthest : Unbounded) :
    ∃ lowered, lowerPotentials potential labels farthest = some lowered := by
  have answers : ∀ node, (Weight.trySub (potential.get node)
      (cappedDistance labels farthest node)).isSome = true :=
    fun node => try_sub_is_some_iff.mpr (in_range_unbounded _)
  rw [lowerPotentials, gather, dif_pos answers]
  exact ⟨_, rfl⟩

section Simulation

variable (loosened : Loosened links exactLinks total) (posed : Posed links source sink total)
  (exactPosed : Posed exactLinks source sink total)
include loosened posed exactPosed

/-- The exact run takes every step that the bounded one takes. -/
theorem InStep.augment_exact {state : State n m W} {other : State n m Unbounded}
    {found : Option (State n m W)} (inStep : InStep links exactLinks source sink state other)
    (stepped : (MinCostFlow.augment source sink state).outcome = .ok found) :
    ∃ otherFound, (MinCostFlow.augment source sink other).outcome = .ok otherFound ∧
      Option.Rel (InStep links exactLinks source sink) found otherFound := by
  rcases lt_or_ge (toInt other.routed) total with short | whole
  · have alike := inStep.alike loosened exactPosed short
    cases found with
    | none =>
        obtain ⟨labels, searched, missed | ⟨reached, found, settled, unlimited⟩⟩ :=
          augment_eq_none stepped
        · have otherSearched := shortest_paths_exact alike inStep.price_eq searched
          rw [← is_settled_exact_labels] at missed
          exact ⟨none, augment_of_missed otherSearched missed, .none⟩
        · have guided := inStep.tight.routed.guided searched found settled
          obtain ⟨amount, least⟩ := exists_bottleneck posed inStep.tight.routed guided.leads
          rw [unlimited] at least
          cases least
    | some next =>
        obtain ⟨labels, reached, amount, searched, found, settled, lowered, -⟩ :=
          augment_eq_some stepped
        have otherSearched := shortest_paths_exact alike inStep.price_eq searched
        have otherFound : (exactLabels labels).get sink = some reached.exact := by
          rw [get_exact_labels, found, Option.map_some]
        obtain ⟨otherPotential, otherLowered⟩ :=
          exists_lower_potentials_unbounded other.potential (exactLabels labels) reached.exact.distance
        have samePath : state.network.tracePath (fun node => (labels.get node).bind Label.parent)
            sink = other.network.tracePath
              (fun node => ((exactLabels labels).get node).bind Label.parent) sink := by
          rw [alike.trace_path_eq]
          simp only [parent_exact_labels]
        have sameCapped : ∀ node, capped labels reached.distance node =
            capped (exactLabels labels) reached.exact.distance node := by
          intro node
          rw [capped, capped, Label.exact, capped_distance_exact_labels, to_int_exact]
        obtain ⟨sameNext, otherNext, sameStepped, otherStepped, moved⟩ := inStep.moved loosened posed
          exactPosed searched found settled otherSearched otherFound settled samePath sameCapped
          lowered otherLowered
        obtain rfl := Option.some.inj (Except.ok.inj (stepped.symm.trans sameStepped))
        exact ⟨some otherNext, otherStepped, .some moved⟩
  · rw [inStep.tight.augment_of_whole posed (inStep.routed_eq ▸ whole)] at stepped
    obtain rfl := Except.ok.inj stepped
    exact ⟨none, inStep.free.augment_of_whole exactPosed whole, .none⟩

theorem route_exact {final : State n m W} (ended : (route links source sink).outcome = .ok final) :
    ∃ last, (route exactLinks source sink).outcome = .ok last ∧
      InStep links exactLinks source sink final last := by
  rw [route_outcome] at ended ⊢
  rw [← loosened.iteration_bound_eq exactPosed]
  refine Answering.ofTraced.iterate_simulated ?_ Answering.of_traced_lawful _
    (InStep.initial posed exactPosed) ended
  intro state other found inStep stepped
  exact inStep.augment_exact loosened posed exactPosed stepped

end Simulation

/-- The end of an exact run that has routed the total, with a cost that is in range and with potentials
that leave the cost of every link in range. -/
structure Affordable (W : Type) [IntegerWeight W] (links : Vector (Link n Unbounded) m)
    (source sink : Fin n) (total : Int) (last : State n m Unbounded) : Prop where
  underway : Underway links source sink last
  whole : total ≤ toInt last.routed
  cost_in_range : InRange W (linkCost links last.network.flow)
  link_in_range : ∀ index, InRange W
    (toInt (links.get index).cost - price last.potential (links.get index).tail)

section Existence

variable {last : State n m Unbounded} {state : State n m W} {other next : State n m Unbounded}

theorem Affordable.neg_price_le (affordable : Affordable W exactLinks source sink total last)
    (node : Fin n) : -price last.potential node ≤ linkCost exactLinks last.network.flow := by
  have above := affordable.underway.sink_price_le node
  have paid := affordable.underway.paid
  omega

theorem Affordable.exists_highest (affordable : Affordable W exactLinks source sink total last)
    (posed : Posed exactLinks source sink total) {network : Residual n m Unbounded}
    (linksEq : network.links = exactLinks) (arc : Arc m) :
    ∃ highest, InRange W highest ∧
      toInt (network.cost arc) - price last.potential (network.tail arc) ≤ highest := by
  have nonneg : 0 ≤ toInt (network.link arc).cost := by
    rw [Residual.link, linksEq]
    exact posed.cost_nonneg arc.link
  cases direction : arc.reversed with
  | true =>
      refine ⟨_, affordable.cost_in_range, ?_⟩
      have below := affordable.neg_price_le (network.tail arc)
      rw [to_int_cost nonneg, Arc.sign, direction, if_pos rfl]
      omega
  | false =>
      refine ⟨_, affordable.link_in_range arc.link, ?_⟩
      rw [Residual.cost, Residual.tail, direction, if_neg (by decide), if_neg (by decide),
        Residual.link, linksEq]

theorem price_le_of_run (posed : Posed exactLinks source sink total)
    (underway : Underway exactLinks source sink next) {fuel : Nat}
    (ended : (iterate (MinCostFlow.augment source sink) fuel next).outcome = .ok last)
    (node : Fin n) : price last.potential node ≤ price next.potential node := by
  have kept : ∀ before after : State n m Unbounded,
      (Underway exactLinks source sink before ∧
        price before.potential node ≤ price next.potential node) →
      (MinCostFlow.augment source sink before).outcome = .ok (some after) →
        Underway exactLinks source sink after ∧
          price after.potential node ≤ price next.potential node := by
    rintro before after ⟨here, atMost⟩ stepped
    obtain ⟨-, lower⟩ := here.routed.augment_progress stepped
    exact ⟨here.augment posed stepped, (lower node).trans atMost⟩
  exact (Answering.ofTraced.iterate_keeps _ kept ⟨underway, le_rfl⟩ ended).2

theorem Posed.underway_of_route (posed : Posed exactLinks source sink total)
    (ended : (route exactLinks source sink).outcome = .ok last) :
    Underway exactLinks source sink last := by
  rw [route_outcome] at ended
  exact posed.underway_of_passes (Traced.passes_of_iterate ended)

theorem Affordable.outlay_in_range (affordable : Affordable W exactLinks source sink total last)
    (posed : Posed exactLinks source sink total)
    (inStep : InStep links exactLinks source sink state other)
    (alike : Alike state.network other.network)
    {labels : Vector (Option (Label m Unbounded)) n} {reached : Label m Unbounded}
    (searched : shortestPaths other.network other.potential source sink = some labels)
    (sinkSettled : SettledAt labels sink (toInt reached.distance))
    (falls : ∀ node,
      price last.potential node ≤ price other.potential node - capped labels reached.distance node)
    {arc : Arc m} {distance : Int} (usable : state.network.hasCapacity arc = true)
    (here : SettledAt labels (state.network.tail arc) distance) :
    InRange W (outlay state.network state.potential distance arc) := by
  have routed := inStep.free.routed
  obtain ⟨rank, clock, offers, finished⟩ := shortest_paths_finished routed.reduced_nonneg searched
  have near := finished.explored.grown.sink_last _ sinkSettled _ _ here
  have notBefore := finished.anchored.nonneg _ _ here.labelled_at
  have tailFalls := falls (state.network.tail arc)
  have step := inStep.tight.routed.reduced_nonneg arc usable
  have below := inStep.tight.prices_nonpos (state.network.head arc)
  obtain ⟨highest, fits, atMost⟩ := affordable.exists_highest posed routed.links_eq arc
  rw [capped_of_settled here near, ← inStep.price_eq] at tailFalls
  rw [← alike.cost_eq, ← alike.tail_eq] at atMost
  rw [reduced] at step
  apply fits.of_nonneg_of_le
  · rw [outlay]
    omega
  · rw [outlay]
    omega

/-- The bounded run takes the next step when the exact one has an affordable end. -/
theorem Affordable.exists_augment (affordable : Affordable W exactLinks source sink total last)
    (loosened : Loosened links exactLinks total) (posed : Posed links source sink total)
    (exactPosed : Posed exactLinks source sink total)
    (inStep : InStep links exactLinks source sink state other) {fuel : Nat}
    (ended : (iterate (MinCostFlow.augment source sink) (fuel + 1) other).outcome = .ok last) :
    ∃ found, (MinCostFlow.augment source sink state).outcome = .ok found := by
  rcases lt_or_ge (toInt other.routed) total with short | whole
  swap
  · exact ⟨none, inStep.tight.augment_of_whole posed (inStep.routed_eq ▸ whole)⟩
  have alike := inStep.alike loosened exactPosed short
  obtain ⟨found, stepped, rest⟩ := Traced.bind_eq_ok_iff.mp ended
  cases found with
  | none =>
      obtain rfl := Except.ok.inj rest
      have whole := affordable.whole
      omega
  | some next =>
      obtain ⟨exactFound, reached, amount, otherSearched, otherFound, settled, lowered, -⟩ :=
        augment_eq_some stepped
      have sinkSettled : SettledAt exactFound sink (toInt reached.distance) :=
        ⟨reached, otherFound, settled, rfl⟩
      have nextUnderway := inStep.free.augment exactPosed stepped
      have falls : ∀ node, price last.potential node ≤
          price other.potential node - capped exactFound reached.distance node := by
        intro node
        rw [← price_lower_potentials lowered]
        exact price_le_of_run exactPosed nextUnderway rest node
      obtain ⟨labels, searched⟩ := exists_shortest_paths_of_exact alike inStep.price_eq
        inStep.tight.routed.reduced_nonneg inStep.tight.prices_nonpos otherSearched
        fun arc distance usable here => affordable.outlay_in_range exactPosed inStep alike
          otherSearched sinkSettled falls usable here
      apply inStep.tight.exists_augment posed searched
      intro sameReached sameFound sameSettled
      have same := shortest_paths_exact alike inStep.price_eq searched
      rw [otherSearched, Option.some.injEq] at same
      rw [same, get_exact_labels, sameFound, Option.map_some, Option.some.injEq] at otherFound
      have distance : toInt reached.distance = toInt sameReached.distance := by
        rw [← otherFound]
        rfl
      -- The potential of the sink falls by the distance, and no farther than to the final one.
      have sinkFalls := falls sink
      have paid := affordable.neg_price_le sink
      have below := nextUnderway.prices_nonpos sink
      rw [price_lower_potentials lowered] at below
      rw [capped_of_settled sinkSettled le_rfl, ← inStep.price_eq, distance] at sinkFalls below
      exact affordable.cost_in_range.of_neg_le (by omega) below

theorem Affordable.exists_route (affordable : Affordable W exactLinks source sink total last)
    (loosened : Loosened links exactLinks total) (posed : Posed links source sink total)
    (exactPosed : Posed exactLinks source sink total)
    (ended : (route exactLinks source sink).outcome = .ok last) :
    ∃ final, (route links source sink).outcome = .ok final := by
  rw [route_outcome, ← loosened.iteration_bound_eq exactPosed] at ended
  simp only [route_outcome]
  refine Answering.ofTraced.exists_iterate_of_simulated ?_ Answering.of_traced_lawful
    Answering.of_traced_lawful ?_ _ (InStep.initial posed exactPosed) ended
  · intro state other found inStep stepped
    exact inStep.augment_exact loosened posed exactPosed stepped
  · intro state other fuel inStep otherEnded
    exact affordable.exists_augment loosened posed exactPosed inStep otherEnded

end Existence

end FlowTour.MinCostFlow
