import FlowTour.Proofs.MinCostFlow.Lockstep

/-!
Searches among all integers beside searches over a bounded weight type. Where the bounded search gets
through a step, the exact one takes the same step, with the same numbers.
-/

namespace FlowTour.MinCostFlow

open IntegerWeight Residual Table

variable {n m : Nat} {W : Type} [IntegerWeight W]

def Label.exact (label : Label m W) : Label m Unbounded :=
  ⟨IntegerWeight.exact label.distance, label.parent, label.settled⟩

def exactLabels (labels : Vector (Option (Label m W)) n) : Vector (Option (Label m Unbounded)) n :=
  labels.map (Option.map Label.exact)

def exactOffer (offer : W × Fin n) : Unbounded × Fin n := (IntegerWeight.exact offer.1, offer.2)

def Exploration.exact (state : Exploration n m W) : Exploration n m Unbounded :=
  ⟨exactLabels state.labels, state.offers.map exactOffer⟩

section Labels

variable (labels : Vector (Option (Label m W)) n) (node : Fin n)

@[simp] theorem get_exact_labels :
    (exactLabels labels).get node = (labels.get node).map Label.exact :=
  get_map labels (Option.map Label.exact) node

@[simp] theorem is_settled_exact_labels :
    isSettled (exactLabels labels) node = isSettled labels node := by
  rw [isSettled, isSettled, get_exact_labels, Option.any_map]
  rfl

theorem exact_labels_set (label : Option (Label m W)) :
    exactLabels (labels.set node.val label node.isLt) =
      (exactLabels labels).set node.val (label.map Label.exact) node.isLt :=
  Vector.map_set

theorem settle_exact_labels : settle (exactLabels labels) node = exactLabels (settle labels node) := by
  rw [settle, settle, exact_labels_set, get_exact_labels, Option.map_map, Option.map_map]
  rfl

theorem parent_exact_labels :
    ((exactLabels labels).get node).bind Label.parent = (labels.get node).bind Label.parent := by
  rw [get_exact_labels]
  cases labels.get node <;> rfl

theorem capped_distance_exact_labels (farthest : W) :
    cappedDistance (exactLabels labels) (IntegerWeight.exact farthest) node =
      IntegerWeight.exact (cappedDistance labels farthest node) := by
  unfold cappedDistance
  rw [get_exact_labels]
  cases labels.get node with
  | none => rfl
  | some label =>
      simp only [Option.map_some, Label.exact, exact_lt_iff]
      split <;> rfl

end Labels

theorem offer_below_exact_offer (first second : W × Fin n) :
    offerBelow (exactOffer first) (exactOffer second) = offerBelow first second := by
  rw [Bool.eq_iff_iff, offer_below_iff, offer_below_iff, exactOffer, exactOffer, to_int_exact,
    to_int_exact]

theorem exact_start (source : Fin n) :
    Exploration.exact (W := W) (m := m)
        { labels := (Vector.replicate n none).set source.val (some ⟨0, none, false⟩) source.isLt
          offers := Heap.empty.push offerBelow (0, source) } =
      { labels := (Vector.replicate n none).set source.val (some ⟨0, none, false⟩) source.isLt
        offers := Heap.empty.push offerBelow (0, source) } := by
  have noLabels : exactLabels (Vector.replicate n (none : Option (Label m W))) =
      Vector.replicate n none :=
    Vector.map_replicate
  have noOffers : (Heap.empty : Heap (W × Fin n)).map exactOffer = Heap.empty :=
    congrArg Heap.mk Array.map_empty
  rw [Exploration.exact]
  dsimp only
  rw [exact_labels_set, noLabels, Option.map_some, Label.exact, exact_zero,
    ← Heap.push_map offer_below_exact_offer, noOffers, exactOffer, exact_zero]

/-- What an offer makes of a state: the label of the node and one more offer, if it is better. -/
theorem offered_exact (state : Exploration n m W) (node : Fin n) (offer : W) (arc : Arc m) :
    (if (state.exact.labels.get node).all fun label => IntegerWeight.exact offer < label.distance then
      some
        { labels := state.exact.labels.set node.val
            (some ⟨IntegerWeight.exact offer, some arc, false⟩) node.isLt
          offers := state.exact.offers.push offerBelow (IntegerWeight.exact offer, node) }
    else some state.exact) =
      (if (state.labels.get node).all fun label => offer < label.distance then
        some
          { labels := state.labels.set node.val (some ⟨offer, some arc, false⟩) node.isLt
            offers := state.offers.push offerBelow (offer, node) }
      else some state).map Exploration.exact := by
  have nearer : ((state.exact.labels.get node).all
      fun label => IntegerWeight.exact offer < label.distance) =
        (state.labels.get node).all fun label => offer < label.distance := by
    rw [Exploration.exact, get_exact_labels]
    cases state.labels.get node with
    | none => rfl
    | some label => exact decide_eq_decide.mpr exact_lt_iff
  rw [nearer]
  split
  · rw [Option.map_some]
    apply congrArg some
    rw [Exploration.exact, Exploration.exact]
    dsimp only
    rw [exact_labels_set, ← Heap.push_map offer_below_exact_offer]
    rfl
  · rw [Option.map_some]

section Search

variable {network : Residual n m W} {other : Residual n m Unbounded} {potential : Vector W n}
  {otherPotential : Vector Unbounded n} {source sink : Fin n}
  (alike : Alike network other)
  (prices : ∀ node, price potential node = price otherPotential node)
include alike prices

theorem reduced_cost_exact {arc : Arc m} {cost : W}
    (reducible : reducedCost network potential arc = some cost) :
    reducedCost other otherPotential arc = some (exact cost) := by
  have here := to_int_reduced_cost reducible
  obtain ⟨partway, lowered⟩ := Option.isSome_iff_exists.mp (try_sub_is_some_iff.mpr
    (in_range_unbounded (toInt (other.cost arc) - toInt (otherPotential.get (other.tail arc)))))
  refine Option.bind_eq_some_iff.mpr ⟨partway, lowered, try_add_eq_some_iff.mpr ?_⟩
  have atTail := prices (other.tail arc)
  have atHead := prices (other.head arc)
  rw [reduced, alike.cost_eq, alike.tail_eq, alike.head_eq, atTail, atHead] at here
  rw [to_int_exact, here, try_sub_eq_some_iff.mp lowered]
  rfl

theorem relax_exact {distance : W} {state next : Exploration n m W} {arc : Arc m}
    (found : relax network potential distance state arc = some next) :
    relax other otherPotential (exact distance) state.exact arc = some next.exact := by
  unfold relax at found ⊢
  dsimp only at found ⊢
  rw [← alike.open_eq, ← alike.head_eq, Exploration.exact, is_settled_exact_labels]
  split at found
  · next skipped => rw [if_pos skipped, ← Option.some.inj found, Exploration.exact]
  · next notSkipped =>
    rw [if_neg notSkipped]
    obtain ⟨cost, reducible, rest⟩ := Option.bind_eq_some_iff.mp found
    refine Option.bind_eq_some_iff.mpr ⟨exact cost, reduced_cost_exact alike prices reducible, ?_⟩
    rw [is_negative_exact]
    split at rest
    · next negative =>
      rw [if_pos negative]
      exact (offered_exact state _ distance arc).trans (congrArg _ rest)
    · next notNegative =>
      rw [if_neg notNegative]
      obtain ⟨offer, added, last⟩ := Option.bind_eq_some_iff.mp rest
      refine Option.bind_eq_some_iff.mpr
        ⟨exact offer, ?_, (offered_exact state _ offer arc).trans (congrArg _ last)⟩
      rw [try_add_eq_some_iff, to_int_exact, to_int_exact, to_int_exact, try_add_eq_some_iff.mp added]

theorem relax_all_exact {distance : W} {arcs : List (Arc m)} {state next : Exploration n m W}
    (found : arcs.foldlM (relax network potential distance) state = some next) :
    arcs.foldlM (relax other otherPotential (exact distance)) state.exact = some next.exact := by
  induction arcs generalizing state with
  | nil => rw [Option.some.inj found]; rfl
  | cons arc rest induction =>
      rw [List.foldlM_cons] at found ⊢
      obtain ⟨middle, first, others⟩ := Option.bind_eq_some_iff.mp found
      exact Option.bind_eq_some_iff.mpr
        ⟨middle.exact, relax_exact alike prices first, induction others⟩

theorem explore_exact {state : Exploration n m W} {result : Option (Exploration n m W)}
    (found : explore network potential sink state = some result) :
    explore other otherPotential sink state.exact = some (result.map Exploration.exact) := by
  have popped : (state.offers.map exactOffer).pop? offerBelow =
      (state.offers.pop? offerBelow).map fun first => (exactOffer first.1, first.2.map exactOffer) :=
    Heap.pop?_map offer_below_exact_offer state.offers
  unfold explore at found ⊢
  rw [Exploration.exact]
  dsimp only
  rw [is_settled_exact_labels, popped]
  split at found
  · next settled => rw [if_pos settled, ← Option.some.inj found, Option.map_none]
  · next sinkOpen =>
    rw [if_neg sinkOpen]
    cases top : state.offers.pop? offerBelow with
    | none =>
        rw [top] at found
        rw [← Option.some.inj found]
        rfl
    | some first =>
        obtain ⟨⟨distance, node⟩, offers⟩ := first
        rw [top] at found
        dsimp only [Option.map_some, exactOffer] at found ⊢
        rw [is_settled_exact_labels]
        split at found
        · next settled =>
          rw [if_pos settled, ← Option.some.inj found]
          rfl
        · next unsettled =>
          rw [if_neg unsettled]
          split at found
          · next isSink =>
            rw [if_pos isSink, ← Option.some.inj found, settle_exact_labels]
            rfl
          · next notSink =>
            rw [if_neg notSink, settle_exact_labels, ← alike.arcs_from_eq]
            obtain ⟨next, relaxed, rfl⟩ := Option.map_eq_some_iff.mp found
            rw [Option.map_some]
            exact congrArg (Option.map some) (relax_all_exact alike prices relaxed)

theorem shortest_paths_exact {labels : Vector (Option (Label m W)) n}
    (found : shortestPaths network potential source sink = some labels) :
    shortestPaths other otherPotential source sink = some (exactLabels labels) := by
  obtain ⟨final, ended, rfl⟩ := Option.map_eq_some_iff.mp found
  have simulated : ∀ state otherState result, state.exact = otherState →
      explore network potential sink state = some result →
        ∃ otherResult, explore other otherPotential sink otherState = some otherResult ∧
          Option.Rel (fun state otherState => Exploration.exact state = otherState) result
            otherResult := by
    rintro state _ result rfl stepped
    refine ⟨_, explore_exact alike prices stepped, ?_⟩
    cases result with
    | none => exact .none
    | some next => exact .some rfl
  obtain ⟨last, otherEnded, rfl⟩ := Answering.ofOption.iterate_simulated simulated
    Answering.of_option_lawful (2 * m + 3) rfl ended
  rw [exact_start] at otherEnded
  exact Option.map_eq_some_iff.mpr ⟨final.exact, otherEnded, rfl⟩

end Search

section Existence

variable {network : Residual n m W} {other : Residual n m Unbounded} {potential : Vector W n}
  {otherPotential : Vector Unbounded n} {source sink : Fin n}

theorem settled_at_of_exact_run {state : Exploration n m W} {distance : W} {node : Fin n}
    {offers : Heap (W × Fin n)} {fuel : Nat} {last : Exploration n m Unbounded}
    (offering : Offering state) (sinkOpen : isSettled state.labels sink = false)
    (popped : state.offers.pop? offerBelow = some ((distance, node), offers))
    (unsettled : isSettled state.labels node = false)
    (ended : iterate (explore other otherPotential sink) (fuel + 1) state.exact = some last) :
    SettledAt last.labels node (toInt distance) := by
  have exactPopped : state.exact.offers.pop? offerBelow =
      some ((exact distance, node), offers.map exactOffer) := by
    rw [Exploration.exact, Heap.pop?_map offer_below_exact_offer, popped]
    rfl
  obtain ⟨label, found, near⟩ := offering.labelled_at_of_pop popped unsettled
  have exactLabelled : LabelledAt state.exact.labels node (toInt (exact distance)) :=
    ⟨label.exact, by rw [Exploration.exact, get_exact_labels, found, Option.map_some], near⟩
  obtain ⟨result, stepped, rest⟩ := Option.bind_eq_some_iff.mp ended
  cases result with
  | none =>
      rcases explore_eq_none stepped with sinkSettled | empty
      · rw [Exploration.exact, is_settled_exact_labels, sinkOpen] at sinkSettled
        cases sinkSettled
      · have listed := (Heap.mem_pop? _ exactPopped).mpr (.inl rfl)
        rw [empty] at listed
        cases listed
  | some next =>
      have settled : SettledAt next.labels node (toInt distance) :=
        settled_at_of_explore stepped exactPopped
          ((is_settled_exact_labels state.labels node).trans unsettled) exactLabelled
      have onward : iterate (explore other otherPotential sink) fuel next = some last := rest
      refine Answering.ofOption.iterate_keeps
        (fun state => SettledAt state.labels node (toInt distance)) ?_ settled onward
      intro before after here again
      exact here.explore again

/-- A search answers when the exact one has an end that leaves enough in range for every arc with
capacity out of a settled node. -/
theorem exists_shortest_paths_of_exact (alike : Alike network other)
    (prices : ∀ node, price potential node = price otherPotential node)
    (nonneg : ∀ arc, network.hasCapacity arc = true → 0 ≤ reduced network (price potential) arc)
    (nonpos : ∀ node, price potential node ≤ 0)
    {otherLabels : Vector (Option (Label m Unbounded)) n}
    (searched : shortestPaths other otherPotential source sink = some otherLabels)
    (inRange : ∀ arc distance, network.hasCapacity arc = true →
      SettledAt otherLabels (network.tail arc) distance →
        InRange W (outlay network potential distance arc)) :
    ∃ labels, shortestPaths network potential source sink = some labels := by
  obtain ⟨last, otherEnded, rfl⟩ := Option.map_eq_some_iff.mp searched
  have simulated : ∀ state otherState result,
      (state.exact = otherState ∧ Sought network potential source sink state) →
      explore network potential sink state = some result →
        ∃ otherResult, explore other otherPotential sink otherState = some otherResult ∧
          Option.Rel (fun state otherState => Exploration.exact state = otherState ∧
            Sought network potential source sink state) result otherResult := by
    rintro state _ result ⟨rfl, sought⟩ stepped
    refine ⟨_, explore_exact alike prices stepped, ?_⟩
    cases result with
    | none => exact .none
    | some next => exact .some ⟨rfl, sought.explore nonneg stepped⟩
  have answers : ∀ state otherState fuel,
      (state.exact = otherState ∧ Sought network potential source sink state) →
      iterate (explore other otherPotential sink) (fuel + 1) otherState = some last →
        ∃ result, explore network potential sink state = some result := by
    rintro state _ fuel ⟨rfl, sought⟩ otherRun
    obtain ⟨rank, clock, explored⟩ := sought.explored
    apply explored.exists_explore sought.anchored nonneg nonpos
    intro distance node offers sinkOpen popped unsettled _ arc leaves usable
    apply inRange arc _ usable
    rw [leaves]
    exact settled_at_of_exact_run explored.offering sinkOpen popped unsettled otherRun
  rw [← exact_start (W := W)] at otherEnded
  obtain ⟨final, ended⟩ := Answering.ofOption.exists_iterate_of_simulated simulated
    Answering.of_option_lawful Answering.of_option_lawful answers (2 * m + 3)
    ⟨rfl, Sought.initial network potential source sink⟩ otherEnded
  exact ⟨final.labels, Option.map_eq_some_iff.mpr ⟨final, ended, rfl⟩⟩

end Existence

end FlowTour.MinCostFlow
