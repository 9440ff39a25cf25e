import FlowTour.Proofs.MinCostFlow.PathCost

/-!
What the labels of a search for shortest paths say in the end. A route from the source either arrives
at a settled node that is no farther than the route is long, or is at least as long as the way to the
sink. So the label of a settled node is the least reduced cost of a route there, and a node that is not
settled is either out of reach or no nearer than the sink.
-/

namespace FlowTour.MinCostFlow

open IntegerWeight Residual

variable {n m : Nat} {W : Type} [IntegerWeight W] {network : Residual n m W}

section Along

variable {prices : Fin n → Int} {path : List (Arc m)} {origin node : Fin n}

/-- What it costs to send one unit along a path at reduced costs. -/
def reducedAlong (network : Residual n m W) (prices : Fin n → Int) (path : List (Arc m)) : Int :=
  (path.map (reduced network prices)).sum

theorem reduced_along_cons (arc : Arc m) (rest : List (Arc m)) :
    reducedAlong network prices (arc :: rest) =
      reduced network prices arc + reducedAlong network prices rest := by
  rw [reducedAlong, reducedAlong, List.map_cons, List.sum_cons]

theorem reduced_along_eq (leads : network.Leads path origin node) :
    reducedAlong network prices path = pathCost network path - prices origin + prices node := by
  induction path generalizing origin with
  | nil =>
      obtain rfl : origin = node := leads
      rw [reducedAlong, pathCost, List.map_nil, List.map_nil, List.sum_nil]
      omega
  | cons arc rest induction =>
      obtain ⟨rfl, onward⟩ := leads
      rw [reduced_along_cons, path_cost_cons, induction onward, reduced]
      omega

theorem reduced_along_nonneg
    (nonneg : ∀ arc, network.hasCapacity arc = true → 0 ≤ reduced network prices arc)
    (route : network.Route path origin node) : 0 ≤ reducedAlong network prices path := by
  apply List.sum_nonneg
  intro cost member
  obtain ⟨arc, onPath, rfl⟩ := List.mem_map.mp member
  exact nonneg arc (route.usable arc onPath)

end Along

section Finished

variable {potential : Vector W n} {source sink node : Fin n} {rank : Fin n → Nat} {clock : Nat}
  {state : Exploration n m W} {path : List (Arc m)} {distance : Int}

theorem Finished.route_bound (finished : Finished network potential source sink rank clock state)
    (nonneg : ∀ arc, network.hasCapacity arc = true → 0 ≤ reduced network (price potential) arc)
    {origin : Fin n} {base : Int} (labelled : LabelledAt state.labels origin base)
    (route : network.Route path origin node) :
    (∃ nearer ≤ base + reducedAlong network (price potential) path,
        SettledAt state.labels node nearer) ∨
      ∃ final ≤ base + reducedAlong network (price potential) path,
        SettledAt state.labels sink final := by
  induction path generalizing origin base with
  | nil =>
      obtain rfl : origin = node := route.leads
      rw [reducedAlong, List.map_nil, List.sum_nil, add_zero]
      exact (finished.settled_at_or labelled).imp_left fun settled => ⟨base, le_rfl, settled⟩
  | cons arc rest induction =>
      obtain ⟨rfl, onward⟩ := route.leads
      have usable := route.usable arc (List.mem_cons_self ..)
      have later : network.Route rest (network.head arc) node :=
        ⟨onward, fun other member => route.usable other (List.mem_cons_of_mem _ member)⟩
      have step := nonneg arc usable
      have ahead := reduced_along_nonneg nonneg later
      rw [reduced_along_cons]
      -- The route is followed as long as its nodes are settled and the sink is not met; what is left of
      -- it costs nothing less than zero, so the sink is near enough where it ends.
      rcases finished.settled_at_or labelled with settled | ⟨final, near, arrived⟩
      · by_cases isSink : network.tail arc = sink
        · exact .inr ⟨base, by omega, isSink ▸ settled⟩
        · obtain ⟨offered, near, found⟩ :=
            finished.explored.grown.relaxed arc base usable List.not_mem_nil isSink settled
          rcases induction found later with ⟨nearer, atMost, there⟩ | ⟨final, atMost, there⟩
          · exact .inl ⟨nearer, by omega, there⟩
          · exact .inr ⟨final, by omega, there⟩
      · exact .inr ⟨final, by omega, arrived⟩

theorem Finished.traced (finished : Finished network potential source sink rank clock state)
    (settled : SettledAt state.labels node distance) :
    network.Route (network.tracePath (fun other => (state.labels.get other).bind Label.parent) node)
        source node ∧
      reducedAlong network (price potential)
        (network.tracePath (fun other => (state.labels.get other).bind Label.parent) node) =
          distance := by
  have grown := finished.explored.grown
  have trace := trace_path_traced grown.rooted (is_settled_iff.mpr ⟨distance, settled⟩)
  have cost := grown.path_cost_eq finished.anchored.source_label trace settled
  refine ⟨⟨trace.leads, ?_⟩, ?_⟩
  · intro arc member
    obtain ⟨label, found, parent⟩ := Option.bind_eq_some_iff.mp (trace.parents arc member).2
    exact (grown.parented _ label arc found parent).2.1
  · rw [reduced_along_eq trace.leads, cost]
    omega

theorem Finished.le_reduced_along (finished : Finished network potential source sink rank clock state)
    (nonneg : ∀ arc, network.hasCapacity arc = true → 0 ≤ reduced network (price potential) arc)
    (settled : SettledAt state.labels node distance) (route : network.Route path source node) :
    distance ≤ reducedAlong network (price potential) path := by
  rcases finished.route_bound nonneg finished.anchored.source_label route with
    ⟨nearer, atMost, there⟩ | ⟨final, atMost, there⟩
  · obtain rfl := settled_at_unique settled there
    omega
  · have notAfter := finished.explored.grown.sink_last final there node distance settled
    omega

theorem Finished.exists_sink_le (finished : Finished network potential source sink rank clock state)
    (nonneg : ∀ arc, network.hasCapacity arc = true → 0 ≤ reduced network (price potential) arc)
    (unsettled : isSettled state.labels node = false) (route : network.Route path source node) :
    ∃ final ≤ reducedAlong network (price potential) path, SettledAt state.labels sink final := by
  rcases finished.route_bound nonneg finished.anchored.source_label route with
    ⟨nearer, -, there⟩ | ⟨final, atMost, there⟩
  · rw [is_settled_iff.mpr ⟨nearer, there⟩] at unsettled
    cases unsettled
  · exact ⟨final, by omega, there⟩

end Finished

/-- What a search finds where no arc with capacity has a negative reduced cost. -/
theorem shortest_paths_is_shortest (network : Residual n m W) (potential : Vector W n)
    (source sink : Fin n) (labels : Vector (Option (Label m W)) n)
    (nonneg : ∀ arc, network.hasCapacity arc = true → 0 ≤ reduced network (price potential) arc)
    (found : shortestPaths network potential source sink = some labels) :
    (isSettled labels sink = true ↔ network.Reaches source sink) ∧
      (∀ node distance, SettledAt labels node distance →
        IsLeast {cost | ∃ path, network.Route path source node ∧
          reducedAlong network (price potential) path = cost} distance) ∧
      (∀ node, network.Reaches source node → isSettled labels node = false →
        ∃ final, SettledAt labels sink final ∧ ∀ path, network.Route path source node →
          final ≤ reducedAlong network (price potential) path) ∧
      ∀ node distance, SettledAt labels node distance →
        network.Route (network.tracePath (fun other => (labels.get other).bind Label.parent) node)
            source node ∧
          reducedAlong network (price potential)
            (network.tracePath (fun other => (labels.get other).bind Label.parent) node) =
              distance := by
  obtain ⟨rank, clock, offers, finished⟩ := shortest_paths_finished nonneg found
  refine ⟨⟨?_, ?_⟩, ?_, ?_, fun node distance => finished.traced⟩
  · intro settled
    obtain ⟨distance, there⟩ := is_settled_iff.mp settled
    exact ⟨_, (finished.traced there).1⟩
  · intro reached
    by_contra missed
    exact finished.unreachable (Bool.not_eq_true _ ▸ missed) reached
  · intro node distance settled
    obtain ⟨route, cost⟩ := finished.traced settled
    refine ⟨⟨_, route, cost⟩, ?_⟩
    rintro _ ⟨path, otherRoute, rfl⟩
    exact finished.le_reduced_along nonneg settled otherRoute
  · rintro node ⟨path, route⟩ unsettled
    obtain ⟨final, -, there⟩ := finished.exists_sink_le nonneg unsettled route
    refine ⟨final, there, ?_⟩
    intro other otherRoute
    obtain ⟨same, atMost, again⟩ := finished.exists_sink_le nonneg unsettled otherRoute
    rwa [settled_at_unique there again]

/-- Five nodes between which two ways to node 1 are equally long, and node 4 is first found from node
2, although the way over the sink 3 is shorter. -/
def shortcuts : Residual 5 6 Int32 :=
  Residual.ofLinks #v[⟨0, 1, some 1, 2⟩, ⟨0, 2, some 1, 1⟩, ⟨2, 1, none, 1⟩, ⟨1, 3, some 1, 1⟩,
    ⟨2, 4, some 1, 9⟩, ⟨3, 4, none, 1⟩]

def shortcutPotentials : Vector Int32 5 := #v[0, -1, -1, -2, -3]

theorem shortest_paths_is_shortest_shortcuts :
    (∀ arc, shortcuts.hasCapacity arc = true → 0 ≤ reduced shortcuts (price shortcutPotentials) arc) ∧
      ∃ labels, shortestPaths shortcuts shortcutPotentials 0 3 = some labels ∧
        LabelledAt labels 4 7 ∧ isSettled labels 4 = false ∧
          IsLeast {cost | ∃ path, shortcuts.Route path 0 3 ∧
            reducedAlong shortcuts (price shortcutPotentials) path = cost} 1 ∧
              ∀ path, shortcuts.Route path 0 4 →
                1 ≤ reducedAlong shortcuts (price shortcutPotentials) path := by
  have nonneg : ∀ arc, shortcuts.hasCapacity arc = true →
      0 ≤ reduced shortcuts (price shortcutPotentials) arc := by
    have each : ∀ link reversed, shortcuts.hasCapacity ⟨link, reversed⟩ = true →
        0 ≤ reduced shortcuts (price shortcutPotentials) ⟨link, reversed⟩ := by
      decide +kernel
    exact fun arc => each arc.link arc.reversed
  have computed : (shortestPaths shortcuts shortcutPotentials 0 3).any (fun labels =>
      SettledAt labels 3 1 ∧ LabelledAt labels 4 7 ∧ isSettled labels 4 = false) = true := by
    decide +kernel
  cases found : shortestPaths shortcuts shortcutPotentials 0 3 with
  | none => simp [found] at computed
  | some labels =>
      obtain ⟨atSink, behind, fresh⟩ : SettledAt labels 3 1 ∧ LabelledAt labels 4 7 ∧
          isSettled labels 4 = false := by
        simpa [found] using computed
      obtain ⟨-, least, farther, -⟩ := shortest_paths_is_shortest shortcuts shortcutPotentials 0 3
        labels nonneg found
      refine ⟨nonneg, labels, rfl, behind, fresh, least 3 1 atSink, ?_⟩
      intro path route
      obtain ⟨final, there, notNearer⟩ := farther 4 ⟨path, route⟩ fresh
      obtain rfl := settled_at_unique atSink there
      exact notNearer path route

end FlowTour.MinCostFlow
