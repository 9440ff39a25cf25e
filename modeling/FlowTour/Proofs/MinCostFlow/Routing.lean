import FlowTour.Proofs.MinCostFlow.Potentials

/-!
The run that routes a supply. Every iteration keeps a flow from the source to the sink whose value is
the amount counted, and potentials that leave no arc with capacity a negative reduced cost. So at any
time the flow is a cheapest one of its value.
-/

namespace FlowTour.MinCostFlow

open IntegerWeight Residual

variable {n m : Nat} {W : Type} [IntegerWeight W]

/-- Amounts within the capacities of the links that every node but the terminals passes on. -/
structure Carries (links : Vector (Link n W) m) (source sink : Fin n) (amount : Fin m → Int) :
    Prop where
  nonneg : ∀ index, 0 ≤ amount index
  within : ∀ index limit, (links.get index).capacity = some limit → amount index ≤ toInt limit
  conserved : ∀ node, node ≠ source → node ≠ sink → netOutflow links amount node = 0

/-- A flow of the counted value over some links, with potentials that certify it. -/
structure Routed (links : Vector (Link n W) m) (source sink : Fin n) (state : State n m W) :
    Prop where
  links_eq : state.network.links = links
  sound : state.network.Sound
  reduced_nonneg : ∀ arc, state.network.hasCapacity arc = true →
    0 ≤ reduced state.network (price state.potential) arc
  value_eq : netOutflow links state.network.flow source = toInt state.routed
  conserved : ∀ node, node ≠ source → node ≠ sink →
    netOutflow links state.network.flow node = 0

variable {links : Vector (Link n W) m} {source sink : Fin n} {state next final : State n m W}

theorem Routed.carries (routed : Routed links source sink final) :
    Carries links source sink final.network.flow where
  nonneg := routed.sound.flow_nonneg
  within index limit found := (routed.sound.limited index limit (routed.links_eq ▸ found)).1
  conserved := routed.conserved

theorem augment_eq_some (stepped : (augment source sink state).outcome = .ok (some next)) :
    ∃ labels reached amount,
      shortestPaths state.network state.potential source sink = some labels ∧
        labels.get sink = some reached ∧ reached.settled = true ∧
          lowerPotentials state.potential labels reached.distance = some next.potential ∧
            state.network.bottleneck (state.network.tracePath
                (fun node => (labels.get node).bind Label.parent) sink) = some amount ∧
              state.network.pushAll (state.network.tracePath
                  (fun node => (labels.get node).bind Label.parent) sink) amount =
                some next.network ∧
                Weight.tryAdd state.routed amount = some next.routed := by
  unfold augment at stepped
  obtain ⟨labels, searched, looked⟩ := Traced.bind_eq_ok_iff.mp stepped
  split at looked
  · cases looked
  · next reached arrived =>
    obtain ⟨found, settled⟩ := Option.filter_eq_some_iff.mp arrived
    obtain ⟨potential, lowered, moved⟩ := Traced.bind_eq_ok_iff.mp looked
    dsimp only at moved
    split at moved
    · cases moved
    · next amount least =>
      obtain ⟨network, pushed, noted⟩ := Traced.bind_eq_ok_iff.mp moved
      obtain ⟨_, -, counting⟩ := Traced.bind_eq_ok_iff.mp noted
      obtain ⟨routed, added, last⟩ := Traced.bind_eq_ok_iff.mp counting
      obtain rfl := Option.some.inj (Except.ok.inj last)
      exact ⟨labels, reached, amount, Traced.of_option_eq_ok_iff.mp searched, found, settled,
        Traced.of_option_eq_ok_iff.mp lowered, least, Traced.of_option_eq_ok_iff.mp pushed,
        Traced.of_option_eq_ok_iff.mp added⟩

theorem augment_eq_none (stepped : (augment source sink state).outcome = .ok none) :
    ∃ labels, shortestPaths state.network state.potential source sink = some labels ∧
      (isSettled labels sink = false ∨
        ∃ reached, labels.get sink = some reached ∧ reached.settled = true ∧
          state.network.bottleneck (state.network.tracePath
            (fun node => (labels.get node).bind Label.parent) sink) = none) := by
  unfold augment at stepped
  obtain ⟨labels, searched, looked⟩ := Traced.bind_eq_ok_iff.mp stepped
  refine ⟨labels, Traced.of_option_eq_ok_iff.mp searched, ?_⟩
  split at looked
  · next missed =>
    rw [Option.filter_eq_none_iff] at missed
    refine .inl ?_
    cases found : labels.get sink with
    | none => rw [isSettled, found, Option.any_none]
    | some label => simpa [isSettled, found] using missed label found
  · next reached arrived =>
    obtain ⟨found, settled⟩ := Option.filter_eq_some_iff.mp arrived
    refine .inr ⟨reached, found, settled, ?_⟩
    obtain ⟨potential, -, moved⟩ := Traced.bind_eq_ok_iff.mp looked
    dsimp only at moved
    split at moved
    · next unlimited => exact unlimited
    · obtain ⟨network, -, noted⟩ := Traced.bind_eq_ok_iff.mp moved
      obtain ⟨_, -, counting⟩ := Traced.bind_eq_ok_iff.mp noted
      obtain ⟨routed, -, last⟩ := Traced.bind_eq_ok_iff.mp counting
      cases last

/-- What a search that settles the sink gives to an augmentation: a simple path of arcs with capacity
along which the capped distances grow by just the reduced costs, while they grow by no more along any
arc with capacity. -/
structure Guided (network : Residual n m W) (potential : Vector W n) (source sink : Fin n)
    (labels : Vector (Option (Label m W)) n) (farthest : W) (path : List (Arc m)) : Prop where
  leads : network.Leads path source sink
  simple : (network.stops path source).Nodup
  usable : ∀ arc ∈ path, network.hasCapacity arc = true
  tight : ∀ arc ∈ path, capped labels farthest (network.head arc) =
    capped labels farthest (network.tail arc) + reduced network (price potential) arc
  near : ∀ arc, network.hasCapacity arc = true → capped labels farthest (network.head arc) ≤
    capped labels farthest (network.tail arc) + reduced network (price potential) arc
  nonneg : ∀ node, 0 ≤ capped labels farthest node

theorem Routed.guided {labels : Vector (Option (Label m W)) n} {reached : Label m W}
    (routed : Routed links source sink state)
    (searched : shortestPaths state.network state.potential source sink = some labels)
    (found : labels.get sink = some reached) (settled : reached.settled = true) :
    Guided state.network state.potential source sink labels reached.distance
      (state.network.tracePath (fun node => (labels.get node).bind Label.parent) sink) := by
  obtain ⟨rank, clock, offers, finished⟩ := shortest_paths_finished routed.reduced_nonneg searched
  have explored := finished.explored
  have sinkSettled : SettledAt labels sink (toInt reached.distance) := ⟨reached, found, settled, rfl⟩
  have trace := trace_path_traced explored.grown.rooted (is_settled_iff.mpr ⟨_, sinkSettled⟩)
  have onPath := fun arc member =>
    explored.capped_parent sinkSettled (trace.parents arc member).1 (trace.parents arc member).2
  exact
    { leads := trace.leads
      simple := trace.simple
      usable := fun arc member => (onPath arc member).1
      tight := fun arc member => (onPath arc member).2
      near := fun arc usable =>
        explored.capped_head_le sinkSettled usable (routed.reduced_nonneg arc usable)
      nonneg := finished.anchored.capped_nonneg sinkSettled }

theorem Guided.pushed {network after : Residual n m W} {potential : Vector W n}
    {labels : Vector (Option (Label m W)) n} {farthest amount : W} {path : List (Arc m)}
    (guided : Guided network potential source sink labels farthest path) (sound : network.Sound)
    (least : network.bottleneck path = some amount)
    (pushedAll : network.pushAll path amount = some after) :
    Pushed network after path (toInt amount) := by
  have positive := one_le_bottleneck guided.usable least
  have distinct := links_nodup guided.leads guided.simple
  exact sound.push_all (by omega) distinct (admits_bottleneck sound least) pushedAll

/-- One iteration keeps the flow and the certificate. -/
theorem Routed.augment (routed : Routed links source sink state) (different : source ≠ sink)
    (costs : ∀ index, 0 ≤ toInt (links.get index).cost)
    (stepped : (augment source sink state).outcome = .ok (some next)) :
    Routed links source sink next := by
  obtain ⟨labels, reached, amount, searched, found, settled, lowered, least, pushedAll, added⟩ :=
    augment_eq_some stepped
  have sound := routed.sound
  have linksEq := routed.links_eq
  have guided := routed.guided searched found settled
  have pushed := guided.pushed sound least pushedAll
  have nextLinks := pushed.links_eq.trans linksEq
  have outflow := pushed.net_outflow_eq guided.leads
  rw [nextLinks, linksEq] at outflow
  refine ⟨nextLinks, pushed.sound, ?_, ?_, ?_⟩
  · intro arc capacity
    have linkCosts : ∀ other, 0 ≤ toInt (state.network.link other).cost := by
      intro other
      rw [Residual.link, linksEq]
      exact costs _
    rw [funext (price_lower_potentials lowered)]
    exact reduced_nonneg_of_pushed sound linkCosts pushed
      (fun other member => ⟨guided.usable other member, guided.tight other member⟩) guided.near
      capacity
  · rw [outflow, routed.value_eq, try_add_eq_some_iff.mp added, if_pos rfl,
      if_neg (Ne.symm different)]
    omega
  · intro node notSource notSink
    rw [outflow, routed.conserved node notSource notSink, if_neg (Ne.symm notSource),
      if_neg (Ne.symm notSink)]
    omega

theorem Routed.augment_progress (routed : Routed links source sink state)
    (stepped : (MinCostFlow.augment source sink state).outcome = .ok (some next)) :
    toInt state.routed < toInt next.routed ∧
      ∀ node, price next.potential node ≤ price state.potential node := by
  obtain ⟨labels, reached, amount, searched, found, settled, lowered, least, -, added⟩ :=
    augment_eq_some stepped
  have guided := routed.guided searched found settled
  have positive := one_le_bottleneck guided.usable least
  constructor
  · rw [try_add_eq_some_iff.mp added]
    omega
  · intro node
    have lowering := guided.nonneg node
    rw [price_lower_potentials lowered]
    omega

theorem Routed.initial (costs : ∀ index, 0 ≤ toInt (links.get index).cost)
    (capacities : ∀ index capacity, (links.get index).capacity = some capacity →
      0 ≤ toInt capacity) :
    Routed links source sink (initialState links) where
  links_eq := rfl
  sound := sound_of_links capacities
  reduced_nonneg arc usable := by
    have admits := ((sound_of_links capacities).has_capacity_iff arc).mp usable
    have noPrice : ∀ node, price (initialState links).potential node = 0 := by
      intro node
      rw [price, initialState, Table.get_replicate, to_int_zero]
    rw [reduced, noPrice, noPrice]
    obtain ⟨index, reversed⟩ := arc
    cases reversed
    case true =>
      simp [Admits] at admits
    case false =>
      have cost := costs index
      simpa [Residual.cost, Residual.link, initialState] using cost
  value_eq := by
    rw [initialState, to_int_zero]
    exact net_outflow_of_links links source
  conserved node _ _ := net_outflow_of_links links node

end FlowTour.MinCostFlow
