import FlowTour.Proofs.MinCostFlow.Optimality
import FlowTour.Proofs.MinCostFlow.PathCost
import FlowTour.Proofs.Residual.Headroom

/-!
A run under way. The source keeps its potential of zero and no potential is below that of the sink, no
link carries more than has been routed, and the flow has cost at least what the last path costs a unit.
No more is routed than the source offers, so an iteration answers as soon as its search does and the
potential of the sink stays in range.
-/

namespace FlowTour.MinCostFlow

open IntegerWeight Residual

variable {n m : Nat} {W : Type} [IntegerWeight W]

/-- Links between two terminals. Nothing leads into the source, and what leads out of it is limited,
costs nothing and adds up to the total. -/
structure Posed (links : Vector (Link n W) m) (source sink : Fin n) (total : Int) : Prop where
  in_range : InRange W total
  different : source ≠ sink
  cost_nonneg : ∀ index, 0 ≤ toInt (links.get index).cost
  capacity_nonneg : ∀ index capacity, (links.get index).capacity = some capacity →
    0 ≤ toInt capacity
  none_enters : ∀ index, (links.get index).head ≠ source
  limited : ∀ index, (links.get index).tail = source → (links.get index).capacity ≠ none
  free : ∀ index, (links.get index).tail = source → toInt (links.get index).cost = 0
  offered : (∑ index with (links.get index).tail = source,
    toInt ((links.get index).capacity.getD 0)) = total

/-- What every iteration keeps. -/
structure Underway (links : Vector (Link n W) m) (source sink : Fin n) (state : State n m W) :
    Prop where
  routed : Routed links source sink state
  source_price : price state.potential source = 0
  prices_nonpos : ∀ node, price state.potential node ≤ 0
  sink_price_le : ∀ node, price state.potential sink ≤ price state.potential node
  flow_le : ∀ index, state.network.flow index ≤ toInt state.routed
  paid : -price state.potential sink ≤ linkCost links state.network.flow

section Outcome

variable {source sink : Fin n} {state : State n m W} {labels : Vector (Option (Label m W)) n}
  {reached : Label m W}

theorem augment_of_unsearched
    (searched : shortestPaths state.network state.potential source sink = none) :
    (augment source sink state).outcome = .error .overflow := by
  simp [augment, searched, Except.bind]

theorem augment_of_missed
    (searched : shortestPaths state.network state.potential source sink = some labels)
    (missed : isSettled labels sink = false) : (augment source sink state).outcome = .ok none := by
  have none : (labels.get sink).filter Label.settled = none := by
    rw [Option.filter_eq_none_iff]
    intro label found
    simpa [isSettled, found] using missed
  simp [augment, searched, none, Except.bind]

omit [IntegerWeight W] in
theorem filter_settled {label : Option (Label m W)} (found : label = some reached)
    (settled : reached.settled = true) : label.filter Label.settled = some reached :=
  Option.filter_eq_some_iff.mpr ⟨found, settled⟩

variable (searched : shortestPaths state.network state.potential source sink = some labels)
  (found : labels.get sink = some reached) (settled : reached.settled = true)
include searched found settled

theorem augment_of_unlowered
    (lowered : lowerPotentials state.potential labels reached.distance = none) :
    (augment source sink state).outcome = .error .overflow := by
  simp [augment, searched, filter_settled found settled, lowered, Except.bind]

theorem augment_of_moved {potential : Vector W n}
    (lowered : lowerPotentials state.potential labels reached.distance = some potential)
    {amount : W} (least : state.network.bottleneck (state.network.tracePath
      (fun node => (labels.get node).bind Label.parent) sink) = some amount)
    {network : Residual n m W} (pushed : state.network.pushAll (state.network.tracePath
      (fun node => (labels.get node).bind Label.parent) sink) amount = some network)
    {counted : W} (added : Weight.tryAdd state.routed amount = some counted) :
    (augment source sink state).outcome =
      .ok (some ⟨network, potential, counted, state.iterations + 1⟩) := by
  simp [augment, searched, filter_settled found settled, lowered, least, pushed, added, Except.bind]

end Outcome

section Links

variable {links : Vector (Link n W) m} {source sink : Fin n} {total : Int}

theorem link_cost_add_mul (links : Vector (Link n W) m) (first second : Fin m → Int)
    (factor : Int) : linkCost links (fun index => first index + factor * second index) =
      linkCost links first + factor * linkCost links second := by
  simp only [linkCost, Finset.mul_sum, ← Finset.sum_add_distrib]
  apply Finset.sum_congr rfl
  intro index _
  ring

theorem Posed.link_cost_nonneg (posed : Posed links source sink total) {amount : Fin m → Int}
    (nonneg : ∀ index, 0 ≤ amount index) : 0 ≤ linkCost links amount := by
  apply Finset.sum_nonneg
  intro index _
  exact mul_nonneg (posed.cost_nonneg index) (nonneg index)

theorem Posed.total_nonneg (posed : Posed links source sink total) : 0 ≤ total := by
  rw [← posed.offered]
  apply Finset.sum_nonneg
  intro index member
  obtain ⟨limit, limited⟩ :=
    Option.ne_none_iff_exists'.mp (posed.limited index (Finset.mem_filter.mp member).2)
  rw [limited, Option.getD_some]
  exact posed.capacity_nonneg index limit limited

theorem Posed.forward_of_tail (posed : Posed links source sink total) {network : Residual n m W}
    (linksEq : network.links = links) {arc : Arc m} (leaves : network.tail arc = source) :
    arc.reversed = false ∧ (links.get arc.link).tail = source := by
  cases direction : arc.reversed with
  | true =>
      rw [Residual.tail, direction, if_pos rfl, Residual.link, linksEq] at leaves
      exact absurd leaves (posed.none_enters arc.link)
  | false =>
      rw [Residual.tail, direction, if_neg (by decide), Residual.link, linksEq] at leaves
      exact ⟨rfl, leaves⟩

theorem Posed.cost_eq_zero (posed : Posed links source sink total) {network : Residual n m W}
    (linksEq : network.links = links) {arc : Arc m} (leaves : network.tail arc = source) :
    toInt (network.cost arc) = 0 := by
  obtain ⟨forward, atSource⟩ := posed.forward_of_tail linksEq leaves
  rw [Residual.cost, forward, if_neg (by decide), Residual.link, linksEq]
  exact posed.free arc.link atSource

end Links

section Step

variable {links : Vector (Link n W) m} {source sink : Fin n} {state next : State n m W} {total : Int}
  {labels : Vector (Option (Label m W)) n} {reached : Label m W}

theorem Underway.initial (posed : Posed links source sink total) :
    Underway links source sink (initialState links) := by
  have noPrice : ∀ node, price (initialState links).potential node = 0 := by
    intro node
    rw [price, initialState, Table.get_replicate, to_int_zero]
  have noFlow : ∀ index, (initialState links).network.flow index = 0 := flow_of_links links
  constructor
  · exact Routed.initial posed.cost_nonneg posed.capacity_nonneg
  · exact noPrice source
  · intro node
    exact (noPrice node).le
  · intro node
    rw [noPrice, noPrice]
  · intro index
    rw [noFlow, initialState, to_int_zero]
  · rw [noPrice, neg_zero]
    apply posed.link_cost_nonneg
    intro index
    exact (noFlow index).ge

theorem Routed.capped_terminals (routed : Routed links source sink state)
    (searched : shortestPaths state.network state.potential source sink = some labels)
    (found : labels.get sink = some reached) (settled : reached.settled = true) :
    capped labels reached.distance source = 0 ∧
      capped labels reached.distance sink = toInt reached.distance := by
  obtain ⟨rank, clock, offers, finished⟩ := shortest_paths_finished routed.reduced_nonneg searched
  have sinkSettled : SettledAt labels sink (toInt reached.distance) := ⟨reached, found, settled, rfl⟩
  have atMost := finished.explored.capped_le_of_labelled sinkSettled finished.anchored.source_label
  have atLeast := finished.anchored.capped_nonneg sinkSettled source
  exact ⟨le_antisymm atMost atLeast, capped_of_settled sinkSettled le_rfl⟩

theorem Underway.path_cost_eq (underway : Underway links source sink state)
    (searched : shortestPaths state.network state.potential source sink = some labels)
    (found : labels.get sink = some reached) (settled : reached.settled = true) :
    pathCost state.network
        (state.network.tracePath (fun node => (labels.get node).bind Label.parent) sink) =
      toInt reached.distance - price state.potential sink := by
  have guided := underway.routed.guided searched found settled
  obtain ⟨atSource, atSink⟩ := underway.routed.capped_terminals searched found settled
  have start := underway.source_price
  rw [path_cost_eq_sub (fun node => capped labels reached.distance node - price state.potential node)
    guided.leads, atSource, atSink, start]
  · omega
  · intro arc member
    have tight := guided.tight arc member
    rw [reduced] at tight
    omega

/-- One iteration keeps what is known of a run. -/
theorem Underway.augment (underway : Underway links source sink state)
    (posed : Posed links source sink total)
    (stepped : (MinCostFlow.augment source sink state).outcome = .ok (some next)) :
    Underway links source sink next := by
  obtain ⟨labels, reached, amount, searched, found, settled, lowered, least, pushedAll, added⟩ :=
    augment_eq_some stepped
  have routed := underway.routed
  have sound := routed.sound
  have guided := routed.guided searched found settled
  have positive := one_le_bottleneck guided.usable least
  have distinct := links_nodup guided.leads guided.simple
  have pushed := guided.pushed sound least pushedAll
  have counted := try_add_eq_some_iff.mp added
  have lowering := price_lower_potentials lowered
  obtain ⟨atSource, atSink⟩ := routed.capped_terminals searched found settled
  have nextRouted := routed.augment posed.different posed.cost_nonneg stepped
  constructor
  · exact nextRouted
  · rw [lowering, atSource, underway.source_price, sub_zero]
  · intro node
    have below := underway.prices_nonpos node
    have farther := guided.nonneg node
    rw [lowering]
    omega
  · intro node
    have above := underway.sink_price_le node
    have nearer := capped_le labels reached.distance node
    rw [lowering, lowering, atSink]
    omega
  · intro index
    have before := underway.flow_le index
    have more := pushed.flow_le (by omega) distinct index
    omega
  · -- The last path alone costs as much, and at least one unit has been sent along it.
    have spent := underway.path_cost_eq searched found settled
    have costs : ∀ index, 0 ≤ toInt (state.network.links.get index).cost := by
      rw [routed.links_eq]
      exact posed.cost_nonneg
    have step := link_cost_carriage costs
      (state.network.tracePath (fun node => (labels.get node).bind Label.parent) sink)
    have flows : next.network.flow = fun index => state.network.flow index +
        toInt amount * Arc.carriage (state.network.tracePath
          (fun node => (labels.get node).bind Label.parent) sink) index := funext pushed.flow_eq
    have soFar : 0 ≤ linkCost links state.network.flow := posed.link_cost_nonneg sound.flow_nonneg
    have farther := guided.nonneg sink
    have start := underway.prices_nonpos sink
    rw [routed.links_eq] at step
    rw [flows, link_cost_add_mul, step, spent, lowering, atSink]
    rw [atSink] at farther
    have product : toInt reached.distance - price state.potential sink ≤
        toInt amount * (toInt reached.distance - price state.potential sink) :=
      le_mul_of_one_le_left (by omega) positive
    omega

theorem Posed.underway_of_passes (posed : Posed links source sink total)
    (passes : Traced.Passes (MinCostFlow.augment source sink) (initialState links) state) :
    Underway links source sink state :=
  passes.keeps (Underway links source sink) (fun _ _ underway => underway.augment posed)
    (Underway.initial posed)

section Left

variable (posed : Posed links source sink total) (routed : Routed links source sink state)
include posed routed

theorem sum_left_eq : (∑ index with (links.get index).tail = source,
    (toInt ((links.get index).capacity.getD 0) - state.network.flow index)) =
      total - toInt state.routed := by
  have value := routed.value_eq
  simp only [net_outflow_of_none_enters posed.none_enters, mul_ite, mul_one, mul_zero,
    ← Finset.sum_filter] at value
  rw [Finset.sum_sub_distrib, posed.offered, value]

theorem left_nonneg {index : Fin m} (leaves : (links.get index).tail = source) :
    0 ≤ toInt ((links.get index).capacity.getD 0) - state.network.flow index := by
  obtain ⟨capacity, found⟩ := Option.ne_none_iff_exists'.mp (posed.limited index leaves)
  have within := routed.sound.limited index capacity (routed.links_eq ▸ found)
  rw [found, Option.getD_some]
  omega

theorem routed_le_total : toInt state.routed ≤ total := by
  rw [← sub_nonneg, ← sum_left_eq posed routed]
  apply Finset.sum_nonneg
  intro index member
  exact left_nonneg posed routed (Finset.mem_filter.mp member).2

theorem routed_add_left_le {index : Fin m} (leaves : (links.get index).tail = source) {limit : W}
    (limited : (links.get index).capacity = some limit) :
    toInt state.routed + (toInt limit - state.network.flow index) ≤ total := by
  have part : toInt ((links.get index).capacity.getD 0) - state.network.flow index ≤
      ∑ other with (links.get other).tail = source,
        (toInt ((links.get other).capacity.getD 0) - state.network.flow other) :=
    Finset.single_le_sum
      (fun other member => left_nonneg posed routed (Finset.mem_filter.mp member).2)
      (Finset.mem_filter.mpr ⟨Finset.mem_univ index, leaves⟩)
  rw [sum_left_eq posed routed, limited, Option.getD_some] at part
  omega

/-- A path from the source begins with a limited arc. -/
theorem exists_bottleneck {path : List (Arc m)} (leads : state.network.Leads path source sink) :
    ∃ amount, state.network.bottleneck path = some amount := by
  cases path with
  | nil => exact absurd leads posed.different
  | cons arc rest =>
      have leaves := (posed.forward_of_tail routed.links_eq leads.1).2
      have limited := posed.limited arc.link leaves
      apply Option.ne_none_iff_exists'.mp
      apply routed.sound.bottleneck_ne_none (List.mem_cons_self ..)
      intro _
      rwa [routed.links_eq]

/-- No more is sent along a path from the source than is still to be routed. -/
theorem routed_add_le {path : List (Arc m)} {amount : W}
    (leads : state.network.Leads path source sink)
    (least : state.network.bottleneck path = some amount) :
    toInt state.routed + toInt amount ≤ total := by
  cases path with
  | nil => exact absurd leads posed.different
  | cons arc rest =>
      obtain ⟨forward, leaves⟩ := posed.forward_of_tail routed.links_eq leads.1
      obtain ⟨limit, limited⟩ := Option.ne_none_iff_exists'.mp (posed.limited arc.link leaves)
      have left := routed_add_left_le posed routed leaves limited
      have admits := admits_bottleneck routed.sound least arc (List.mem_cons_self ..)
      rw [Admits, forward, if_neg (by decide), routed.links_eq] at admits
      have fits := admits limit limited
      omega

theorem closed_of_whole (whole : total ≤ toInt state.routed) {arc : Arc m}
    (leaves : state.network.tail arc = source) : state.network.hasCapacity arc = false := by
  obtain ⟨forward, atSource⟩ := posed.forward_of_tail routed.links_eq leaves
  obtain ⟨limit, limited⟩ := Option.ne_none_iff_exists'.mp (posed.limited arc.link atSource)
  have left := routed_add_left_le posed routed atSource limited
  rw [← Bool.not_eq_true, routed.sound.has_capacity_iff, Admits, forward, if_neg (by decide),
    routed.links_eq]
  intro admits
  have fits := admits limit limited
  omega

end Left

theorem Underway.exists_lower_potentials (underway : Underway links source sink state)
    (lowest : InRange W (price state.potential sink - toInt reached.distance))
    (nonneg : ∀ node, 0 ≤ capped labels reached.distance node) :
    ∃ lowered, lowerPotentials state.potential labels reached.distance = some lowered := by
  have total : ∀ node, (Weight.trySub (state.potential.get node)
      (cappedDistance labels reached.distance node)).isSome = true := by
    intro node
    have above := underway.sink_price_le node
    have nearer := capped_le labels reached.distance node
    have farther := nonneg node
    rw [try_sub_is_some_iff]
    unfold price at above lowest
    unfold capped at nearer farther
    exact lowest.of_between (in_range_to_int (state.potential.get node)) (by omega) (by omega)
  rw [lowerPotentials, gather, dif_pos total]
  exact ⟨_, rfl⟩

theorem Underway.exists_pushed (underway : Underway links source sink state)
    (posed : Posed links source sink total)
    (searched : shortestPaths state.network state.potential source sink = some labels)
    (found : labels.get sink = some reached) (settled : reached.settled = true) {amount : W}
    (least : state.network.bottleneck (state.network.tracePath
      (fun node => (labels.get node).bind Label.parent) sink) = some amount) :
    ∃ network counted, state.network.pushAll (state.network.tracePath
        (fun node => (labels.get node).bind Label.parent) sink) amount = some network ∧
      Weight.tryAdd state.routed amount = some counted := by
  have routed := underway.routed
  have guided := routed.guided searched found settled
  have positive := one_le_bottleneck guided.usable least
  have within := routed_add_le posed routed guided.leads least
  have whole := posed.in_range
  have started := routed.routed_nonneg posed.none_enters
  have fits : ∀ arc ∈ state.network.tracePath (fun node => (labels.get node).bind Label.parent) sink,
      arc.reversed = false → InRange W (state.network.flow arc.link + toInt amount) := by
    intro arc _ _
    have carried := underway.flow_le arc.link
    have nonneg := routed.sound.flow_nonneg arc.link
    exact whole.of_nonneg_of_le (by omega) (by omega)
  obtain ⟨network, pushed⟩ := routed.sound.exists_push_all (by omega)
    (links_nodup guided.leads guided.simple) (admits_bottleneck routed.sound least) fits
  obtain ⟨counted, added⟩ := Option.isSome_iff_exists.mp
    (try_add_is_some_iff.mpr (whole.of_nonneg_of_le (by omega) within))
  exact ⟨network, counted, pushed, added⟩

/-- An iteration answers when its search does and the potential of the sink stays in range. -/
theorem Underway.exists_augment (underway : Underway links source sink state)
    (posed : Posed links source sink total)
    (searched : shortestPaths state.network state.potential source sink = some labels)
    (lowest : ∀ reached, labels.get sink = some reached → reached.settled = true →
      InRange W (price state.potential sink - toInt reached.distance)) :
    ∃ found, (MinCostFlow.augment source sink state).outcome = .ok found := by
  cases arrived : isSettled labels sink with
  | false => exact ⟨none, augment_of_missed searched arrived⟩
  | true =>
      obtain ⟨_, reached, found, settled, -⟩ := is_settled_iff.mp arrived
      have guided := underway.routed.guided searched found settled
      obtain ⟨lowered, isLowered⟩ :=
        underway.exists_lower_potentials (lowest reached found settled) guided.nonneg
      obtain ⟨amount, least⟩ := exists_bottleneck posed underway.routed guided.leads
      obtain ⟨network, counted, pushed, added⟩ :=
        underway.exists_pushed posed searched found settled least
      exact ⟨_, augment_of_moved searched found settled isLowered least pushed added⟩

end Step

section Problem

variable {N : Type} [NodeKey N] {costs : Graph N W} {supply : KeyedWeights N W}
  {capacity : Option (Graph N W)} {total : W}

theorem terminal_cost_eq_zero (valid : Valid costs supply capacity total)
    {link : Link (costs.nodeCount + 2) W} (member : link ∈ terminalLinks costs supply) :
    toInt link.cost = 0 := by
  obtain ⟨index, amount, -, rfl | rfl⟩ := terminal_cases valid member
  · exact to_int_zero
  · exact to_int_zero

theorem sum_capacity_source (valid : Valid costs supply capacity total) :
    (∑ index with ((extendedLinks costs supply capacity).get index).tail = Vertex.place .source,
      toInt (((extendedLinks costs supply capacity).get index).capacity.getD 0)) = toInt total := by
  rw [← net_outflow_source valid (fun _ => 0), net_outflow_of_none_enters (head_ne_source valid),
    Finset.sum_filter]
  apply Finset.sum_congr rfl
  intro index _
  induction index using Fin.addCases with
  | left index => simp [place_injective.eq_iff]
  | right index =>
      rw [withFullTerminals, Fin.append_right, extended_links_terminal, mul_ite, mul_one, mul_zero]

theorem Valid.posed (valid : Valid costs supply capacity total) :
    Posed (extendedLinks costs supply capacity) (Vertex.place .source) (Vertex.place .sink)
      (toInt total) where
  in_range := in_range_to_int total
  different := terminals_differ costs
  cost_nonneg := MinCostFlow.cost_nonneg valid
  capacity_nonneg := MinCostFlow.capacity_nonneg valid
  none_enters := head_ne_source valid
  limited := limited_at_source valid
  free index leaves := by
    induction index using Fin.addCases with
    | left index => simp [place_injective.eq_iff] at leaves
    | right index =>
        rw [extended_links_terminal]
        exact terminal_cost_eq_zero valid (List.get_mem _ index)
  offered := sum_capacity_source valid

end Problem

end FlowTour.MinCostFlow
