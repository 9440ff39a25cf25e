import FlowTour.Graph.Building
import FlowTour.Proofs.MinCostFlow.Exhaustion
import FlowTour.Proofs.MinCostFlow.Supply

/-!
Cheapest routes of a supply. Once the whole supply is routed, all terminal links are full, so the
amounts on the edges send out at every node what it supplies. Amounts on the edges that do so make,
with full terminal links, a flow of the same value, and so cost no less.
-/

namespace FlowTour.MinCostFlow

open IntegerWeight Table Residual

variable {N W : Type} [NodeKey N] [IntegerWeight W]

/-- Amounts within the capacities that send out at every node what it supplies. -/
structure Routes (costs : Graph N W) (supply : KeyedWeights N W) (capacity : Option (Graph N W))
    (amount : Fin costs.edgeCount → Int) : Prop where
  nonneg : ∀ index, 0 ≤ amount index
  le_capacity : ∀ graph, capacity = some graph → ∀ index, amount index ≤
    toInt ((graph.weight? (costs.edge index).source (costs.edge index).target).getD 0)
  balanced : ∀ node ∈ costs.nodes,
    costs.outflow amount node - costs.inflow amount node = toInt (supply.getD node 0)

def exactCost (costs : Graph N W) (amount : Fin costs.edgeCount → Int) : Int :=
  ∑ index, toInt (costs.edge index).weight * amount index

section Links

variable {costs : Graph N W} {supply : KeyedWeights N W} {capacity : Option (Graph N W)} {total : W}

theorem terminal_cases (valid : Valid costs supply capacity total)
    {link : Link (costs.nodeCount + 2) W} (member : link ∈ terminalLinks costs supply) :
    ∃ index amount, 0 ≤ toInt amount ∧
      (link = ⟨Vertex.place .source, Vertex.place (.node index), some amount, 0⟩ ∨
        link = ⟨Vertex.place (.node index), Vertex.place .sink, some amount, 0⟩) := by
  obtain ⟨⟨key, amount⟩, listed, attached⟩ := List.mem_filterMap.mp member
  obtain ⟨index, -, chosen⟩ := Option.bind_eq_some_iff.mp attached
  split at chosen
  · next positive =>
    rw [is_positive_iff] at positive
    exact ⟨index, amount, positive.le, .inl (Option.some.inj chosen).symm⟩
  · split at chosen
    · next negative =>
      rw [is_negative_iff] at negative
      have opposite := valid.opposite (key, amount) listed negative
      refine ⟨index, -amount, ?_, .inr (Option.some.inj chosen).symm⟩
      dsimp only at opposite
      omega
    · cases chosen

theorem terminal_get (valid : Valid costs supply capacity total)
    (index : Fin (terminalLinks costs supply).length) :
    ∃ node amount, 0 ≤ toInt amount ∧
      ((terminalLinks costs supply).get index =
          ⟨Vertex.place .source, Vertex.place (.node node), some amount, 0⟩ ∨
        (terminalLinks costs supply).get index =
          ⟨Vertex.place (.node node), Vertex.place .sink, some amount, 0⟩) :=
  terminal_cases valid (List.get_mem _ index)

theorem cost_nonneg (valid : Valid costs supply capacity total) (index : Fin _) :
    0 ≤ toInt ((extendedLinks costs supply capacity).get index).cost := by
  induction index using Fin.addCases with
  | left index =>
      rw [extended_links_edge]
      exact valid.cost_nonneg _ (costs.edge_mem index)
  | right index =>
      rw [extended_links_terminal]
      obtain ⟨node, amount, -, link | link⟩ := terminal_get valid index
      · rw [link, to_int_zero]
      · rw [link, to_int_zero]

theorem edge_capacity_nonneg (valid : Valid costs supply capacity total) {source target : N}
    {limit : W} (found : edgeCapacity capacity source target = some limit) : 0 ≤ toInt limit := by
  obtain ⟨graph, isGraph, rfl⟩ := Option.map_eq_some_iff.mp found
  cases weight : graph.weight? source target with
  | none => rw [Option.getD_none, to_int_zero]
  | some amount =>
      obtain ⟨index, edge⟩ := graph.weight?_eq_some_iff.mp weight
      have nonneg := valid.capacity_nonneg graph isGraph _ (graph.edge_mem index)
      rwa [edge] at nonneg

theorem capacity_nonneg (valid : Valid costs supply capacity total) (index : Fin _) (limit : W)
    (found : ((extendedLinks costs supply capacity).get index).capacity = some limit) :
    0 ≤ toInt limit := by
  induction index using Fin.addCases with
  | left index =>
      rw [extended_links_edge] at found
      exact edge_capacity_nonneg valid found
  | right index =>
      rw [extended_links_terminal] at found
      obtain ⟨node, amount, nonneg, link | link⟩ := terminal_get valid index
      · rw [link] at found
        exact Option.some.inj found ▸ nonneg
      · rw [link] at found
        exact Option.some.inj found ▸ nonneg

theorem tail_ne_sink (valid : Valid costs supply capacity total) (index : Fin _) :
    ((extendedLinks costs supply capacity).get index).tail ≠ Vertex.place .sink := by
  induction index using Fin.addCases with
  | left index => simp [place_injective.eq_iff]
  | right index =>
      rw [extended_links_terminal]
      obtain ⟨node, amount, -, link | link⟩ := terminal_get valid index
      · rw [link]
        simp [place_injective.eq_iff]
      · rw [link]
        simp [place_injective.eq_iff]

theorem head_ne_source (valid : Valid costs supply capacity total) (index : Fin _) :
    ((extendedLinks costs supply capacity).get index).head ≠ Vertex.place .source := by
  induction index using Fin.addCases with
  | left index => simp [place_injective.eq_iff]
  | right index =>
      rw [extended_links_terminal]
      obtain ⟨node, amount, -, link | link⟩ := terminal_get valid index
      · rw [link]
        simp [place_injective.eq_iff]
      · rw [link]
        simp [place_injective.eq_iff]

theorem limited_at_source (valid : Valid costs supply capacity total) (index : Fin _)
    (leaves : ((extendedLinks costs supply capacity).get index).tail = Vertex.place .source) :
    ((extendedLinks costs supply capacity).get index).capacity ≠ none := by
  induction index using Fin.addCases with
  | left index => simp [place_injective.eq_iff] at leaves
  | right index =>
      rw [extended_links_terminal]
      obtain ⟨node, amount, -, link | link⟩ := terminal_get valid index
      · rw [link]
        exact Option.some_ne_none amount
      · rw [link]
        exact Option.some_ne_none amount

theorem link_cost_with_full_terminals (valid : Valid costs supply capacity total)
    (onEdges : Fin costs.edgeCount → Int) :
    linkCost (extendedLinks costs supply capacity) (withFullTerminals costs supply onEdges) =
      exactCost costs onEdges := by
  have free : ∀ index : Fin (terminalLinks costs supply).length,
      toInt ((terminalLinks costs supply).get index).cost = 0 := by
    intro index
    obtain ⟨node, amount, -, link | link⟩ := terminal_get valid index
    · rw [link, to_int_zero]
    · rw [link, to_int_zero]
  rw [linkCost, Fin.sum_univ_add]
  simp only [extended_links_edge, extended_links_terminal, withFullTerminals, Fin.append_left, free,
    zero_mul, Finset.sum_const_zero, add_zero]
  rfl

theorem with_full_terminals_nonneg (valid : Valid costs supply capacity total)
    {onEdges : Fin costs.edgeCount → Int} (nonneg : ∀ index, 0 ≤ onEdges index) (index : Fin _) :
    0 ≤ withFullTerminals costs supply onEdges index := by
  induction index using Fin.addCases with
  | left index =>
      rw [withFullTerminals, Fin.append_left]
      exact nonneg index
  | right index =>
      rw [withFullTerminals, Fin.append_right]
      obtain ⟨node, amount, amountNonneg, link | link⟩ := terminal_get valid index
      · rwa [link, Option.getD_some]
      · rwa [link, Option.getD_some]

end Links

section Full

variable {costs : Graph N W} {supply : KeyedWeights N W} {capacity : Option (Graph N W)} {total : W}
  {final : State (costs.nodeCount + 2) (costs.edgeCount + (terminalLinks costs supply).length) W}

omit [NodeKey N] [IntegerWeight W] in
theorem terminals_differ (costs : Graph N W) :
    (Vertex.place (.source : Vertex (Fin costs.nodeCount))) ≠ Vertex.place .sink := by
  rw [Ne, place_injective.eq_iff]
  simp

theorem route_extended_exhausted (valid : Valid costs supply capacity total)
    (ended : (route (extendedLinks costs supply capacity) (Vertex.place .source)
      (Vertex.place .sink)).outcome = .ok final) :
    Exhausted (extendedLinks costs supply capacity) (Vertex.place .source) (Vertex.place .sink)
      final :=
  route_exhausted (terminals_differ costs) (cost_nonneg valid) (capacity_nonneg valid)
    (head_ne_source valid) (limited_at_source valid) ended

/-- What the edges carry at the end of a run. -/
def edgeAmounts {n edges others : Nat} (network : Residual n (edges + others) W)
    (index : Fin edges) : Int :=
  network.flow (index.castAdd others)

section Carried

variable {amount : Fin (costs.edgeCount + (terminalLinks costs supply).length) → Int}
  (valid : Valid costs supply capacity total)
  (carries : Carries (extendedLinks costs supply capacity) (Vertex.place .source)
    (Vertex.place .sink) amount)
include valid carries

theorem le_with_full_terminals (index : Fin _) :
    amount index ≤ withFullTerminals costs supply (fun edge => amount (edge.castAdd _)) index := by
  induction index using Fin.addCases with
  | left index =>
      rw [withFullTerminals, Fin.append_left]
  | right index =>
      rw [withFullTerminals, Fin.append_right]
      have within := carries.within (index.natAdd _)
      rw [extended_links_terminal] at within
      obtain ⟨node, limit, -, link | link⟩ := terminal_get valid index
      · rw [link] at within ⊢
        exact within limit rfl
      · rw [link] at within ⊢
        exact within limit rfl

variable (whole : toInt total ≤ netOutflow (extendedLinks costs supply capacity) amount
  (Vertex.place .source))
include whole

/-- When the whole supply is carried, every terminal link is full. -/
theorem eq_with_full_terminals :
    amount = withFullTerminals costs supply fun edge => amount (edge.castAdd _) := by
  have below := le_with_full_terminals valid carries
  have differ := terminals_differ costs
  have sent := net_outflow_target_eq carries.conserved differ
  funext index
  induction index using Fin.addCases with
  | left index => rw [withFullTerminals, Fin.append_left]
  | right index =>
      obtain ⟨node, limit, -, link | link⟩ := terminal_get valid index
      · apply eq_of_none_enters below (head_ne_source valid)
        · exact (net_outflow_source valid _).trans_le whole
        · rw [extended_links_terminal, link]
      · apply eq_of_none_leaves below (tail_ne_sink valid)
        · rw [net_outflow_sink valid, sent]
          exact neg_le_neg whole
        · rw [extended_links_terminal, link]

theorem routes_of_carries :
    Routes costs supply capacity fun edge => amount (edge.castAdd _) where
  nonneg index := carries.nonneg _
  le_capacity graph isGraph index := by
    apply carries.within (index.castAdd _)
    rw [extended_links_edge, edgeCapacity, isGraph, Option.map_some]
  balanced node member := by
    have notSource : Vertex.place (.node (costs.index node member)) ≠ Vertex.place .source := by
      simp [place_injective.eq_iff]
    have notSink : Vertex.place (.node (costs.index node member)) ≠ Vertex.place .sink := by
      simp [place_injective.eq_iff]
    have passed := carries.conserved _ notSource notSink
    rw [eq_with_full_terminals valid carries whole, net_outflow_node valid, Graph.key_index] at passed
    omega

theorem link_cost_of_carries : linkCost (extendedLinks costs supply capacity) amount =
    exactCost costs fun edge => amount (edge.castAdd _) := by
  rw [← link_cost_with_full_terminals valid, ← eq_with_full_terminals valid carries whole]

end Carried

theorem flow_eq_with_full_terminals (valid : Valid costs supply capacity total)
    (routed : Routed (extendedLinks costs supply capacity) (Vertex.place .source)
      (Vertex.place .sink) final) (whole : toInt total ≤ toInt final.routed) :
    final.network.flow = withFullTerminals costs supply (edgeAmounts final.network) :=
  eq_with_full_terminals valid routed.carries (whole.trans_eq routed.value_eq.symm)

theorem edge_amounts_routes (valid : Valid costs supply capacity total)
    (routed : Routed (extendedLinks costs supply capacity) (Vertex.place .source)
      (Vertex.place .sink) final) (whole : toInt total ≤ toInt final.routed) :
    Routes costs supply capacity (edgeAmounts final.network) :=
  routes_of_carries valid routed.carries (whole.trans_eq routed.value_eq.symm)

omit [NodeKey N] [IntegerWeight W] in
theorem exists_place_eq (slot : Fin (costs.nodeCount + 2)) :
    ∃ vertex : Vertex (Fin costs.nodeCount), Vertex.place vertex = slot := by
  rcases Nat.lt_trichotomy slot.val costs.nodeCount with inside | atSource | beyond
  · exact ⟨.node ⟨slot.val, inside⟩, rfl⟩
  · exact ⟨.source, Fin.ext atSource.symm⟩
  · refine ⟨.sink, Fin.ext ?_⟩
    have bound := slot.isLt
    simp only [Vertex.place]
    omega

theorem Routes.net_outflow_eq (valid : Valid costs supply capacity total)
    {first second : Fin costs.edgeCount → Int} (here : Routes costs supply capacity first)
    (there : Routes costs supply capacity second) (slot : Fin (costs.nodeCount + 2)) :
    netOutflow (extendedLinks costs supply capacity) (withFullTerminals costs supply first) slot =
      netOutflow (extendedLinks costs supply capacity) (withFullTerminals costs supply second)
        slot := by
  obtain ⟨vertex, rfl⟩ := exists_place_eq slot
  cases vertex with
  | source => rw [net_outflow_source valid, net_outflow_source valid]
  | sink => rw [net_outflow_sink valid, net_outflow_sink valid]
  | node index =>
      rw [net_outflow_node valid, net_outflow_node valid, here.balanced _ (costs.key_mem index),
        there.balanced _ (costs.key_mem index)]

theorem Routes.with_full_terminals_le {amount : Fin costs.edgeCount → Int}
    (routes : Routes costs supply capacity amount) (index : Fin _) (limit : W)
    (found : ((extendedLinks costs supply capacity).get index).capacity = some limit) :
    withFullTerminals costs supply amount index ≤ toInt limit := by
  induction index using Fin.addCases with
  | left index =>
      rw [extended_links_edge] at found
      obtain ⟨graph, isGraph, rfl⟩ := Option.map_eq_some_iff.mp found
      rw [withFullTerminals, Fin.append_left]
      exact routes.le_capacity graph isGraph index
  | right index =>
      rw [extended_links_terminal] at found
      rw [withFullTerminals, Fin.append_right, found, Option.getD_some]

theorem exact_cost_le (valid : Valid costs supply capacity total)
    (routed : Routed (extendedLinks costs supply capacity) (Vertex.place .source)
      (Vertex.place .sink) final) (whole : toInt total ≤ toInt final.routed)
    {other : Fin costs.edgeCount → Int} (routes : Routes costs supply capacity other) :
    exactCost costs (edgeAmounts final.network) ≤ exactCost costs other := by
  have full := flow_eq_with_full_terminals valid routed whole
  have least : linkCost final.network.links final.network.flow ≤
      linkCost final.network.links (withFullTerminals costs supply other) := by
    apply link_cost_le routed.sound _ routed.reduced_nonneg
    · exact with_full_terminals_nonneg valid routes.nonneg
    · rw [routed.links_eq]
      exact routes.with_full_terminals_le
    · rw [routed.links_eq, full]
      exact routes.net_outflow_eq valid (edge_amounts_routes valid routed whole)
    · rw [routed.links_eq]
      exact cost_nonneg valid
  rwa [routed.links_eq, full, link_cost_with_full_terminals valid,
    link_cost_with_full_terminals valid] at least

end Full

omit [NodeKey N] in
theorem to_int_total_cost? {costs : Graph N W} {flow : Fin costs.edgeCount → W} {cost : W}
    (found : totalCost? costs flow = some cost) :
    toInt cost = exactCost costs fun index => toInt (flow index) := by
  have summed : ∀ (indices : List (Fin costs.edgeCount)) (start sum : W),
      indices.foldlM (fun sum index => do
        let share ← Weight.tryMul (costs.edge index).weight (flow index)
        Weight.tryAdd sum share) start = some sum →
      toInt sum = toInt start +
        (indices.map fun index => toInt (costs.edge index).weight * toInt (flow index)).sum := by
    intro indices
    induction indices with
    | nil =>
        intro start sum done
        obtain rfl := Option.some.inj done
        simp
    | cons index rest induction =>
        intro start sum done
        rw [List.foldlM_cons] at done
        obtain ⟨next, step, others⟩ := Option.bind_eq_some_iff.mp done
        obtain ⟨share, product, added⟩ := Option.bind_eq_some_iff.mp step
        rw [induction next sum others, try_add_eq_some_iff.mp added, try_mul_eq_some_iff.mp product,
          List.map_cons, List.sum_cons, add_assoc]
  rw [summed _ _ _ found, to_int_zero, zero_add, exactCost, Fin.sum_univ_def]

theorem amounts_on_edge_flow {costs : Graph N W} {others : Nat} {n : Nat}
    (network : Residual n (costs.edgeCount + others) W) :
    costs.amountsOn (costs.reweight (edgeFlow network)) = edgeAmounts network := by
  funext index
  exact Graph.amounts_on_reweight _ index

theorem primal_dual_run {costs : Graph N W} {supply : KeyedWeights N W}
    {capacity : Option (Graph N W)} {solution : Solution N W}
    (found : (primalDual costs supply capacity).outcome = .ok solution) :
    ∃ total final, validate costs supply capacity = .ok total ∧
      (route (extendedLinks costs supply capacity) (Vertex.place .source)
        (Vertex.place .sink)).outcome = .ok final ∧
      toInt total ≤ toInt final.routed ∧
      solution.flow = costs.reweight (edgeFlow final.network) ∧
      solution.potentials = nodePotentials costs final.potential ∧
      totalCost? costs (edgeFlow final.network) = some solution.cost := by
  obtain ⟨total, checked, routing⟩ := Traced.bind_eq_ok_iff.mp found
  obtain ⟨final, ended, comparing⟩ := Traced.bind_eq_ok_iff.mp routing
  obtain ⟨shortfall, difference, deciding⟩ := Traced.bind_eq_ok_iff.mp comparing
  have missing := try_sub_eq_some_iff.mp (Traced.of_option_eq_ok_iff.mp difference)
  split at deciding
  · obtain ⟨_, -, failed⟩ := Traced.bind_eq_ok_iff.mp deciding
    cases failed
  · next enough =>
    obtain ⟨cost, summed, last⟩ := Traced.bind_eq_ok_iff.mp deciding
    obtain rfl := Except.ok.inj last
    refine ⟨total, final, checked, Traced.map_failure_eq_ok_iff.mp ended, ?_, rfl, rfl,
      Traced.of_option_eq_ok_iff.mp summed⟩
    by_contra short
    apply enough
    rw [lt_iff_to_int_lt, is_negligible_iff]
    omega

theorem primal_dual_eq_ok {costs : Graph N W} {supply : KeyedWeights N W}
    {capacity : Option (Graph N W)} {solution : Solution N W}
    (found : (primalDual costs supply capacity).outcome = .ok solution) :
    ∃ total final, Valid costs supply capacity total ∧
      Routed (extendedLinks costs supply capacity) (Vertex.place .source) (Vertex.place .sink)
        final ∧
      toInt total ≤ toInt final.routed ∧
      solution.flow = costs.reweight (edgeFlow final.network) ∧
      totalCost? costs (edgeFlow final.network) = some solution.cost := by
  obtain ⟨total, final, checked, ended, whole, flow, -, cost⟩ := primal_dual_run found
  have valid := validate_eq_ok checked
  exact ⟨total, final, valid, (route_extended_exhausted valid ended).routed, whole, flow, cost⟩

theorem primal_dual_is_optimal (costs : Graph N W) (supply : KeyedWeights N W)
    (capacity : Option (Graph N W)) (solution : Solution N W)
    (found : (primalDual costs supply capacity).outcome = .ok solution) :
    solution.flow.nodes = costs.nodes ∧
      solution.flow.edges.map Edge.ends = costs.edges.map Edge.ends ∧
      Routes costs supply capacity (costs.amountsOn solution.flow) ∧
      toInt solution.cost = exactCost costs (costs.amountsOn solution.flow) ∧
      ∀ other, Routes costs supply capacity other → toInt solution.cost ≤ exactCost costs other := by
  obtain ⟨total, final, valid, routed, whole, flow, cost⟩ := primal_dual_eq_ok found
  have amounts : costs.amountsOn solution.flow = edgeAmounts final.network := by
    rw [flow, amounts_on_edge_flow]
  have exact : toInt solution.cost = exactCost costs (edgeAmounts final.network) :=
    to_int_total_cost? cost
  rw [amounts, exact, flow]
  refine ⟨rfl, costs.map_ends_reweight _, edge_amounts_routes valid routed whole, rfl, ?_⟩
  intro other routes
  exact exact_cost_le valid routed whole routes

/-- Four nodes between which the cheapest unit goes over 2 and 3 and the second one turns it back from
there. -/
def tolls : Graph Int Int32 :=
  Graph.ofEdges [⟨1, 2, 1⟩, ⟨1, 3, 5⟩, ⟨2, 3, 1⟩, ⟨2, 4, 6⟩, ⟨3, 4, 1⟩, ⟨4, 1, 0⟩]

def singleLanes : Graph Int Int32 :=
  Graph.ofEdges [⟨1, 2, 1⟩, ⟨1, 3, 1⟩, ⟨2, 3, 1⟩, ⟨2, 4, 1⟩, ⟨3, 4, 1⟩]

def twoUnits : KeyedWeights Int Int32 := Std.TreeMap.ofList [((1 : Int), (2 : Int32)), (4, -2)]

theorem primal_dual_tolls : ∃ solution : Solution Int Int32,
    (primalDual tolls twoUnits (some singleLanes)).outcome = .ok solution ∧ solution.cost = 13 ∧
      Routes tolls twoUnits (some singleLanes) (tolls.amountsOn solution.flow) ∧
      ∀ other, Routes tolls twoUnits (some singleLanes) other → 13 ≤ exactCost tolls other := by
  have cost : (primalDual tolls twoUnits (some singleLanes)).outcome.toOption.map Solution.cost =
      some 13 := by
    decide +kernel
  cases outcome : (primalDual tolls twoUnits (some singleLanes)).outcome with
  | error failure => simp [outcome, Except.toOption] at cost
  | ok solution =>
      have value : solution.cost = 13 := by simpa [outcome, Except.toOption] using cost
      obtain ⟨-, -, routes, -, least⟩ :=
        primal_dual_is_optimal tolls twoUnits (some singleLanes) solution outcome
      rw [value] at least
      exact ⟨solution, rfl, value, routes, least⟩

end FlowTour.MinCostFlow
