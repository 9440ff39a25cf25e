import FlowTour.Proofs.Graph.Exact
import FlowTour.Proofs.MinCostFlow.Certificate
import FlowTour.Proofs.MinCostFlow.ExactRun
import FlowTour.Proofs.MinCostFlow.Verdict

/-!
A problem over a bounded weight type beside the same problem among all integers. The links of the two
differ only in how their weights are stored, so an exact solution is also found over the bounded type,
unless a number on the way is too large. No number on the way is, if the cost of the solution is in
range and on every edge the cost less the potential of the source. The second condition can fail
where all numbers of the solution are in range.
-/

namespace FlowTour.MinCostFlow

open IntegerWeight Residual Table

variable {N W : Type} [NodeKey N] [IntegerWeight W]

def exactSupply (supply : KeyedWeights N W) : KeyedWeights N Unbounded :=
  supply.map fun _ amount => exact amount

def exactLink {n : Nat} (link : Link n W) : Link n Unbounded :=
  ⟨link.tail, link.head, link.capacity.map exact, exact link.cost⟩

theorem link_eq {V : Type} {n : Nat} {first second : Link n V} (tail : first.tail = second.tail)
    (head : first.head = second.head) (capacity : first.capacity = second.capacity)
    (cost : first.cost = second.cost) : first = second := by
  cases first
  cases second
  cases tail
  cases head
  cases capacity
  cases cost
  rfl

section Stored

variable {n m : Nat} {links : Vector (Link n W) m} {exactLinks : Vector (Link n Unbounded) m}
  {source sink : Fin n} {total : Int}
  (same : ∀ index, exactLinks.get index = exactLink (links.get index))
include same

theorem loosened_of_exact : Loosened exactLinks links total where
  joins index := by
    rw [same]
    exact ⟨rfl, rfl, rfl⟩
  keeps index limit limited := by
    rw [same]
    exact ⟨exact limit, congrArg (Option.map exact) limited, rfl⟩
  covers index limit limited := by
    rw [same] at limited
    obtain ⟨weight, found, rfl⟩ := Option.map_eq_some_iff.mp limited
    exact .inl ⟨weight, found, rfl⟩

theorem loosened_by_exact : Loosened links exactLinks total where
  joins index := by
    rw [same]
    exact ⟨rfl, rfl, rfl⟩
  keeps index limit limited := by
    rw [same] at limited
    obtain ⟨weight, found, rfl⟩ := Option.map_eq_some_iff.mp limited
    exact ⟨weight, found, rfl⟩
  covers index limit limited := by
    rw [same]
    exact .inl ⟨exact limit, congrArg (Option.map exact) limited, rfl⟩

theorem Posed.exact (posed : Posed links source sink total) : Posed exactLinks source sink total :=
  (loosened_of_exact same).posed posed (in_range_unbounded total)

end Stored

section Links

variable {costs : Graph N W} {supply : KeyedWeights N W} {capacity : Option (Graph N W)} {total : W}

theorem to_list_exact_supply : (exactSupply supply).toList =
    supply.toList.map fun entry => (entry.1, exact entry.2) :=
  Std.TreeMap.toList_map

theorem edge_capacity_exact (source target : N) :
    edgeCapacity (capacity.map Graph.exact) source target =
      (edgeCapacity capacity source target).map exact := by
  cases capacity with
  | none => rfl
  | some graph =>
      simp only [edgeCapacity, Option.map_some, Graph.weight?_exact, Option.some.injEq]
      cases graph.weight? source target with
      | none => exact exact_zero.symm
      | some weight => rfl

theorem terminal_links_exact (valid : Valid costs supply capacity total) :
    terminalLinks costs.exact (exactSupply supply) =
      (terminalLinks costs supply).map exactLink := by
  rw [terminalLinks, to_list_exact_supply, List.filterMap_map, terminalLinks, List.map_filterMap]
  apply List.filterMap_congr
  intro entry member
  have opposite := valid.opposite entry member
  have sameIndex : costs.exact.index? entry.1 = costs.index? entry.1 := rfl
  simp only [Function.comp_apply, sameIndex, is_positive_exact, is_negative_exact]
  cases costs.index? entry.1 with
  | none => rfl
  | some index =>
      simp only [Option.bind_some]
      split
      · rw [Option.map_some, exactLink, exact_zero, Option.map_some]
        rfl
      · split
        · next negative =>
          rw [is_negative_iff] at negative
          have sameOpposite : -exact entry.2 = exact (-entry.2) := by
            apply to_int_injective
            rw [to_int_exact, opposite negative]
            rfl
          rw [sameOpposite, Option.map_some, exactLink, exact_zero, Option.map_some]
          rfl
        · rfl

theorem length_terminal_links_exact (valid : Valid costs supply capacity total) :
    (terminalLinks costs.exact (exactSupply supply)).length =
      (terminalLinks costs supply).length :=
  (congrArg List.length (terminal_links_exact valid)).trans (List.length_map exactLink)

theorem link_count_exact (valid : Valid costs supply capacity total) :
    costs.exact.edgeCount + (terminalLinks costs.exact (exactSupply supply)).length =
      costs.edgeCount + (terminalLinks costs supply).length :=
  congrArg₂ (· + ·) costs.edge_count_exact (length_terminal_links_exact valid)

/-- The links of the exact network, by the same indices. -/
def unboundedLinks (valid : Valid costs supply capacity total) :
    Vector (Link (costs.nodeCount + 2) Unbounded)
      (costs.edgeCount + (terminalLinks costs supply).length) :=
  (extendedLinks costs.exact (exactSupply supply) (capacity.map Graph.exact)).cast
    (link_count_exact valid)

theorem get_unbounded_links (valid : Valid costs supply capacity total) (index : Fin _) :
    (unboundedLinks valid).get index = exactLink ((extendedLinks costs supply capacity).get index) := by
  change (extendedLinks costs.exact (exactSupply supply) (capacity.map Graph.exact)).get
    (Fin.cast (link_count_exact valid).symm index) = _
  -- The vertices of the two networks are of one type only by the definition of the exact graph, so
  -- the links are compared part by part.
  induction index using Fin.addCases with
  | left index =>
      have place : Fin.cast (link_count_exact valid).symm (index.castAdd _) =
          (Fin.cast costs.edge_count_exact.symm index).castAdd _ := rfl
      have sameEdge := costs.edge_exact index
      rw [place]
      refine (extended_links_edge _).trans
        (Eq.trans ?_ (congrArg exactLink (extended_links_edge index)).symm)
      apply link_eq
      · exact congrArg (fun node => Vertex.place (.node node)) (costs.source_index_exact index)
      · exact congrArg (fun node => Vertex.place (.node node)) (costs.target_index_exact index)
      · dsimp only [exactLink]
        rw [sameEdge, edge_capacity_exact]
        rfl
      · exact congrArg Edge.weight sameEdge
  | right index =>
      have place : Fin.cast (link_count_exact valid).symm (index.natAdd _) =
          (Fin.cast (length_terminal_links_exact valid).symm index).natAdd _ := by
        apply Fin.ext
        simp [costs.edge_count_exact]
      rw [place]
      refine (extended_links_terminal _).trans
        (Eq.trans ?_ (congrArg exactLink (extended_links_terminal index)).symm)
      exact (List.get_of_eq (terminal_links_exact valid) _).trans (List.getElem_map exactLink)

theorem Valid.loosened_exact (valid : Valid costs supply capacity total) :
    Loosened (extendedLinks costs supply capacity) (unboundedLinks valid) (toInt total) :=
  loosened_by_exact (get_unbounded_links valid)

theorem Valid.posed_exact (valid : Valid costs supply capacity total) :
    Posed (unboundedLinks valid) (Vertex.place .source) (Vertex.place .sink) (toInt total) :=
  valid.posed.exact (get_unbounded_links valid)

end Links

theorem route_cast {n m count : Nat} (same : count = m) {links : Vector (Link n W) count}
    {source sink : Fin n} {last : State n count W}
    (ended : (route links source sink).outcome = .ok last) :
    ∃ other, (route (links.cast same) source sink).outcome = .ok other ∧
      other.potential = last.potential ∧ other.routed = last.routed ∧
      linkCost (links.cast same) other.network.flow = linkCost links last.network.flow ∧
      ∀ index, other.network.sent.get index = last.network.sent.get (Fin.cast same.symm index) := by
  subst same
  exact ⟨last, ended, rfl, rfl, rfl, fun _ => rfl⟩

section Ideal

variable {costs : Graph N W} {supply : KeyedWeights N W} {capacity : Option (Graph N W)} {total : W}
  {ideal : Solution N Unbounded}
  {final : State (costs.nodeCount + 2) (costs.edgeCount + (terminalLinks costs supply).length) W}
  {last : State (costs.nodeCount + 2) (costs.edgeCount + (terminalLinks costs supply).length) Unbounded}

/-- An exact solution and the end of the run behind it, over the links as the bounded problem counts
them. -/
structure Behind (valid : Valid costs supply capacity total) (ideal : Solution N Unbounded)
    (last : State (costs.nodeCount + 2) (costs.edgeCount + (terminalLinks costs supply).length)
      Unbounded) : Prop where
  ended : (route (unboundedLinks valid) (Vertex.place .source) (Vertex.place .sink)).outcome = .ok last
  whole : toInt total ≤ toInt last.routed
  cost_eq : linkCost (unboundedLinks valid) last.network.flow = toInt ideal.cost
  flow_eq : ideal.flow = costs.reweight (edgeFlow last.network)
  known : ∀ node, node ∈ ideal.potentials ↔ node ∈ costs.nodes
  listed : ∀ node, ideal.potentials[costs.key node]? =
    some (last.potential.get (Vertex.place (.node node)))

theorem Valid.exists_behind (valid : Valid costs supply capacity total)
    (found : (primalDual costs.exact (exactSupply supply) (capacity.map Graph.exact)).outcome =
      .ok ideal) : ∃ last, Behind valid ideal last := by
  obtain ⟨exactTotal, final, checked, ended, whole, flow, potentials, summed⟩ := primal_dual_run found
  have exactValid := validate_eq_ok checked
  have sameTotal : toInt exactTotal = toInt total := by
    rw [← exactValid.offered, ← valid.offered, to_list_exact_supply, List.map_map]
    rfl
  have routed := (route_extended_exhausted exactValid ended).routed
  obtain ⟨last, sameEnded, samePotential, sameRouted, sameCost, sameSent⟩ :=
    route_cast (link_count_exact valid) ended
  refine ⟨last, sameEnded, ?_, ?_, ?_, ?_, ?_⟩
  · rw [sameRouted]
    omega
  · refine sameCost.trans ?_
    rw [flow_eq_with_full_terminals exactValid routed whole, link_cost_with_full_terminals exactValid,
      to_int_total_cost? summed]
    rfl
  · rw [flow, Graph.reweight_exact]
    apply congrArg
    funext index
    exact (sameSent (index.castAdd _)).symm
  · intro node
    rw [potentials]
    exact mem_node_potentials
  · intro node
    have listed : ∀ node : Fin costs.exact.nodeCount, ideal.potentials[costs.exact.key node]? =
        some (final.potential.get (Vertex.place (.node node))) := by
      rw [potentials]
      exact get_elem?_node_potentials
    rw [samePotential]
    exact listed node

theorem Behind.price_at_eq {valid : Valid costs supply capacity total}
    (behind : Behind valid ideal last) (node : Fin costs.nodeCount) :
    priceAt ideal.potentials (costs.key node) =
      price last.potential (Vertex.place (.node node)) := by
  rw [priceAt, Std.TreeMap.getD_eq_getD_getElem?, behind.listed, Option.getD_some, price]

theorem Behind.affordable {valid : Valid costs supply capacity total}
    (behind : Behind valid ideal last) (cost : InRange W (toInt ideal.cost))
    (inRange : ∀ edge ∈ costs.edges,
      InRange W (toInt edge.weight - priceAt ideal.potentials edge.source)) :
    Affordable W (unboundedLinks valid) (Vertex.place .source) (Vertex.place .sink) (toInt total)
      last where
  underway := valid.posed_exact.underway_of_route behind.ended
  whole := behind.whole
  cost_in_range := behind.cost_eq ▸ cost
  link_in_range index := by
    rw [get_unbounded_links]
    induction index using Fin.addCases with
    | left index =>
        have fits := inRange _ (costs.edge_mem index)
        rw [← costs.key_source_index, behind.price_at_eq] at fits
        rw [extended_links_edge]
        exact fits
    | right index =>
        have underway := valid.posed_exact.underway_of_route behind.ended
        have free := terminal_cost_eq_zero valid (List.get_mem _ index)
        have nonpos := underway.prices_nonpos ((terminalLinks costs supply).get index).tail
        have atLeast := underway.sink_price_le ((terminalLinks costs supply).get index).tail
        have paid := underway.paid
        rw [extended_links_terminal]
        change InRange W (toInt ((terminalLinks costs supply).get index).cost -
          price last.potential ((terminalLinks costs supply).get index).tail)
        rw [free, zero_sub]
        exact cost.of_nonneg_of_le (by omega) (by rw [← behind.cost_eq]; omega)

/-- A solution with the numbers of an exact one. -/
structure Matches (answer : Solution N W) (ideal : Solution N Unbounded) : Prop where
  cost_eq : exact answer.cost = ideal.cost
  flow_eq : answer.flow.exact = ideal.flow
  potentials_eq : ∀ node : N,
    (answer.potentials[node]? : Option W).map exact = ideal.potentials[node]?

section InStep

variable {valid : Valid costs supply capacity total} (behind : Behind valid ideal last)
  (inStep : InStep (extendedLinks costs supply capacity) (unboundedLinks valid)
    (Vertex.place .source) (Vertex.place .sink) final last)
include behind inStep

theorem Behind.cost_of_in_step (whole : toInt total ≤ toInt final.routed) :
    exactCost costs (edgeAmounts final.network) = toInt ideal.cost := by
  rw [← link_cost_with_full_terminals valid,
    ← flow_eq_with_full_terminals valid inStep.tight.routed whole, ← behind.cost_eq]
  apply Finset.sum_congr rfl
  intro index _
  rw [inStep.flow_eq, valid.loosened_exact.cost_eq]

theorem Behind.potentials_of_in_step (node : N) :
    (nodePotentials costs final.potential)[node]?.map exact = ideal.potentials[node]? := by
  by_cases member : node ∈ costs.nodes
  · rw [← costs.key_index member, get_elem?_node_potentials, behind.listed, Option.map_some]
    exact congrArg some (to_int_injective (inStep.price_eq _))
  · have absent : node ∉ nodePotentials costs final.potential := by
      rwa [mem_node_potentials]
    have exactAbsent : node ∉ ideal.potentials := by
      rwa [behind.known]
    rw [Std.TreeMap.getElem?_eq_none absent, Std.TreeMap.getElem?_eq_none exactAbsent,
      Option.map_none]

end InStep

theorem Behind.primal_dual_of_route (checked : validate costs supply capacity = .ok total)
    (behind : Behind (validate_eq_ok checked) ideal last)
    (ended : (route (extendedLinks costs supply capacity) (Vertex.place .source)
      (Vertex.place .sink)).outcome = .ok final) :
    ((primalDual costs supply capacity).outcome = .error .arithmeticOverflow ∧
        ¬InRange W (toInt ideal.cost)) ∨
      ∃ answer, (primalDual costs supply capacity).outcome = .ok answer ∧ Matches answer ideal := by
  have valid := validate_eq_ok checked
  obtain ⟨same, alsoEnded, inStep⟩ := route_exact valid.loosened_exact valid.posed valid.posed_exact
    ended
  obtain rfl := Except.ok.inj (alsoEnded.symm.trans behind.ended)
  have atMost := routed_le_total valid.posed inStep.tight.routed
  have whole : toInt total ≤ toInt final.routed := by
    rw [inStep.routed_eq]
    exact behind.whole
  have sameCost := behind.cost_of_in_step inStep whole
  have outcome := primal_dual_of_whole checked ended (le_antisymm atMost whole)
  cases summed : totalCost? costs (edgeFlow final.network) with
  | none =>
      rw [summed, Option.elim_none] at outcome
      refine .inl ⟨outcome, fun inRange => ?_⟩
      have computed : (totalCost? costs (edgeFlow final.network)).isSome = true :=
        (total_cost?_is_some_iff fun index =>
          mul_nonneg (valid.cost_nonneg _ (costs.edge_mem index))
            (inStep.tight.routed.sound.flow_nonneg (index.castAdd _))).mpr (sameCost ▸ inRange)
      rw [summed] at computed
      cases computed
  | some cost =>
      rw [summed, Option.elim_some] at outcome
      refine .inr ⟨_, outcome, ?_, ?_, behind.potentials_of_in_step inStep⟩
      · apply to_int_injective
        rw [to_int_exact, to_int_total_cost? summed]
        exact sameCost
      · rw [Graph.exact_reweight, behind.flow_eq]
        apply congrArg
        funext index
        exact to_int_injective (inStep.flow_eq _)

end Ideal

/-- Where the exact problem has a solution, the bounded one has the same solution or overflows, and it
overflows only if the cost of the solution is out of range, or the cost of an edge less the potential of
its source. -/
theorem primal_dual_exact (costs : Graph N W) (supply : KeyedWeights N W)
    (capacity : Option (Graph N W)) (total : W) (ideal : Solution N Unbounded)
    (checked : validate costs supply capacity = .ok total)
    (found : (primalDual costs.exact (exactSupply supply) (capacity.map Graph.exact)).outcome =
      .ok ideal) :
    ((primalDual costs supply capacity).outcome = .error .arithmeticOverflow ∧
        (¬InRange W (toInt ideal.cost) ∨ ∃ edge ∈ costs.edges,
          ¬InRange W (toInt edge.weight - priceAt ideal.potentials edge.source))) ∨
      ∃ answer, (primalDual costs supply capacity).outcome = .ok answer ∧ Matches answer ideal := by
  have valid := validate_eq_ok checked
  obtain ⟨last, behind⟩ := valid.exists_behind found
  cases ended : (route (extendedLinks costs supply capacity) (Vertex.place .source)
      (Vertex.place .sink)).outcome with
  | ok final =>
      rcases behind.primal_dual_of_route checked ended with ⟨outcome, large⟩ | answered
      · exact .inl ⟨outcome, .inl large⟩
      · exact .inr answered
  | error failure =>
      refine .inl ⟨by simp [primalDual, checked, ended, Except.bind, Except.mapError,
        Failure.ofOverflow], ?_⟩
      by_contra! ⟨cost, inRange⟩
      obtain ⟨final, answered⟩ := (behind.affordable cost inRange).exists_route valid.loosened_exact
        valid.posed valid.posed_exact behind.ended
      rw [ended] at answered
      cases answered

theorem primal_dual_exact_tolls : validate tolls twoUnits (some singleLanes) = .ok 2 ∧
    ∃ (ideal : Solution Int Unbounded) (answer : Solution Int Int32),
      (primalDual tolls.exact (exactSupply twoUnits) (some singleLanes.exact)).outcome = .ok ideal ∧
        (primalDual tolls twoUnits (some singleLanes)).outcome = .ok answer ∧
          Matches answer ideal ∧ toInt ideal.cost = 13 := by
  have checked : validate tolls twoUnits (some singleLanes) = .ok 2 := by
    rfl
  have passed : (primalDual tolls.exact (exactSupply twoUnits)
      (some singleLanes.exact)).outcome.toOption.any (fun ideal =>
        toInt ideal.cost = 13 ∧ ∀ edge ∈ tolls.edges,
          InRange Int32 (toInt edge.weight - priceAt ideal.potentials edge.source)) = true := by
    decide +kernel
  obtain ⟨ideal, found, tested⟩ := Traced.exists_ok_of_any passed
  obtain ⟨cost, inRange⟩ := of_decide_eq_true tested
  refine ⟨checked, ideal, ?_⟩
  rcases primal_dual_exact tolls twoUnits (some singleLanes) 2 ideal checked found with
    ⟨-, large | ⟨edge, member, large⟩⟩ | ⟨answer, answered, matching⟩
  · rw [cost] at large
    exact absurd (by decide +kernel) large
  · exact absurd (inRange edge member) large
  · exact ⟨answer, found, answered, matching, cost⟩

/-- On the way from 1 to 4 a turn leads from 2 to 3 at the largest cost. -/
def dearTurn : Graph Int Int32 := Graph.ofEdges [⟨1, 2, 1⟩, ⟨2, 3, 2147483647⟩, ⟨2, 4, 1⟩]

def oneUnitOut : KeyedWeights Int Int32 := Std.TreeMap.ofList [((1 : Int), (1 : Int32)), (4, -1)]

theorem primal_dual_dear_turn : validate dearTurn oneUnitOut none = .ok 1 ∧
    (∃ ideal : Solution Int Unbounded,
      (primalDual dearTurn.exact (exactSupply oneUnitOut) none).outcome = .ok ideal ∧
        InRange Int32 (toInt ideal.cost) ∧
        (∀ edge ∈ ideal.flow.edges, InRange Int32 (toInt edge.weight)) ∧
        ∀ entry ∈ ideal.potentials.toList, InRange Int32 (toInt entry.2)) ∧
    (primalDual dearTurn oneUnitOut none).outcome = .error .arithmeticOverflow := by
  have passed : (primalDual dearTurn.exact (exactSupply oneUnitOut) none).outcome.toOption.any
      (fun ideal => InRange Int32 (toInt ideal.cost) ∧
        (∀ edge ∈ ideal.flow.edges, InRange Int32 (toInt edge.weight)) ∧
        ∀ entry ∈ ideal.potentials.toList, InRange Int32 (toInt entry.2)) = true := by
    decide +kernel
  obtain ⟨ideal, found, tested⟩ := Traced.exists_ok_of_any passed
  exact ⟨by rfl, ⟨ideal, found, of_decide_eq_true tested⟩, by decide +kernel⟩

end FlowTour.MinCostFlow
