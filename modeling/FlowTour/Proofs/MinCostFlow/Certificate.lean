import FlowTour.Proofs.MinCostFlow.Slackness

/-!
What the potentials of a solution certify. The run ends with no negative reduced cost on an arc with
capacity, and on the edges this is complementary slackness, so the cost of the flow is the value of the
potentials as prices. The check agrees, unless the cost of an edge less the potential of its source is
too large a number for it.
-/

namespace FlowTour.MinCostFlow

open IntegerWeight Residual

variable {N W : Type} [NodeKey N] [IntegerWeight W]

section NodePotentials

variable {costs : Graph N W} {potential : Vector W (costs.nodeCount + 2)}

omit [IntegerWeight W] in
theorem mem_node_potentials {node : N} :
    node ∈ nodePotentials costs potential ↔ node ∈ costs.nodes := by
  have keys : ((List.finRange costs.nodeCount).map fun node =>
      (costs.key node, potential.get (Vertex.place (.node node)))).map Prod.fst = costs.nodes := by
    rw [List.map_map]
    exact costs.map_key_fin_range
  rw [nodePotentials, Std.TreeMap.mem_ofList, keys, List.contains_iff_mem]

omit [IntegerWeight W] in
theorem get_elem?_node_potentials (node : Fin costs.nodeCount) :
    (nodePotentials costs potential)[costs.key node]? =
      some (potential.get (Vertex.place (.node node))) := by
  apply Std.TreeMap.getElem?_ofList_of_mem Std.ReflCmp.compare_self
  · rw [List.pairwise_map]
    apply (List.nodup_finRange costs.nodeCount).imp
    intro first second different same
    exact different (costs.key_injective (Std.LawfulEqCmp.eq_of_compare same))
  · exact List.mem_map.mpr ⟨node, List.mem_finRange node, rfl⟩

theorem price_at_node_potentials (node : Fin costs.nodeCount) :
    priceAt (nodePotentials costs potential) (costs.key node) =
      price potential (Vertex.place (.node node)) := by
  rw [priceAt, Std.TreeMap.getD_eq_getD_getElem?, get_elem?_node_potentials, Option.getD_some, price]

end NodePotentials

theorem complementary_of_reduced_nonneg {n m : Nat} {network : Residual n m W}
    {prices : Fin n → Int} (sound : network.Sound)
    (nonneg : ∀ arc, network.hasCapacity arc = true → 0 ≤ reduced network prices arc) {index : Fin m}
    (cost : 0 ≤ toInt (network.links.get index).cost) :
    Complementary (network.links.get index).capacity (network.flow index)
      (reduced network prices ⟨index, false⟩) where
  empty opened nothing := by
    apply reduced_nonneg_of_room sound nonneg
    rwa [nothing]
  full limit _ positive same := by
    apply reduced_nonpos_of_carries sound nonneg cost
    rwa [same]
  between positive room := by
    have atMost := reduced_nonpos_of_carries sound nonneg cost positive
    have atLeast := reduced_nonneg_of_room sound nonneg room
    exact atMost.antisymm atLeast

section Run

variable {costs : Graph N W} {supply : KeyedWeights N W} {capacity : Option (Graph N W)} {total : W}
  {final : State (costs.nodeCount + 2) (costs.edgeCount + (terminalLinks costs supply).length) W}

theorem reduced_edge (linksEq : final.network.links = extendedLinks costs supply capacity)
    (index : Fin costs.edgeCount) :
    reduced final.network (price final.potential) ⟨index.castAdd _, false⟩ =
      reducedAt costs (priceAt (nodePotentials costs final.potential)) index := by
  rw [reducedAt, ← costs.key_source_index, ← costs.key_target_index, price_at_node_potentials,
    price_at_node_potentials]
  simp only [reduced, Residual.cost, Residual.tail, Residual.head, Residual.link, linksEq,
    extended_links_edge, Bool.false_eq_true, if_false]

theorem Routed.complementary (valid : Valid costs supply capacity total)
    (routed : Routed (extendedLinks costs supply capacity) (Vertex.place .source)
      (Vertex.place .sink) final) (index : Fin costs.edgeCount) :
    Complementary (capacityAt costs capacity index) (edgeAmounts final.network index)
      (reducedAt costs (priceAt (nodePotentials costs final.potential)) index) := by
  have cost := cost_nonneg valid (index.castAdd (terminalLinks costs supply).length)
  rw [← routed.links_eq] at cost
  have slack := complementary_of_reduced_nonneg routed.sound routed.reduced_nonneg cost
  rwa [reduced_edge routed.links_eq, routed.links_eq, extended_links_edge] at slack

end Run

/-- A solution with all that its potentials certify. -/
structure Certified (costs : Graph N W) (supply : KeyedWeights N W) (capacity : Option (Graph N W))
    (solution : Solution N W) : Prop where
  cost_nonneg : ∀ edge ∈ costs.edges, 0 ≤ toInt edge.weight
  known : ∀ node, node ∈ solution.potentials ↔ node ∈ costs.nodes
  price_nonpos : ∀ node ∈ costs.nodes, priceAt solution.potentials node ≤ 0
  routes : Routes costs supply capacity (costs.amountsOn solution.flow)
  cost_eq : toInt solution.cost = exactCost costs (costs.amountsOn solution.flow)
  complementary : ∀ index, Complementary (capacityAt costs capacity index)
    (costs.amountsOn solution.flow index) (reducedAt costs (priceAt solution.potentials) index)

section Certified

variable {costs : Graph N W} {supply : KeyedWeights N W} {capacity : Option (Graph N W)}
  {solution : Solution N W}

theorem primal_dual_certified (found : (primalDual costs supply capacity).outcome = .ok solution) :
    Certified costs supply capacity solution := by
  obtain ⟨total, final, checked, ended, whole, flow, potentials, cost⟩ := primal_dual_run found
  have valid := validate_eq_ok checked
  have exhausted := route_extended_exhausted valid ended
  have amounts : costs.amountsOn solution.flow = edgeAmounts final.network := by
    rw [flow, amounts_on_edge_flow]
  constructor
  · exact valid.cost_nonneg
  · intro node
    rw [potentials, mem_node_potentials]
  · intro node member
    rw [potentials, ← costs.key_index member, price_at_node_potentials]
    exact exhausted.prices_nonpos _
  · rw [amounts]
    exact edge_amounts_routes valid exhausted.routed whole
  · rw [amounts]
    exact to_int_total_cost? cost
  · intro index
    rw [amounts, potentials]
    exact exhausted.routed.complementary valid index

theorem Certified.potential_nonpos (certified : Certified costs supply capacity solution) {node : N}
    (member : node ∈ costs.nodes) :
    ∃ potential, solution.potentials[node]? = some potential ∧ toInt potential ≤ 0 := by
  have known := (certified.known node).mpr member
  rw [Std.TreeMap.mem_iff_isSome_getElem?, Option.isSome_iff_exists] at known
  obtain ⟨potential, found⟩ := known
  have nonpos := certified.price_nonpos node member
  rw [priceAt, Std.TreeMap.getD_eq_getD_getElem?, found, Option.getD_some] at nonpos
  exact ⟨potential, found, nonpos⟩

/-- With the potentials of a solution a reduced cost is computed as soon as its first step fits. What
that step gives is not negative, and adding a potential that is not positive stays in range. -/
theorem Certified.reduced_cost?_is_some_iff (certified : Certified costs supply capacity solution)
    (index : Fin costs.edgeCount) :
    (reducedCost? solution.potentials (costs.edge index)).isSome = true ↔
      (Weight.trySub (costs.edge index).weight
        (solution.potentials.getD (costs.edge index).source 0)).isSome = true := by
  obtain ⟨sourceMember, targetMember⟩ := costs.ends_mem _ (costs.edge_mem index)
  obtain ⟨atSource, sourceFound, sourceNonpos⟩ := certified.potential_nonpos sourceMember
  obtain ⟨atTarget, targetFound, targetNonpos⟩ := certified.potential_nonpos targetMember
  have cost := certified.cost_nonneg _ (costs.edge_mem index)
  have steps : reducedCost? solution.potentials (costs.edge index) =
      (Weight.trySub (costs.edge index).weight atSource).bind fun partway =>
        Weight.tryAdd partway atTarget := by
    rw [reducedCost?, sourceFound, targetFound]
    rfl
  rw [steps, Std.TreeMap.getD_eq_getD_getElem?, sourceFound, Option.getD_some]
  cases lowered : Weight.trySub (costs.edge index).weight atSource with
  | none => rw [Option.bind_none]
  | some partway =>
      have value := try_sub_eq_some_iff.mp lowered
      have atLeast : toInt atTarget ≤ toInt partway + toInt atTarget := by omega
      have atMost : toInt partway + toInt atTarget ≤ toInt partway := by omega
      obtain ⟨reduced, exact⟩ := exists_to_int_eq atLeast atMost
      rw [Option.bind_some, try_add_eq_some_iff.mpr exact, Option.isSome_some, Option.isSome_some]

end Certified

/-- The potentials of a solution are an optimal dual solution, and there is no gap between its value
and the cost. -/
theorem primal_dual_is_dual_optimal (costs : Graph N W) (supply : KeyedWeights N W)
    (capacity : Option (Graph N W)) (solution : Solution N W)
    (found : (primalDual costs supply capacity).outcome = .ok solution) :
    (∀ node, node ∈ solution.potentials ↔ node ∈ costs.nodes) ∧
      (∀ index, Complementary (capacityAt costs capacity index)
        (costs.amountsOn solution.flow index)
        (reducedAt costs (priceAt solution.potentials) index)) ∧
      (∀ index, capacityAt costs capacity index = none →
        0 ≤ reducedAt costs (priceAt solution.potentials) index) ∧
      toInt solution.cost = dualValue costs supply capacity (priceAt solution.potentials) ∧
      ∀ price, (∀ index, capacityAt costs capacity index = none →
          0 ≤ reducedAt costs price index) →
        dualValue costs supply capacity price ≤
          dualValue costs supply capacity (priceAt solution.potentials) := by
  have certified := primal_dual_certified found
  have value := certified.routes.exact_cost_eq_dual_value certified.complementary
  have feasible := certified.routes.reduced_at_nonneg certified.complementary
  refine ⟨certified.known, certified.complementary, feasible, certified.cost_eq.trans value, ?_⟩
  intro price dual
  rw [← value]
  exact certified.routes.dual_value_le dual

theorem primal_dual_tolls_dual : ∃ solution : Solution Int Int32,
    (primalDual tolls twoUnits (some singleLanes)).outcome = .ok solution ∧ solution.cost = 13 ∧
      (∀ index, Complementary (capacityAt tolls (some singleLanes) index)
        (tolls.amountsOn solution.flow index)
        (reducedAt tolls (priceAt solution.potentials) index)) ∧
      dualValue tolls twoUnits (some singleLanes) (priceAt solution.potentials) = 13 ∧
      ∀ price, (∀ index, capacityAt tolls (some singleLanes) index = none →
          0 ≤ reducedAt tolls price index) →
        dualValue tolls twoUnits (some singleLanes) price ≤ 13 := by
  have passed : (primalDual tolls twoUnits (some singleLanes)).outcome.toOption.any
      (fun solution => solution.cost == 13) = true := by
    decide +kernel
  obtain ⟨solution, found, tested⟩ := Traced.exists_ok_of_any passed
  have cost : solution.cost = 13 := eq_of_beq tested
  obtain ⟨-, complementary, -, noGap, most⟩ :=
    primal_dual_is_dual_optimal tolls twoUnits (some singleLanes) solution found
  rw [cost] at noGap
  rw [← noGap] at most
  exact ⟨solution, found, cost, complementary, noGap.symm, most⟩

/-- The check passes on a solution unless the cost of some edge less the potential of its source does
not fit. -/
theorem complementary_slackness_primal_dual_iff (costs : Graph N W) (supply : KeyedWeights N W)
    (capacity : Option (Graph N W)) (solution : Solution N W)
    (found : (primalDual costs supply capacity).outcome = .ok solution) :
    complementarySlackness costs capacity solution.flow solution.potentials = true ↔
      ∀ index, (Weight.trySub (costs.edge index).weight
        (solution.potentials.getD (costs.edge index).source 0)).isSome = true := by
  have certified := primal_dual_certified found
  rw [certified.routes.complementary_slackness_iff]
  apply forall_congr'
  intro index
  rw [certified.reduced_cost?_is_some_iff]
  exact and_iff_left (certified.complementary index)

theorem complementary_slackness_primal_dual_tolls : ∃ solution : Solution Int Int32,
    (primalDual tolls twoUnits (some singleLanes)).outcome = .ok solution ∧
      (∀ index, (Weight.trySub (tolls.edge index).weight
        (solution.potentials.getD (tolls.edge index).source 0)).isSome = true) ∧
      complementarySlackness tolls (some singleLanes) solution.flow solution.potentials = true := by
  have passed : (primalDual tolls twoUnits (some singleLanes)).outcome.toOption.any
      (fun solution => ∀ index, (Weight.trySub (tolls.edge index).weight
        (solution.potentials.getD (tolls.edge index).source 0)).isSome = true) = true := by
    decide +kernel
  obtain ⟨solution, found, tested⟩ := Traced.exists_ok_of_any passed
  have fits := of_decide_eq_true tested
  have checked := (complementary_slackness_primal_dual_iff tolls twoUnits (some singleLanes) solution
    found).mpr fits
  exact ⟨solution, found, fits, checked⟩

/-- One unit from 1 to 2, and an edge that leads there from a node beyond at the largest cost. -/
def farShore : Graph Int Int32 := Graph.ofEdges [⟨1, 2, 1⟩, ⟨3, 2, 2147483647⟩]

def oneUnit : KeyedWeights Int Int32 := Std.TreeMap.ofList [((1 : Int), (1 : Int32)), (2, -1)]

theorem complementary_slackness_far_shore : ∃ solution : Solution Int Int32,
    (primalDual farShore oneUnit none).outcome = .ok solution ∧
      (∀ index, Complementary (capacityAt farShore none index)
        (farShore.amountsOn solution.flow index)
        (reducedAt farShore (priceAt solution.potentials) index)) ∧
      (∀ index, ∃ reduced : Int32,
        toInt reduced = reducedAt farShore (priceAt solution.potentials) index) ∧
      complementarySlackness farShore none solution.flow solution.potentials = false := by
  have passed : (primalDual farShore oneUnit none).outcome.toOption.any (fun solution =>
      (∀ index, (ofInt? (reducedAt farShore (priceAt solution.potentials) index) :
        Option Int32).isSome = true) ∧
        complementarySlackness farShore none solution.flow solution.potentials = false) = true := by
    decide +kernel
  obtain ⟨solution, found, tested⟩ := Traced.exists_ok_of_any passed
  obtain ⟨fits, refused⟩ := of_decide_eq_true tested
  refine ⟨solution, found, (primal_dual_certified found).complementary, ?_, refused⟩
  intro index
  obtain ⟨reduced, same⟩ := Option.isSome_iff_exists.mp (fits index)
  exact ⟨reduced, of_int?_eq_some_iff.mp same⟩

end FlowTour.MinCostFlow
