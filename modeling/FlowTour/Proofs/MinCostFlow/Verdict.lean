import FlowTour.Proofs.MinCostFlow.Feasibility
import FlowTour.Proofs.MinCostFlow.Headroom

/-!
Verdicts that depend on the problem alone. Where the dearest edge fits once for every node, no number on
the way is too large, so a problem that passes the checks has a solution just when its supply can be
routed at a cost that fits, overflows just when it can only be routed at a larger cost, and counts as
infeasible just when it cannot be routed.
-/

namespace FlowTour.MinCostFlow

open IntegerWeight Residual

variable {N W : Type} [NodeKey N] [IntegerWeight W] {costs : Graph N W} {supply : KeyedWeights N W}
  {capacity : Option (Graph N W)} {total : W}

section Cost

omit [NodeKey N] in
theorem total_cost?_is_some_iff {flow : Fin costs.edgeCount → W}
    (nonneg : ∀ index, 0 ≤ toInt (costs.edge index).weight * toInt (flow index)) :
    (totalCost? costs flow).isSome = true ↔
      InRange W (exactCost costs fun index => toInt (flow index)) := by
  rw [Option.isSome_iff_exists]
  constructor
  · rintro ⟨cost, summed⟩
    exact ⟨cost, to_int_total_cost? summed⟩
  · intro inRange
    apply exists_sum_products nonneg _ to_int_zero.ge
    rwa [to_int_zero, zero_add, ← Fin.sum_univ_def]

end Cost

section Outcome

variable {final : State (costs.nodeCount + 2) (costs.edgeCount + (terminalLinks costs supply).length) W}

theorem primal_dual_of_short (checked : validate costs supply capacity = .ok total)
    (ended : (route (extendedLinks costs supply capacity) (Vertex.place .source)
      (Vertex.place .sink)).outcome = .ok final) (nonneg : 0 ≤ toInt final.routed)
    (short : toInt final.routed < toInt total) :
    (primalDual costs supply capacity).outcome = .error .noFeasibleFlow := by
  have inRange : InRange W (toInt total - toInt final.routed) :=
    (in_range_to_int total).of_nonneg_of_le (by omega) (by omega)
  obtain ⟨shortfall, difference⟩ := Option.isSome_iff_exists.mp (try_sub_is_some_iff.mpr inRange)
  have missing := try_sub_eq_some_iff.mp difference
  have stranded : final.routed < total ∧ ¬Weight.isNegligible shortfall total = true := by
    rw [lt_iff_to_int_lt, is_negligible_iff]
    omega
  simp [primalDual, checked, ended, difference, stranded, Except.bind, Except.mapError]

theorem primal_dual_of_whole (checked : validate costs supply capacity = .ok total)
    (ended : (route (extendedLinks costs supply capacity) (Vertex.place .source)
      (Vertex.place .sink)).outcome = .ok final) (whole : toInt final.routed = toInt total) :
    (primalDual costs supply capacity).outcome =
      (totalCost? costs (edgeFlow final.network)).elim (.error .arithmeticOverflow) fun cost =>
        .ok ⟨cost, costs.reweight (edgeFlow final.network), nodePotentials costs final.potential⟩ := by
  have inRange : InRange W (toInt total - toInt final.routed) := by
    rw [whole, sub_self]
    exact in_range_zero
  obtain ⟨shortfall, difference⟩ := Option.isSome_iff_exists.mp (try_sub_is_some_iff.mpr inRange)
  have enough : ¬final.routed < total := by
    rw [lt_iff_to_int_lt]
    omega
  cases summed : totalCost? costs (edgeFlow final.network) with
  | none =>
      simp [primalDual, checked, ended, difference, enough, summed, Except.bind, Except.mapError]
  | some cost =>
      simp [primalDual, checked, ended, difference, enough, summed, Except.bind, Except.mapError]

omit [NodeKey N] in
theorem exists_dearest (nonneg : ∀ edge ∈ costs.edges, 0 ≤ toInt edge.weight)
    (inRange : ∀ edge ∈ costs.edges, InRange W (costs.nodeCount * toInt edge.weight)) :
    ∃ dearest, 0 ≤ dearest ∧ (∀ index, toInt (costs.edge index).weight ≤ dearest) ∧
      InRange W (costs.nodeCount * dearest) := by
  rcases isEmpty_or_nonempty (Fin costs.edgeCount) with none | some
  · refine ⟨0, le_rfl, none.elim, ?_⟩
    rw [mul_zero]
    exact in_range_zero
  · obtain ⟨dearest, -, most⟩ := Finset.exists_max_image Finset.univ
      (fun index => toInt (costs.edge index).weight) Finset.univ_nonempty
    exact ⟨_, nonneg _ (costs.edge_mem dearest), fun index => most index (Finset.mem_univ index),
      inRange _ (costs.edge_mem dearest)⟩

theorem Valid.exists_route (valid : Valid costs supply capacity total)
    (inRange : ∀ edge ∈ costs.edges, InRange W (costs.nodeCount * toInt edge.weight)) :
    ∃ final, (route (extendedLinks costs supply capacity) (Vertex.place .source)
      (Vertex.place .sink)).outcome = .ok final := by
  obtain ⟨dearest, nonneg, most, highest⟩ := exists_dearest valid.cost_nonneg inRange
  apply valid.posed.exists_route _ nonneg
  · rw [Nat.cast_add, Nat.cast_ofNat, add_sub_cancel_right]
    exact highest
  · intro index
    induction index using Fin.addCases with
    | left index =>
        rw [extended_links_edge]
        exact most index
    | right index =>
        rw [extended_links_terminal, terminal_cost_eq_zero valid (List.get_mem _ index)]
        exact nonneg

theorem primal_dual_of_route (checked : validate costs supply capacity = .ok total)
    (ended : (route (extendedLinks costs supply capacity) (Vertex.place .source)
      (Vertex.place .sink)).outcome = .ok final) :
    ((primalDual costs supply capacity).outcome = .error .noFeasibleFlow ∧
        ¬∃ amount, Routes costs supply capacity amount) ∨
      ∃ amount, Routes costs supply capacity amount ∧
        (∀ other, Routes costs supply capacity other → exactCost costs amount ≤ exactCost costs other) ∧
        ((∃ solution, (primalDual costs supply capacity).outcome = .ok solution) ∧
            InRange W (exactCost costs amount) ∨
          (primalDual costs supply capacity).outcome = .error .arithmeticOverflow ∧
            ¬InRange W (exactCost costs amount)) := by
  have valid := validate_eq_ok checked
  have exhausted := route_extended_exhausted valid ended
  have routed := exhausted.routed
  have atMost := routed_le_total valid.posed routed
  rcases lt_or_ge (toInt final.routed) (toInt total) with short | whole
  · have nonneg := routed.routed_nonneg (head_ne_source valid)
    refine .inl ⟨primal_dual_of_short checked ended nonneg short, ?_⟩
    rintro ⟨amount, routes⟩
    have whole := routes.total_le_routed valid exhausted
    omega
  · have routes := edge_amounts_routes valid routed whole
    refine .inr ⟨edgeAmounts final.network, routes, fun other => exact_cost_le valid routed whole, ?_⟩
    have outcome := primal_dual_of_whole checked ended (le_antisymm atMost whole)
    have computed : (totalCost? costs (edgeFlow final.network)).isSome = true ↔
        InRange W (exactCost costs (edgeAmounts final.network)) :=
      total_cost?_is_some_iff fun index =>
        mul_nonneg (valid.cost_nonneg _ (costs.edge_mem index)) (routes.nonneg index)
    cases summed : totalCost? costs (edgeFlow final.network) with
    | some cost =>
        rw [summed, Option.elim_some] at outcome
        exact .inl ⟨⟨_, outcome⟩, computed.mp (by rw [summed, Option.isSome_some])⟩
    | none =>
        rw [summed, Option.elim_none] at outcome
        refine .inr ⟨outcome, fun inRange => ?_⟩
        have found := computed.mpr inRange
        rw [summed] at found
        cases found

end Outcome

/-- Where the number of nodes times the cost of every edge is in range, the verdict depends on the
problem alone. -/
theorem primal_dual_verdict (costs : Graph N W) (supply : KeyedWeights N W)
    (capacity : Option (Graph N W)) (total : W)
    (checked : validate costs supply capacity = .ok total)
    (inRange : ∀ edge ∈ costs.edges, InRange W (costs.nodeCount * toInt edge.weight)) :
    ((primalDual costs supply capacity).outcome = .error .noFeasibleFlow ↔
        ¬∃ amount, Routes costs supply capacity amount) ∧
      ((primalDual costs supply capacity).outcome = .error .arithmeticOverflow ↔
        (∃ amount, Routes costs supply capacity amount) ∧
          ∀ amount, Routes costs supply capacity amount →
            ∀ weight : W, toInt weight < exactCost costs amount) ∧
      ((∃ solution, (primalDual costs supply capacity).outcome = .ok solution) ↔
        ∃ amount, Routes costs supply capacity amount ∧
          ∃ weight : W, exactCost costs amount ≤ toInt weight) := by
  have valid := validate_eq_ok checked
  obtain ⟨final, ended⟩ := valid.exists_route inRange
  have costNonneg : ∀ amount, Routes costs supply capacity amount → 0 ≤ exactCost costs amount := by
    intro amount routes
    apply Finset.sum_nonneg
    intro index _
    exact mul_nonneg (valid.cost_nonneg _ (costs.edge_mem index)) (routes.nonneg index)
  rcases primal_dual_of_route checked ended with ⟨outcome, infeasible⟩ |
    ⟨amount, routes, least, ⟨⟨solution, outcome⟩, fits⟩ | ⟨outcome, large⟩⟩
  · rw [outcome]
    refine ⟨by simpa using infeasible, ?_, ?_⟩
    · simp [infeasible]
    · simp only [reduceCtorEq, exists_false, false_iff]
      rintro ⟨amount, routes, -⟩
      exact infeasible ⟨amount, routes⟩
  · rw [outcome]
    obtain ⟨weight, exact⟩ := fits
    refine ⟨?_, ?_, ?_⟩
    · simpa using ⟨amount, routes⟩
    · simp only [reduceCtorEq, false_iff]
      rintro ⟨-, dear⟩
      exact absurd exact (dear amount routes weight).ne
    · simp only [Except.ok.injEq, exists_eq', true_iff]
      exact ⟨amount, routes, weight, exact.ge⟩
  · rw [outcome]
    have dear : ∀ other, Routes costs supply capacity other →
        ∀ weight : W, toInt weight < exactCost costs other := by
      intro other otherRoutes weight
      by_contra notDear
      have notMore := least other otherRoutes
      exact large ((in_range_to_int weight).of_nonneg_of_le (costNonneg amount routes) (by omega))
    refine ⟨?_, ?_, ?_⟩
    · simpa using ⟨amount, routes⟩
    · simpa using ⟨⟨amount, routes⟩, dear⟩
    · simp only [reduceCtorEq, exists_false, false_iff]
      rintro ⟨other, otherRoutes, weight, atMost⟩
      have above := dear other otherRoutes weight
      omega

/-- Three times either cost is the largest multiple of three that fits. -/
def dearSteps : Graph Int Int32 := Graph.ofEdges [⟨1, 2, 715827882⟩, ⟨2, 3, 715827882⟩]

def oneUnitOver : KeyedWeights Int Int32 := Std.TreeMap.ofList [((1 : Int), (1 : Int32)), (3, -1)]

def twoUnitsOver : KeyedWeights Int Int32 := Std.TreeMap.ofList [((1 : Int), (2 : Int32)), (3, -2)]

theorem primal_dual_dear_steps :
    (∀ edge ∈ dearSteps.edges, InRange Int32 (dearSteps.nodeCount * toInt edge.weight)) ∧
      (∃ solution, (primalDual dearSteps oneUnitOver none).outcome = .ok solution) ∧
      (primalDual dearSteps twoUnitsOver none).outcome = .error .arithmeticOverflow ∧
      ∀ amount, Routes dearSteps twoUnitsOver none amount →
        ∀ weight : Int32, toInt weight < exactCost dearSteps amount := by
  have inRange : ∀ edge ∈ dearSteps.edges,
      InRange Int32 (dearSteps.nodeCount * toInt edge.weight) := by
    decide +kernel
  have one : validate dearSteps oneUnitOver none = .ok 1 := by
    rfl
  have two : validate dearSteps twoUnitsOver none = .ok 2 := by
    rfl
  have routes : Routes dearSteps oneUnitOver none fun _ => 1 :=
    ⟨by decide +kernel, nofun, by decide +kernel⟩
  have overflow : (primalDual dearSteps twoUnitsOver none).outcome = .error .arithmeticOverflow := by
    decide +kernel
  obtain ⟨-, -, solved⟩ := primal_dual_verdict dearSteps oneUnitOver none 1 one inRange
  obtain ⟨-, dear, -⟩ := primal_dual_verdict dearSteps twoUnitsOver none 2 two inRange
  exact ⟨inRange, solved.mpr ⟨_, routes, 1431655764, by decide +kernel⟩, overflow,
    (dear.mp overflow).2⟩

end FlowTour.MinCostFlow
