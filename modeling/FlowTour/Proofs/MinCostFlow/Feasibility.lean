import FlowTour.Proofs.MinCostFlow.Optimality

/-!
Supplies that cannot be routed. The run stops only when no route leads to the sink any more, and its
flow then has the largest value within the capacities. Amounts on the edges that meet the supply make,
with full terminal links, a flow whose value is the whole supply, so there are none when the run has
routed less.
-/

namespace FlowTour

open IntegerWeight

namespace MinCostFlow

open Residual

variable {N W : Type} [NodeKey N] [IntegerWeight W] {costs : Graph N W} {supply : KeyedWeights N W}
  {capacity : Option (Graph N W)} {total : W}

theorem validate_eq_error {failure : Failure N W}
    (refused : validate costs supply capacity = .error failure) :
    (∃ node, failure = .nodeNotFound node) ∨ failure = .arithmeticOverflow ∨
      failure = .unbalanced ∨ ∃ role edge, failure = .negativeWeight role edge := by
  unfold validate at refused
  split at refused
  · next node _ => exact .inl ⟨node, (Except.error.inj refused).symm⟩
  · refine .inr ?_
    dsimp only at refused
    split at refused
    · split at refused
      · exact .inl (Except.error.inj refused).symm
      · refine .inr ?_
        split at refused
        · refine .inr ?_
          cases costsChecked : costs.refuseNegative (W := W) .cost with
          | error cause =>
              obtain ⟨edge, -, isNegative⟩ := Graph.refuse_negative_eq_error costsChecked
              rw [costsChecked] at refused
              exact ⟨_, edge, (Except.error.inj refused).symm.trans isNegative⟩
          | ok done =>
              rw [costsChecked] at refused
              cases capacity with
              | none => cases refused
              | some graph =>
                  cases capacityChecked : graph.refuseNegative (W := W) .capacity with
                  | error cause =>
                      obtain ⟨edge, -, isNegative⟩ :=
                        Graph.refuse_negative_eq_error capacityChecked
                      simp only [capacityChecked, bind, Except.bind] at refused
                      exact ⟨_, edge, (Except.error.inj refused).symm.trans isNegative⟩
                  | ok alsoDone =>
                      simp [capacityChecked, bind, Except.bind, pure, Except.pure] at refused
        · exact .inl (Except.error.inj refused).symm
    · exact .inl (Except.error.inj refused).symm

theorem primal_dual_eq_no_feasible_flow
    (failed : (primalDual costs supply capacity).outcome = .error .noFeasibleFlow) :
    ∃ total final, validate costs supply capacity = .ok total ∧
      (route (extendedLinks costs supply capacity) (Vertex.place .source)
        (Vertex.place .sink)).outcome = .ok final ∧
      toInt final.routed < toInt total := by
  rcases Traced.bind_eq_error_iff.mp failed with refused | ⟨total, checked, routing⟩
  · rcases validate_eq_error refused with ⟨_, other⟩ | other | other | ⟨_, _, other⟩
    all_goals cases other
  rcases Traced.bind_eq_error_iff.mp routing with overflowed | ⟨final, ended, comparing⟩
  · obtain ⟨cause, -, other⟩ := Traced.map_failure_eq_error_iff.mp overflowed
    cases other
  rcases Traced.bind_eq_error_iff.mp comparing with overflowed | ⟨shortfall, -, deciding⟩
  · cases (Traced.of_option_eq_error_iff.mp overflowed).2
  refine ⟨total, final, checked, Traced.map_failure_eq_ok_iff.mp ended, ?_⟩
  split at deciding
  · next short => exact lt_iff_to_int_lt.mp short.1
  · rcases Traced.bind_eq_error_iff.mp deciding with overflowed | ⟨cost, -, last⟩
    · cases (Traced.of_option_eq_error_iff.mp overflowed).2
    · cases last

/-- Amounts that meet the supply pass every node, once the terminal links are full. -/
theorem Routes.conserved (valid : Valid costs supply capacity total)
    {amount : Fin costs.edgeCount → Int} (routes : Routes costs supply capacity amount)
    (slot : Fin (costs.nodeCount + 2)) (notSource : slot ≠ Vertex.place .source)
    (notSink : slot ≠ Vertex.place .sink) :
    netOutflow (extendedLinks costs supply capacity) (withFullTerminals costs supply amount) slot =
      0 := by
  obtain ⟨vertex, rfl⟩ := exists_place_eq slot
  cases vertex with
  | source => exact absurd rfl notSource
  | sink => exact absurd rfl notSink
  | node index =>
      rw [net_outflow_node valid, routes.balanced _ (costs.key_mem index), sub_self]

theorem Routes.total_le_routed (valid : Valid costs supply capacity total)
    {final : State (costs.nodeCount + 2) (costs.edgeCount + (terminalLinks costs supply).length) W}
    (exhausted : Exhausted (extendedLinks costs supply capacity) (Vertex.place .source)
      (Vertex.place .sink) final)
    {amount : Fin costs.edgeCount → Int} (routes : Routes costs supply capacity amount) :
    toInt total ≤ toInt final.routed := by
  have routed := exhausted.routed
  have most : netOutflow final.network.links (withFullTerminals costs supply amount)
      (Vertex.place .source) ≤
        netOutflow final.network.links final.network.flow (Vertex.place .source) := by
    apply routed.sound.net_outflow_le _ exhausted.unreachable
    · exact with_full_terminals_nonneg valid routes.nonneg
    · rw [routed.links_eq]
      exact routes.with_full_terminals_le
    · rw [routed.links_eq]
      exact routes.conserved valid
    · rw [routed.links_eq]
      exact routed.conserved
  rwa [routed.links_eq, net_outflow_source valid, routed.value_eq] at most

theorem no_feasible_flow_is_infeasible (costs : Graph N W) (supply : KeyedWeights N W)
    (capacity : Option (Graph N W))
    (failed : (primalDual costs supply capacity).outcome = .error .noFeasibleFlow) :
    ¬∃ amount, Routes costs supply capacity amount := by
  rintro ⟨amount, routes⟩
  obtain ⟨total, final, checked, ended, short⟩ := primal_dual_eq_no_feasible_flow failed
  have valid := validate_eq_ok checked
  have whole := routes.total_le_routed valid (route_extended_exhausted valid ended)
  omega

/-- Two units fit between 1 and 4, the second one only by turning the first one back; a third one
does not. -/
def threeUnits : KeyedWeights Int Int32 := Std.TreeMap.ofList [((1 : Int), (3 : Int32)), (4, -3)]

theorem no_feasible_flow_three_units :
    (primalDual tolls threeUnits (some singleLanes)).outcome = .error .noFeasibleFlow ∧
      ¬∃ amount, Routes tolls threeUnits (some singleLanes) amount := by
  have failed : (primalDual tolls threeUnits (some singleLanes)).outcome =
      .error .noFeasibleFlow := by
    decide +kernel
  exact ⟨failed, no_feasible_flow_is_infeasible tolls threeUnits (some singleLanes) failed⟩

end MinCostFlow

end FlowTour
