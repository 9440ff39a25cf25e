import FlowTour.Proofs.MinCostFlow.Lockstep

/-!
Capacities that do not matter. Where every edge may carry as much as is supplied in all, the links of a
problem are loosened by dropping the capacities, so its answer is the one that it has without them.
-/

namespace FlowTour.MinCostFlow

open IntegerWeight

variable {N W : Type} [NodeKey N] [IntegerWeight W] {costs : Graph N W} {supply : KeyedWeights N W}
  {graph : Graph N W} {total : W}

theorem validate_of_nonneg (nonneg : ∀ edge ∈ graph.edges, 0 ≤ toInt edge.weight) :
    validate costs supply (some graph) = validate costs supply none := by
  have accepted : graph.refuseNegative (W := W) .capacity = .ok () :=
    graph.refuse_negative_eq_ok_iff.mpr nonneg
  unfold validate
  simp only [accepted]
  rfl

theorem loosened_of_total_le (loose : ∀ edge ∈ costs.edges,
      toInt total ≤ toInt ((graph.weight? edge.source edge.target).getD 0)) :
    Loosened (extendedLinks costs supply (some graph)) (extendedLinks costs supply none)
      (toInt total) where
  joins index := by
    induction index using Fin.addCases with
    | left index =>
        rw [extended_links_edge, extended_links_edge]
        exact ⟨rfl, rfl, rfl⟩
    | right index =>
        rw [extended_links_terminal, extended_links_terminal]
        exact ⟨rfl, rfl, rfl⟩
  keeps index limit limited := by
    induction index using Fin.addCases with
    | left index =>
        rw [extended_links_edge] at limited
        cases limited
    | right index =>
        rw [extended_links_terminal] at limited ⊢
        exact ⟨limit, limited, rfl⟩
  covers index limit limited := by
    induction index using Fin.addCases with
    | left index =>
        rw [extended_links_edge] at limited
        obtain rfl := Option.some.inj limited
        exact .inr (loose _ (costs.edge_mem index))
    | right index =>
        rw [extended_links_terminal] at limited ⊢
        exact .inl ⟨limit, limited, rfl⟩

/-- Capacities that are not negative and let the whole supply through on every edge change nothing. -/
theorem primal_dual_of_loose_capacity (costs : Graph N W) (supply : KeyedWeights N W)
    (graph : Graph N W) (nonneg : ∀ edge ∈ graph.edges, 0 ≤ toInt edge.weight)
    (loose : ∀ edge ∈ costs.edges, (supply.toList.map fun entry => max (toInt entry.2) 0).sum ≤
      toInt ((graph.weight? edge.source edge.target).getD 0)) :
    (primalDual costs supply (some graph)).outcome = (primalDual costs supply none).outcome := by
  have same : validate costs supply (some graph) = validate costs supply none :=
    validate_of_nonneg nonneg
  cases checked : validate costs supply none with
  | error failure => simp [primalDual, same, checked, Except.bind]
  | ok total =>
      have free := validate_eq_ok checked
      have tight := validate_eq_ok (same.trans checked)
      rw [free.offered] at loose
      have paired := (loosened_of_total_le loose).route_paired tight.posed free.posed
      generalize limited : (route (extendedLinks costs supply (some graph)) (Vertex.place .source)
        (Vertex.place .sink)).outcome = first at paired
      generalize unlimited : (route (extendedLinks costs supply none) (Vertex.place .source)
        (Vertex.place .sink)).outcome = second at paired
      cases paired with
      | failed failure =>
          simp [primalDual, same, checked, limited, unlimited, Except.bind, Except.mapError]
      | @answered state other inStep =>
          have sameFlow : (edgeFlow state.network : Fin costs.edgeCount → W) =
              edgeFlow other.network := by
            funext index
            exact to_int_injective (inStep.flow_eq _)
          have samePotential : state.potential = other.potential := by
            apply Table.eq_of_get
            intro node
            exact to_int_injective (inStep.price_eq node)
          have sameRouted := to_int_injective inStep.routed_eq
          simp [primalDual, same, checked, limited, unlimited, sameRouted, samePotential, sameFlow,
            Except.bind, Except.mapError]

/-- Every toll road can carry both units. -/
def wideLanes : Graph Int Int32 :=
  Graph.ofEdges [⟨1, 2, 2⟩, ⟨1, 3, 2⟩, ⟨2, 3, 2⟩, ⟨2, 4, 2⟩, ⟨3, 4, 3⟩, ⟨4, 1, 2⟩]

theorem primal_dual_wide_lanes : (∀ edge ∈ wideLanes.edges, 0 ≤ toInt edge.weight) ∧
    (∀ edge ∈ tolls.edges, (twoUnits.toList.map fun entry => max (toInt entry.2) 0).sum ≤
      toInt ((wideLanes.weight? edge.source edge.target).getD 0)) ∧
    ∃ solution : Solution Int Int32,
      (primalDual tolls twoUnits (some wideLanes)).outcome = .ok solution ∧ solution.cost = 6 ∧
        (primalDual tolls twoUnits none).outcome = .ok solution := by
  have nonneg : ∀ edge ∈ wideLanes.edges, 0 ≤ toInt edge.weight := by
    decide +kernel
  have loose : ∀ edge ∈ tolls.edges, (twoUnits.toList.map fun entry => max (toInt entry.2) 0).sum ≤
      toInt ((wideLanes.weight? edge.source edge.target).getD 0) := by
    decide +kernel
  have same := primal_dual_of_loose_capacity tolls twoUnits wideLanes nonneg loose
  have passed : (primalDual tolls twoUnits none).outcome.toOption.any (fun solution =>
      solution.cost = 6) = true := by
    decide +kernel
  obtain ⟨solution, found, tested⟩ := Traced.exists_ok_of_any passed
  exact ⟨nonneg, loose, solution, same.trans found, of_decide_eq_true tested, found⟩

end FlowTour.MinCostFlow
