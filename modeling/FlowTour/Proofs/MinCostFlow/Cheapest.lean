import FlowTour.Proofs.MinCostFlow.Lockstep

/-!
Cheapest flows. Whenever a run begins an iteration, no arc with capacity has a negative reduced cost,
so what has been routed so far could not have been routed more cheaply. A run that has come to its end
has found a cheapest maximum flow; all of these have the same value and the same cost.
-/

namespace FlowTour.MinCostFlow

open IntegerWeight Residual

variable {n m : Nat} {W : Type} [IntegerWeight W]

/-- Amounts that carry the most, at the least cost for that. -/
structure CheapestMaximum (links : Vector (Link n W) m) (source sink : Fin n)
    (amount : Fin m → Int) : Prop where
  carries : Carries links source sink amount
  most : ∀ other, Carries links source sink other →
    netOutflow links other source ≤ netOutflow links amount source
  least : ∀ other, Carries links source sink other →
    netOutflow links other source = netOutflow links amount source →
      linkCost links amount ≤ linkCost links other

section Unique

variable {links : Vector (Link n W) m} {source sink : Fin n} {first second : Fin m → Int}

theorem CheapestMaximum.value_eq (one : CheapestMaximum links source sink first)
    (another : CheapestMaximum links source sink second) :
    netOutflow links first source = netOutflow links second source :=
  le_antisymm (another.most first one.carries) (one.most second another.carries)

theorem CheapestMaximum.cost_eq (one : CheapestMaximum links source sink first)
    (another : CheapestMaximum links source sink second) :
    linkCost links first = linkCost links second := by
  have value := one.value_eq another
  exact le_antisymm (one.least second another.carries value.symm)
    (another.least first one.carries value)

end Unique

section Run

variable {links : Vector (Link n W) m} {source sink : Fin n} {state final : State n m W}
  {total : Int}

theorem Routed.link_cost_le_of_carries (routed : Routed links source sink state)
    (different : source ≠ sink) (costs : ∀ index, 0 ≤ toInt (links.get index).cost)
    {other : Fin m → Int} (carries : Carries links source sink other)
    (value : netOutflow links other source = netOutflow links state.network.flow source) :
    linkCost links state.network.flow ≤ linkCost links other := by
  have linksEq := routed.links_eq
  have same : ∀ node, netOutflow links other node = netOutflow links state.network.flow node := by
    intro node
    by_cases atSource : node = source
    · rw [atSource, value]
    by_cases atSink : node = sink
    · rw [atSink, net_outflow_target_eq carries.conserved different,
        net_outflow_target_eq routed.conserved different, value]
    rw [carries.conserved node atSource atSink, routed.conserved node atSource atSink]
  have least := link_cost_le routed.sound (linksEq ▸ costs) routed.reduced_nonneg carries.nonneg
    (linksEq ▸ carries.within) (linksEq ▸ same)
  rwa [linksEq] at least

theorem Exhausted.cheapest_maximum (exhausted : Exhausted links source sink final)
    (different : source ≠ sink) (costs : ∀ index, 0 ≤ toInt (links.get index).cost) :
    CheapestMaximum links source sink final.network.flow := by
  have routed := exhausted.routed
  have linksEq := routed.links_eq
  refine ⟨routed.carries, ?_, fun _ => routed.link_cost_le_of_carries different costs⟩
  intro other carries
  have most := routed.sound.net_outflow_le (linksEq ▸ routed.conserved) exhausted.unreachable
    carries.nonneg (linksEq ▸ carries.within) (linksEq ▸ carries.conserved)
  rwa [linksEq] at most

theorem Posed.cheapest_maximum (posed : Posed links source sink total)
    (ended : (route links source sink).outcome = .ok final) :
    CheapestMaximum links source sink final.network.flow :=
  (route_exhausted posed.different posed.cost_nonneg posed.capacity_nonneg posed.none_enters
    posed.limited ended).cheapest_maximum posed.different posed.cost_nonneg

end Run

section Problem

variable {N : Type} [NodeKey N]

/-- What is true whenever a run over a valid problem begins an iteration. -/
theorem iteration_keeps_cheapest (costs : Graph N W) (supply : KeyedWeights N W)
    (capacity : Option (Graph N W)) (total : W)
    (state : State (costs.nodeCount + 2)
      (costs.edgeCount + (terminalLinks costs supply).length) W)
    (checked : validate costs supply capacity = .ok total)
    (passes : Traced.Passes (augment (Vertex.place .source) (Vertex.place .sink))
      (initialState (extendedLinks costs supply capacity)) state) :
    (∀ arc, state.network.hasCapacity arc = true →
      0 ≤ reduced state.network (price state.potential) arc ∧
        ∀ cost, reducedCost state.network state.potential arc = some cost →
          Weight.isNegative cost = false) ∧
      price state.potential (Vertex.place .source) = 0 ∧
      (∀ node, price state.potential (Vertex.place .sink) ≤ price state.potential node ∧
        price state.potential node ≤ 0) ∧
      Carries (extendedLinks costs supply capacity) (Vertex.place .source) (Vertex.place .sink)
        state.network.flow ∧
      netOutflow (extendedLinks costs supply capacity) state.network.flow (Vertex.place .source) =
        toInt state.routed ∧
      ∀ other, Carries (extendedLinks costs supply capacity) (Vertex.place .source)
          (Vertex.place .sink) other →
        netOutflow (extendedLinks costs supply capacity) other (Vertex.place .source) =
          toInt state.routed →
        linkCost (extendedLinks costs supply capacity) state.network.flow ≤
          linkCost (extendedLinks costs supply capacity) other := by
  have posed := (validate_eq_ok checked).posed
  have underway := posed.underway_of_passes passes
  have routed := underway.routed
  refine ⟨?_, underway.source_price,
    fun node => ⟨underway.sink_price_le node, underway.prices_nonpos node⟩, routed.carries,
    routed.value_eq, ?_⟩
  · intro arc usable
    have nonneg := routed.reduced_nonneg arc usable
    refine ⟨nonneg, ?_⟩
    intro cost reducible
    rw [← Bool.not_eq_true, is_negative_iff, to_int_reduced_cost reducible]
    omega
  · intro other carries value
    exact routed.link_cost_le_of_carries posed.different posed.cost_nonneg carries
      (value.trans routed.value_eq.symm)

end Problem

theorem iteration_keeps_cheapest_tolls : validate tolls twoUnits (some singleLanes) = .ok 2 ∧
    ∃ state, Traced.Passes (augment (Vertex.place .source) (Vertex.place .sink))
        (initialState (extendedLinks tolls twoUnits (some singleLanes))) state ∧
      toInt state.routed = 1 ∧ price state.potential (Vertex.place .sink) = -3 ∧
      (∀ arc, state.network.hasCapacity arc = true →
        0 ≤ reduced state.network (price state.potential) arc) ∧
      linkCost (extendedLinks tolls twoUnits (some singleLanes)) state.network.flow = 3 ∧
      ∀ other, Carries (extendedLinks tolls twoUnits (some singleLanes)) (Vertex.place .source)
          (Vertex.place .sink) other →
        netOutflow (extendedLinks tolls twoUnits (some singleLanes)) other (Vertex.place .source) =
          1 →
        3 ≤ linkCost (extendedLinks tolls twoUnits (some singleLanes)) other := by
  have checked : validate tolls twoUnits (some singleLanes) = .ok 2 := by decide +kernel
  have passed : (augment (Vertex.place .source) (Vertex.place .sink)
      (initialState (extendedLinks tolls twoUnits (some singleLanes)))).outcome.toOption.any
        (fun found => found.any fun state => toInt state.routed = 1 ∧
          price state.potential (Vertex.place .sink) = -3 ∧
            linkCost (extendedLinks tolls twoUnits (some singleLanes)) state.network.flow = 3) =
              true := by
    decide +kernel
  obtain ⟨found, stepped, test⟩ := Traced.exists_ok_of_any passed
  obtain ⟨state, rfl, test⟩ := Option.any_eq_true _ _ |>.mp test
  obtain ⟨routed, sinkPrice, cost⟩ := of_decide_eq_true test
  have passes := Traced.Passes.first.next stepped
  obtain ⟨nonneg, -, -, -, -, least⟩ :=
    iteration_keeps_cheapest tolls twoUnits (some singleLanes) 2 state checked passes
  rw [cost, routed] at least
  exact ⟨checked, state, passes, routed, sinkPrice, fun arc usable => (nonneg arc usable).1, cost,
    least⟩

end FlowTour.MinCostFlow
