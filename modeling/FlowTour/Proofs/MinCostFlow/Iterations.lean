import FlowTour.Proofs.MinCostFlow.Cheapest

/-!
How many iterations a run takes. Each routes at least one unit and no more can be routed than the
source offers, so there are no more iterations than units. No link ever carries more than has been
routed, limited or not, and once the whole supply is routed the terminal links are full.
-/

namespace FlowTour.MinCostFlow

open IntegerWeight Residual

variable {n m : Nat} {W : Type} [IntegerWeight W]

section Run

variable {links : Vector (Link n W) m} {source sink : Fin n} {state next final : State n m W}
  {total : Int}

theorem augment_iterations_eq (stepped : (augment source sink state).outcome = .ok (some next)) :
    next.iterations = state.iterations + 1 := by
  obtain ⟨labels, reached, amount, searched, found, settled, lowered, least, pushed, added⟩ :=
    augment_eq_some stepped
  have moved := augment_of_moved searched found settled lowered least pushed added
  exact congrArg State.iterations (Option.some.inj (Except.ok.inj (stepped.symm.trans moved)))

theorem Posed.iterations_le_routed (posed : Posed links source sink total)
    (passes : Traced.Passes (augment source sink) (initialState links) state) :
    (state.iterations : Int) ≤ toInt state.routed := by
  induction passes with
  | first => exact to_int_zero.ge
  | next earlier stepped induction =>
      have counted := augment_iterations_eq stepped
      have more := ((posed.underway_of_passes earlier).routed.augment_progress stepped).1
      omega

/-- A run comes to a state in which nothing is left to do, or in which an iteration overflows. -/
theorem Posed.exists_last (posed : Posed links source sink total) : ∃ last,
    Traced.Passes (augment source sink) (initialState links) last ∧
      ((augment source sink last).outcome = .ok none ∧
          (route links source sink).outcome = .ok last ∨
        (augment source sink last).outcome = .error .overflow ∧
          (route links source sink).outcome = .error .overflow) := by
  cases ran : (route links source sink).outcome with
  | ok final =>
      obtain ⟨passes, ended⟩ := route_ends posed.different posed.cost_nonneg posed.capacity_nonneg
        posed.none_enters posed.limited ran
      exact ⟨final, passes, .inl ⟨ended, rfl⟩⟩
  | error failure =>
      cases failure
      rw [route_outcome] at ran
      obtain ⟨last, passes, failed⟩ := Traced.iterate_eq_error
        (Traced.Passes (augment source sink) (initialState links)) (fun _ _ => .next) .first ran
      exact ⟨last, passes, .inr ⟨failed, rfl⟩⟩

end Run

section Problem

variable {N : Type} [NodeKey N] {costs : Graph N W} {supply : KeyedWeights N W}
  {capacity : Option (Graph N W)} {total : W}

theorem saturated_of_whole (valid : Valid costs supply capacity total)
    {state : State (costs.nodeCount + 2)
      (costs.edgeCount + (terminalLinks costs supply).length) W}
    (routed : Routed (extendedLinks costs supply capacity) (Vertex.place .source)
      (Vertex.place .sink) state) (whole : toInt state.routed = toInt total)
    (index : Fin (terminalLinks costs supply).length) :
    ∃ limit, ((terminalLinks costs supply).get index).capacity = some limit ∧
      state.network.flow (index.natAdd costs.edgeCount) = toInt limit ∧
      state.network.hasCapacity ⟨index.natAdd costs.edgeCount, false⟩ = false := by
  have full := congrFun (flow_eq_with_full_terminals valid routed whole.ge)
    (index.natAdd costs.edgeCount)
  rw [withFullTerminals, Fin.append_right] at full
  obtain ⟨limit, limited⟩ : ∃ limit,
      ((terminalLinks costs supply).get index).capacity = some limit := by
    obtain ⟨node, amount, -, link | link⟩ := terminal_get valid index
    · exact ⟨amount, by rw [link]⟩
    · exact ⟨amount, by rw [link]⟩
  rw [limited, Option.getD_some] at full
  refine ⟨limit, limited, full, ?_⟩
  rw [← Bool.not_eq_true, routed.sound.has_capacity_iff, Admits, if_neg Bool.false_ne_true,
    routed.links_eq, extended_links_terminal]
  intro admits
  have room := admits limit limited
  rw [full] at room
  omega

/-- The run over a valid problem ends after at most as many iterations as units are supplied: in a
state where nothing is left to do or in an iteration that overflows. Whenever an iteration begins, no
more has been routed than the positive supplies sum up to, the iteration routes at least one unit
more, and every edge carries between nothing and what has been routed, whether it is limited or not.
Once all is routed, the links out of the source and into the sink are full. -/
theorem iterations_le_supply (costs : Graph N W) (supply : KeyedWeights N W)
    (capacity : Option (Graph N W)) (total : W)
    (checked : validate costs supply capacity = .ok total) :
    toInt total = (supply.toList.map fun entry => max (toInt entry.2) 0).sum ∧
    (∃ last, Traced.Passes (augment (Vertex.place .source) (Vertex.place .sink))
        (initialState (extendedLinks costs supply capacity)) last ∧
      (last.iterations : Int) ≤ toInt total ∧
      ((augment (Vertex.place .source) (Vertex.place .sink) last).outcome = .ok none ∧
          (route (extendedLinks costs supply capacity) (Vertex.place .source)
            (Vertex.place .sink)).outcome = .ok last ∨
        (augment (Vertex.place .source) (Vertex.place .sink) last).outcome = .error .overflow ∧
          (route (extendedLinks costs supply capacity) (Vertex.place .source)
            (Vertex.place .sink)).outcome = .error .overflow)) ∧
    ∀ state, Traced.Passes (augment (Vertex.place .source) (Vertex.place .sink))
        (initialState (extendedLinks costs supply capacity)) state →
      (state.iterations : Int) ≤ toInt state.routed ∧ toInt state.routed ≤ toInt total ∧
      (∀ next, (augment (Vertex.place .source) (Vertex.place .sink) state).outcome =
          .ok (some next) →
        next.iterations = state.iterations + 1 ∧
          toInt state.routed + 1 ≤ toInt next.routed) ∧
      (∀ index : Fin costs.edgeCount, 0 ≤ toInt (edgeFlow state.network index) ∧
        toInt (edgeFlow state.network index) ≤ toInt state.routed) ∧
      (toInt state.routed = toInt total → ∀ index : Fin (terminalLinks costs supply).length,
        ∃ limit, ((terminalLinks costs supply).get index).capacity = some limit ∧
          state.network.flow (index.natAdd costs.edgeCount) = toInt limit ∧
          state.network.hasCapacity ⟨index.natAdd costs.edgeCount, false⟩ = false) := by
  have valid := validate_eq_ok checked
  have posed := valid.posed
  have bounded : ∀ state, Traced.Passes (augment (Vertex.place .source) (Vertex.place .sink))
      (initialState (extendedLinks costs supply capacity)) state →
        toInt state.routed ≤ toInt total :=
    fun state passes => routed_le_total posed (posed.underway_of_passes passes).routed
  refine ⟨valid.offered.symm, ?_, ?_⟩
  · obtain ⟨last, passes, ended⟩ := posed.exists_last
    exact ⟨last, passes, (posed.iterations_le_routed passes).trans (bounded last passes), ended⟩
  · intro state passes
    have underway := posed.underway_of_passes passes
    refine ⟨posed.iterations_le_routed passes, bounded state passes, ?_, ?_, ?_⟩
    · exact fun next stepped => ⟨augment_iterations_eq stepped,
        (underway.routed.augment_progress stepped).1⟩
    · exact fun index => ⟨underway.routed.sound.flow_nonneg _, underway.flow_le _⟩
    · exact fun whole => saturated_of_whole valid underway.routed whole

theorem iterations_le_supply_tolls : validate tolls twoUnits (some singleLanes) = .ok 2 ∧
    ∃ state, Traced.Passes (augment (Vertex.place .source) (Vertex.place .sink))
        (initialState (extendedLinks tolls twoUnits (some singleLanes))) state ∧
      toInt state.routed = 2 ∧ (state.iterations : Int) ≤ 2 ∧
      (∀ index, 0 ≤ toInt (edgeFlow state.network index) ∧
        toInt (edgeFlow state.network index) ≤ 2) ∧
      ∀ index : Fin (terminalLinks tolls twoUnits).length,
        state.network.hasCapacity ⟨index.natAdd tolls.edgeCount, false⟩ = false := by
  have checked : validate tolls twoUnits (some singleLanes) = .ok 2 := by decide +kernel
  have passed : (iterate (augment (Vertex.place .source) (Vertex.place .sink)) 2
      (initialState (extendedLinks tolls twoUnits (some singleLanes)))).outcome.toOption.any
        (fun state => toInt state.routed = 2) = true := by
    decide +kernel
  obtain ⟨state, ran, test⟩ := Traced.exists_ok_of_any passed
  have routed := of_decide_eq_true test
  have passes := Traced.passes_of_iterate ran
  obtain ⟨-, -, whenever⟩ := iterations_le_supply tolls twoUnits (some singleLanes) 2 checked
  obtain ⟨counted, -, -, carried, full⟩ := whenever state passes
  rw [routed] at counted carried
  refine ⟨checked, state, passes, routed, counted, carried, fun index => ?_⟩
  obtain ⟨limit, -, -, closed⟩ := full routed index
  exact closed

end Problem

end FlowTour.MinCostFlow
