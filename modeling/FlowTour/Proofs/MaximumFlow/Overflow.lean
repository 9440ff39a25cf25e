import FlowTour.Proofs.MaximumFlow.Solution
import FlowTour.Proofs.Residual.Headroom

/-!
Runs that fail. The checks of the terminals depend on the nodes and on the signs of the capacities
alone. After them, the pushes always fit, since no link carries more than its capacity; so the run
fails only when the value of a flow within the capacities is larger than every weight.
-/

namespace FlowTour.MaximumFlow

open IntegerWeight Residual

section Saturate

variable {n m : Nat} {W : Type} [IntegerWeight W] {links : Vector (Link n W) m}
  {source target : Fin n} {state : State n m W} {cause : Overflow}

theorem augment_eq_error (failed : (augment source target state).outcome = .error cause) :
    ∃ path amount, state.network.augmentingPath? source target = some path ∧
      state.network.bottleneck path = some amount ∧
        (state.network.pushAll path amount = none ∨
          ∃ network, state.network.pushAll path amount = some network ∧
            Weight.tryAdd state.value amount = none) := by
  unfold augment at failed
  split at failed
  · cases failed
  · next path found =>
    split at failed
    · cases failed
    · next amount least =>
      refine ⟨path, amount, found, least, ?_⟩
      rcases Traced.bind_eq_error_iff.mp failed with noted | ⟨_, -, pushing⟩
      · cases noted
      rcases Traced.bind_eq_error_iff.mp pushing with stuck | ⟨network, pushed, adding⟩
      · exact .inl (Traced.of_option_eq_error_iff.mp stuck).1
      rcases Traced.bind_eq_error_iff.mp adding with tooLarge | ⟨_, -, last⟩
      · exact .inr ⟨network, Traced.of_option_eq_ok_iff.mp pushed,
          (Traced.of_option_eq_error_iff.mp tooLarge).1⟩
      · cases last

/-- Amounts within the capacities that every node but the two terminals passes on. -/
structure Within (links : Vector (Link n W) m) (capacity : Fin m → W) (source target : Fin n)
    (amount : Fin m → Int) : Prop where
  nonneg : ∀ index, 0 ≤ amount index
  le_capacity : ∀ index, amount index ≤ toInt (capacity index)
  conserved : ∀ node, node ≠ source → node ≠ target → netOutflow links amount node = 0

theorem within_of_pushed {before after : Residual n m W} {path : List (Arc m)} {sent : Int}
    {origin last : Fin n} {capacity : Fin m → W} (linksEq : before.links = links)
    (limited : ∀ index, (links.get index).capacity = some (capacity index))
    (conserved : ∀ node, node ≠ source → node ≠ target → netOutflow links before.flow node = 0)
    (pushed : Pushed before after path sent) (leads : before.Leads path origin last)
    (between : ∀ node, node ≠ source → node ≠ target → origin ≠ node ∧ last ≠ node) :
    Within links capacity source target after.flow where
  nonneg := pushed.sound.flow_nonneg
  le_capacity index := by
    have limit := limited index
    rw [← linksEq, ← pushed.links_eq] at limit
    exact (pushed.sound.limited index _ limit).1
  conserved node notSource notTarget := by
    have outflow := pushed.net_outflow_eq leads node
    obtain ⟨notOrigin, notLast⟩ := between node notSource notTarget
    rw [pushed.links_eq, linksEq, conserved node notSource notTarget, if_neg notOrigin,
      if_neg notLast] at outflow
    omega

/-- With a capacity on every link, every augmentation can be sent, and no push on its way leaves the
range of the weights. -/
theorem Flowing.exists_exact_pushes {capacity : Fin m → W}
    (limited : ∀ index, (links.get index).capacity = some (capacity index))
    (flowing : Flowing links source target state) {path : List (Arc m)} {amount : W}
    (found : state.network.augmentingPath? source target = some path)
    (least : state.network.bottleneck path = some amount) :
    ∃ after, ExactPushes amount path state.network after := by
  have sound := flowing.sound
  have shortest := shortest_of_augmenting_path? found
  have positive := one_le_bottleneck shortest.route.usable least
  have distinct := links_nodup shortest.route.leads shortest.simple
  have admits := admits_bottleneck sound least
  have limitedHere : ∀ index, ∃ limit, (state.network.links.get index).capacity = some limit := by
    intro index
    rw [flowing.links_eq]
    exact ⟨_, limited index⟩
  obtain ⟨after, pushedAll⟩ :=
    sound.exists_push_all_of_limited limitedHere (by omega) distinct admits
  exact ⟨after, sound.exact_pushes (by omega) distinct admits pushedAll⟩

theorem Flowing.exists_of_error {capacity : Fin m → W}
    (limited : ∀ index, (links.get index).capacity = some (capacity index))
    (different : source ≠ target) (flowing : Flowing links source target state)
    (failed : (MaximumFlow.augment source target state).outcome = .error cause) :
    ∃ amount, Within links capacity source target amount ∧
      ∀ weight : W, toInt weight < netOutflow links amount source := by
  obtain ⟨path, amount, found, least, stuck⟩ := augment_eq_error failed
  have route := (shortest_of_augmenting_path? found).route
  have positive := one_le_bottleneck route.usable least
  have linksEq := flowing.links_eq
  obtain ⟨after, pushes⟩ := flowing.exists_exact_pushes limited found least
  have pushedAll := pushes.push_all_eq
  have tooLarge : Weight.tryAdd state.value amount = none := by
    rcases stuck with missing | ⟨_, -, tooLarge⟩
    · cases missing.symm.trans pushedAll
    · exact tooLarge
  have pushed := flowing.pushed found least pushedAll
  have outflow := pushed.net_outflow_eq route.leads source
  rw [pushed.links_eq, linksEq] at outflow
  refine ⟨after.flow, within_of_pushed linksEq limited flowing.conserved pushed route.leads
    fun node notSource notTarget => ⟨Ne.symm notSource, Ne.symm notTarget⟩, ?_⟩
  intro weight
  rw [outflow, flowing.value_eq, if_pos rfl, if_neg (Ne.symm different), sub_zero, mul_one]
  by_contra atMost
  have fits := (in_range_to_int state.value).of_between (in_range_to_int weight) (by omega)
    (not_lt.mp atMost)
  rw [← try_add_is_some_iff, tooLarge] at fits
  cases fits

theorem exists_of_saturate_error {capacity : Fin m → W}
    (limited : ∀ index, (links.get index).capacity = some (capacity index))
    (nonneg : ∀ index, 0 ≤ toInt (capacity index)) (different : source ≠ target)
    (failed : (saturate source target (Residual.ofLinks links)).outcome = .error cause) :
    ∃ amount, Within links capacity source target amount ∧
      ∀ weight : W, toInt weight < netOutflow links amount source := by
  rcases Traced.bind_eq_error_iff.mp failed with running | ⟨_, -, reporting⟩
  · obtain ⟨before, flowing, stuck⟩ := Traced.iterate_eq_error
      (Flowing links source target)
      (fun _ _ flowing stepped => (flowing.augment different stepped).1)
      (Flowing.initial limited nonneg) running
    exact flowing.exists_of_error limited different stuck
  · cases reporting

end Saturate

section Admission

variable {N W : Type} [NodeKey N] [IntegerWeight W] {graph : Graph N W} {source target : N}

theorem terminals_of_unknown_source (unknown : source ∉ graph.nodes) :
    terminals graph source target = .error (.nodeNotFound source) := by
  rw [terminals, Graph.require_of_not_mem unknown]
  rfl

theorem terminals_of_unknown_target (known : source ∈ graph.nodes)
    (unknown : target ∉ graph.nodes) :
    terminals graph source target = .error (.nodeNotFound target) := by
  rw [terminals, Graph.require_of_mem known, Graph.require_of_not_mem unknown]
  rfl

theorem terminals_of_same (known : source ∈ graph.nodes) :
    terminals graph source source = .error (.sameTerminals source) := by
  rw [terminals, Graph.require_of_mem known]
  simp [bind, Except.bind]

theorem terminals_of_different (first : source ∈ graph.nodes) (second : target ∈ graph.nodes)
    (different : source ≠ target) :
    terminals graph source target = (graph.refuseNegative .capacity).map fun _ =>
      (graph.index source first, graph.index target second) := by
  have apart := graph.index_ne first second different
  rw [terminals, Graph.require_of_mem first, Graph.require_of_mem second]
  simp only [bind, Except.bind, if_neg apart]
  cases graph.refuseNegative (W := W) .capacity <;> rfl

theorem terminals_of_nonneg (first : source ∈ graph.nodes) (second : target ∈ graph.nodes)
    (different : source ≠ target) (nonneg : ∀ edge ∈ graph.edges, 0 ≤ toInt edge.weight) :
    terminals graph source target = .ok (graph.index source first, graph.index target second) := by
  have accepted : graph.refuseNegative .capacity = .ok () :=
    graph.refuse_negative_eq_ok_iff.mpr nonneg
  rw [terminals_of_different first second different, accepted]
  rfl

end Admission

section Failures

variable {N W : Type} [NodeKey N] [IntegerWeight W] {graph : Graph N W} {source target : N}
  {failure : Failure N W}

theorem maximum_flow_of_refused (refused : terminals graph source target = .error failure) :
    (graph.maximumFlow source target).outcome = .error failure := by
  simp [Graph.maximumFlow, solve, refused, Except.bind]

theorem within_iff_is_flow {start finish : Fin graph.nodeCount} (atStart : graph.key start = source)
    (atFinish : graph.key finish = target) {amount : Fin graph.edgeCount → Int} :
    Within (links graph) (fun index => (graph.edge index).weight) start finish amount ↔
      graph.IsFlow source target amount := by
  constructor
  · intro within
    exact ⟨within.nonneg, within.le_capacity, inflow_eq_outflow atStart atFinish within.conserved⟩
  · intro isFlow
    exact ⟨isFlow.nonneg, isFlow.le_capacity, net_outflow_eq_zero atStart atFinish isFlow⟩

/-- After the checks, a maximum flow is missing only where some flow has too large a value. -/
theorem maximum_flow_eq_error (failed : (graph.maximumFlow source target).outcome = .error failure) :
    terminals graph source target = .error failure ∨
      failure = .arithmeticOverflow ∧ ∃ amount, graph.IsFlow source target amount ∧
        ∀ weight : W, toInt weight < graph.outflow amount source - graph.inflow amount source := by
  rcases Traced.bind_eq_error_iff.mp failed with solving | ⟨_, -, last⟩
  · rcases Traced.bind_eq_error_iff.mp solving with refused | ⟨⟨start, finish⟩, found, running⟩
    · exact .inl refused
    · obtain ⟨startKey, finishKey, different, nonneg⟩ := terminals_eq_ok found
      rcases Traced.bind_eq_error_iff.mp running with tooLarge | ⟨_, -, last⟩
      · obtain ⟨cause, overflowed, explained⟩ := Traced.map_failure_eq_error_iff.mp tooLarge
        obtain ⟨amount, within, large⟩ :=
          exists_of_saturate_error links_capacity nonneg different overflowed
        rw [net_outflow_links, startKey] at large
        exact .inr ⟨explained.symm, amount, (within_iff_is_flow startKey finishKey).mp within, large⟩
      · cases last
  · cases last

end Failures

end FlowTour.MaximumFlow
