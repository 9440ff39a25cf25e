import FlowTour.Proofs.MaximumFlow.Overflow

/-!
Which values flows have. A flow of some value can be taken back one unit at a time along a route from
its target to its source, so there is a flow of every smaller value.
-/

namespace FlowTour.MaximumFlow

open IntegerWeight Residual

section Within

variable {n m : Nat} {W : Type} [IntegerWeight W] {links : Vector (Link n W) m}
  {capacity : Fin m → W} {source target : Fin n} {amount : Fin m → Int}

theorem Within.exists_network (within : Within links capacity source target amount)
    (limited : ∀ index, (links.get index).capacity = some (capacity index)) :
    ∃ network : Residual n m W, network.Sound ∧ network.links = links ∧ network.flow = amount := by
  have carried : ∀ index, ∃ weight : W, toInt weight = amount index := fun index =>
    (in_range_to_int (capacity index)).of_nonneg_of_le (within.nonneg index) (within.le_capacity index)
  have left : ∀ index, ∃ weight : W, toInt weight = toInt (capacity index) - amount index := by
    intro index
    have nonneg := within.nonneg index
    have atMost := within.le_capacity index
    exact (in_range_to_int (capacity index)).of_nonneg_of_le (by omega) (by omega)
  choose sent sentEq using carried
  choose room roomEq using left
  have flowEq : (Residual.mk links (Vector.ofFn fun index => some (room index))
      (Vector.ofFn sent)).flow = amount := by
    funext index
    simp [Residual.flow, sentEq]
  refine ⟨⟨links, Vector.ofFn fun index => some (room index), Vector.ofFn sent⟩, ?_, rfl, flowEq⟩
  refine ⟨?_, ?_, ?_⟩
  · rw [flowEq]
    exact within.nonneg
  · intro index free
    cases (limited index).symm.trans free
  · intro index limit found
    cases (limited index).symm.trans found
    rw [flowEq]
    exact ⟨within.le_capacity index, room index, by simp, roomEq index⟩

theorem Within.reaches_back (within : Within links capacity source target amount)
    (different : source ≠ target) (positive : 0 < netOutflow links amount source)
    {network : Residual n m W} (sound : network.Sound) (linksEq : network.links = links)
    (flowEq : network.flow = amount) : network.Reaches target source := by
  by_contra unreachable
  -- Nothing enters what the target reaches, so the target would put out something, not take it in.
  have arrives := net_outflow_target_eq within.conserved different
  have backwards : ∀ node, node ≠ target → node ≠ source → netOutflow links amount node = 0 :=
    fun node notTarget notSource => within.conserved node notSource notTarget
  have leaves := net_outflow_eq_crossing backwards
    (mem_reached_from.mpr (reaches_self network target)) (mt mem_reached_from.mp unreachable) (by
      intro index outside inside
      rw [← linksEq] at outside inside
      rw [← flowEq]
      exact sound.empty_of_entering outside inside)
  have notNegative := Finset.sum_nonneg fun index
    (_ : index ∈ crossing links (network.reachedFrom target)) => within.nonneg index
  omega

theorem Within.exists_less (within : Within links capacity source target amount)
    (limited : ∀ index, (links.get index).capacity = some (capacity index))
    (different : source ≠ target) (positive : 0 < netOutflow links amount source) :
    ∃ less, Within links capacity source target less ∧
      netOutflow links less source = netOutflow links amount source - 1 := by
  obtain ⟨network, sound, rfl, rfl⟩ := within.exists_network limited
  obtain ⟨anyPath, anyRoute⟩ := within.reaches_back different positive sound rfl rfl
  cases found : network.augmentingPath? target source with
  | none => exact absurd ⟨anyPath, anyRoute⟩ (network.augmenting_path?_eq_none found)
  | some path =>
      obtain ⟨route, simple, -⟩ := network.augmenting_path?_eq_some found
      have distinct := links_nodup route.leads simple
      obtain ⟨index, carries⟩ : ∃ index, network.flow index ≠ 0 := by
        by_contra nothing
        push Not at nothing
        simp [netOutflow, nothing] at positive
      obtain ⟨unit, one⟩ : InRange W 1 := by
        have atLeast := within.nonneg index
        have atMost := within.le_capacity index
        exact (in_range_to_int (capacity index)).of_nonneg_of_le (by omega) (by omega)
      have admits : ∀ arc ∈ path, network.Admits arc (toInt unit) := by
        intro arc member
        rw [one]
        exact (sound.has_capacity_iff arc).mp (route.usable arc member)
      obtain ⟨after, pushedAll⟩ := sound.exists_push_all_of_limited (fun index => ⟨_, limited index⟩)
        (by omega) distinct admits
      have pushed := sound.push_all (by omega) distinct admits pushedAll
      have outflow := pushed.net_outflow_eq route.leads source
      rw [pushed.links_eq, one, if_neg (Ne.symm different), if_pos rfl] at outflow
      refine ⟨after.flow, within_of_pushed rfl limited within.conserved pushed route.leads
        fun node notSource notTarget => ⟨Ne.symm notTarget, Ne.symm notSource⟩, ?_⟩
      omega

theorem Within.exists_of_le (within : Within links capacity source target amount)
    (limited : ∀ index, (links.get index).capacity = some (capacity index))
    (different : source ≠ target) {value : Int} (notNegative : 0 ≤ value)
    (atMost : value ≤ netOutflow links amount source) :
    ∃ other, Within links capacity source target other ∧ netOutflow links other source = value := by
  obtain ⟨surplus, exact⟩ := Int.le.dest atMost
  induction surplus generalizing amount with
  | zero => exact ⟨amount, within, by omega⟩
  | succ surplus induction =>
      obtain ⟨less, stillWithin, fewer⟩ := within.exists_less limited different (by omega)
      exact induction stillWithin (by omega) (by omega)

end Within

section Flows

variable {N W : Type} [NodeKey N] [IntegerWeight W] {graph : Graph N W} {source target : N}
  {amount : Fin graph.edgeCount → Int}

variable (sourceMem : source ∈ graph.nodes) (targetMem : target ∈ graph.nodes)
  (different : source ≠ target) (isFlow : graph.IsFlow source target amount)
include sourceMem targetMem different isFlow

theorem outflow_target_of_is_flow : graph.outflow amount target - graph.inflow amount target =
    -(graph.outflow amount source - graph.inflow amount source) := by
  have atStart := graph.key_index sourceMem
  have atFinish := graph.key_index targetMem
  have arrives := net_outflow_target_eq (net_outflow_eq_zero atStart atFinish isFlow)
    (graph.index_ne sourceMem targetMem different)
  rwa [net_outflow_links, net_outflow_links, atStart, atFinish] at arrives

/-- Every value from nothing up to that of a flow is the value of a flow. -/
theorem exists_flow_of_le {value : Int} (notNegative : 0 ≤ value)
    (atMost : value ≤ graph.outflow amount source - graph.inflow amount source) :
    ∃ other, graph.IsFlow source target other ∧
      graph.outflow other source - graph.inflow other source = value := by
  have atStart := graph.key_index sourceMem
  have atFinish := graph.key_index targetMem
  have within := (within_iff_is_flow atStart atFinish).mpr isFlow
  rw [← atStart, ← net_outflow_links] at atMost
  obtain ⟨other, otherWithin, exact⟩ := within.exists_of_le links_capacity
    (graph.index_ne sourceMem targetMem different) notNegative atMost
  rw [net_outflow_links, atStart] at exact
  exact ⟨other, (within_iff_is_flow atStart atFinish).mp otherWithin, exact⟩

end Flows

section Reported

variable {N W : Type} [NodeKey N] [IntegerWeight W] {graph : Graph N W} {source target : N}

theorem exists_flow_iff_le {found : W} {flow : Graph N W}
    (answered : (graph.maximumFlow source target).outcome = .ok (found, flow)) {value : Int}
    (notNegative : 0 ≤ value) :
    (∃ amount, graph.IsFlow source target amount ∧
      graph.outflow amount source - graph.inflow amount source = value) ↔ value ≤ toInt found := by
  obtain ⟨start, final, solution, rfl, -⟩ := maximum_flow_eq_ok answered
  obtain ⟨finish, solved⟩ := solve_eq_ok solution
  have different : source ≠ target := by
    rw [← solved.start_key, ← solved.finish_key]
    exact fun same => solved.different (graph.key_injective same)
  constructor
  · intro attained
    obtain ⟨amount, isFlow, sameValue⟩ := attained
    exact sameValue ▸ solved.value_le isFlow
  · intro atMost
    exact exists_flow_of_le (solved.start_key ▸ graph.key_mem start)
      (solved.finish_key ▸ graph.key_mem finish) different solved.is_flow notNegative
      (atMost.trans_eq solved.value_eq.symm)

theorem exists_flow_of_error (sourceMem : source ∈ graph.nodes) (targetMem : target ∈ graph.nodes)
    (different : source ≠ target) (nonneg : ∀ edge ∈ graph.edges, 0 ≤ toInt edge.weight)
    {failure : Failure N W} (failed : (graph.maximumFlow source target).outcome = .error failure) :
    failure = .arithmeticOverflow ∧ ∀ weight : W, 0 ≤ toInt weight →
      ∃ amount, graph.IsFlow source target amount ∧
        graph.outflow amount source - graph.inflow amount source = toInt weight := by
  have admitted := terminals_of_nonneg sourceMem targetMem different nonneg
  rcases maximum_flow_eq_error failed with refused | ⟨overflow, amount, isFlow, large⟩
  · cases admitted.symm.trans refused
  · refine ⟨overflow, fun weight notNegative => ?_⟩
    exact exists_flow_of_le sourceMem targetMem different isFlow notNegative (large weight).le

end Reported

end FlowTour.MaximumFlow
