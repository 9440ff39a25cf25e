import FlowTour.Proofs.MaximumFlow.Duality

/-!
What a run reports. Every augmentation is reported with the number of arcs of its path. No path of the
augmented network is shorter than the one used, so these numbers never decrease; and every augmentation
uses up one of those that were left at the start, which are at most as many as nodes times links.
-/

namespace FlowTour

open IntegerWeight Residual

namespace MaximumFlow

section Run

variable {n m : Nat} {W : Type} [IntegerWeight W] {links : Vector (Link n W) m}
  {source target : Fin n} {state next final : State n m W}

theorem augment_reports {path : List (Arc m)} {amount : W}
    (found : state.network.augmentingPath? source target = some path)
    (least : state.network.bottleneck path = some amount)
    (stepped : (augment source target state).outcome = .ok (some next)) :
    (augment source target state).events = [.augmented path.length amount] ∧
      next.augmentations = state.augmentations + 1 := by
  simp only [augment, found, least] at stepped ⊢
  obtain ⟨_, noted, rest⟩ := Traced.bind_eq_ok_iff.mp stepped
  obtain ⟨network, pushed, afterwards⟩ := Traced.bind_eq_ok_iff.mp rest
  obtain ⟨value, added, last⟩ := Traced.bind_eq_ok_iff.mp afterwards
  obtain rfl := Option.some.inj (Except.ok.inj last)
  rw [Traced.of_option_eq_ok_iff] at pushed added
  rw [Traced.events_bind_of_ok noted, pushed, added]
  exact ⟨rfl, rfl⟩

theorem augment_silent (stepped : (augment source target state).outcome = .ok none) :
    (augment source target state).events = [] := by
  rcases augment_eq_none stepped with missing | ⟨path, found, unlimited⟩
  · rw [augment, missing]
    rfl
  · simp only [augment, found, unlimited]
    rfl

theorem Flowing.iterate_reports (flowing : Flowing links source target state)
    (different : source ≠ target) {fuel : Nat} {shortest : Nat}
    (atLeast : ∀ path, state.network.Route path source target → shortest ≤ path.length)
    (ended : (iterate (MaximumFlow.augment source target) fuel state).outcome = .ok final) :
    ∃ reported : List (Nat × W),
      (iterate (MaximumFlow.augment source target) fuel state).events =
          reported.map (fun line => .augmented line.1 line.2) ∧
        final.augmentations = state.augmentations + reported.length ∧
          (shortest :: reported.map Prod.fst).IsChain (· ≤ ·) := by
  -- The length of the path just used is the bound for the run that follows.
  induction fuel generalizing state shortest with
  | zero =>
      obtain rfl := Except.ok.inj ended
      exact ⟨[], rfl, rfl, .singleton _⟩
  | succ fuel induction =>
      obtain ⟨step, stepped, rest⟩ := Traced.bind_eq_ok_iff.mp ended
      cases step with
      | none =>
          obtain rfl := Except.ok.inj rest
          refine ⟨[], ?_, rfl, .singleton _⟩
          rw [iterate, Traced.events_bind_of_ok stepped, augment_silent stepped]
          rfl
      | some next =>
          obtain ⟨path, amount, found, least, pushedAll, -⟩ := augment_eq_some stepped
          have pathShortest := shortest_of_augmenting_path? found
          have augmented := (flowing.pushed found least pushedAll).augmented flowing.sound
            pathShortest least
          obtain ⟨events, counted⟩ := augment_reports found least stepped
          obtain ⟨later, laterEvents, laterCounted, laterLengths⟩ :=
            induction (flowing.augment different stepped).1
              (fun _ route => augmented.length_le pathShortest route) rest
          refine ⟨(path.length, amount) :: later, ?_, ?_, ?_⟩
          · rw [iterate, Traced.events_bind_of_ok stepped, events]
            dsimp only
            rw [laterEvents, List.map_cons, List.singleton_append]
          · rw [laterCounted, counted, List.length_cons]
            omega
          · exact .cons_cons (atLeast path pathShortest.route) laterLengths

/-- However long a run may be, what it has counted and what is left never exceed what there was. -/
theorem Flowing.augmentations_le {first : State n m W} (flowing : Flowing links source target first)
    (different : source ≠ target) (fresh : first.augmentations = 0)
    (passes : Traced.Passes (MaximumFlow.augment source target) first state) :
    state.augmentations ≤ n * m := by
  have kept := passes.keeps
    (fun state => Flowing links source target state ∧
      state.augmentations + state.network.augmentationsLeft source target ≤ n * m)
    (fun before after invariant stepped => ?_)
    ⟨flowing, by rw [fresh, zero_add]; exact augmentations_left_le first.network different⟩
  · exact (Nat.le_add_right _ _).trans kept.2
  · obtain ⟨flowingBefore, within⟩ := invariant
    obtain ⟨flowingAfter, fewer⟩ := flowingBefore.augment different stepped
    obtain ⟨path, amount, found, least, -, -⟩ := augment_eq_some stepped
    have counted := (augment_reports found least stepped).2
    exact ⟨flowingAfter, by omega⟩

end Run

variable {N W : Type} [NodeKey N] [IntegerWeight W] {graph : Graph N W} {source target : N}

theorem solve_reports {start : Fin graph.nodeCount}
    {final : State graph.nodeCount graph.edgeCount W}
    (found : (solve graph source target).outcome = .ok (start, final)) :
    ∃ reported : List (Nat × W), (solve graph source target).events =
        reported.map (fun line => .augmented line.1 line.2) ++
          [.flowFound final.value reported.length] ∧
      (reported.map Prod.fst).Pairwise (· ≤ ·) ∧
      reported.length ≤ graph.nodeCount * graph.edgeCount := by
  obtain ⟨finish, ends, ended, solveEvents⟩ := solve_run found
  obtain ⟨run, saturateEvents⟩ := saturate_run ended
  obtain ⟨-, -, different, nonneg⟩ := terminals_eq_ok ends
  have flowing : Flowing (links graph) start finish ⟨Residual.ofLinks (links graph), 0, 0⟩ :=
    Flowing.initial links_capacity nonneg
  obtain ⟨reported, events, counted, lengths⟩ :=
    flowing.iterate_reports different (fun path _ => Nat.zero_le path.length) run
  have few := flowing.augmentations_le different rfl (Traced.passes_of_iterate run)
  rw [zero_add] at counted
  refine ⟨reported, ?_, lengths.tail.pairwise, by rwa [← counted]⟩
  rw [solveEvents, saturateEvents, events, counted]

end MaximumFlow

namespace Graph

open MaximumFlow

variable {N W : Type} [NodeKey N] [IntegerWeight W]

/-- A completed run has reported paths that never get shorter, and at most as many as nodes times edges.
Without fuel there could be no more of them either. -/
theorem maximum_flow_augmentations (graph : Graph N W) (source target : N) (value : W)
    (flow : Graph N W) (found : (graph.maximumFlow source target).outcome = .ok (value, flow)) :
    (∃ reported : List (Nat × W), (graph.maximumFlow source target).events =
        reported.map (fun line => .augmented line.1 line.2) ++ [.flowFound value reported.length] ∧
      (reported.map Prod.fst).Pairwise (· ≤ ·) ∧
      reported.length ≤ graph.nodeCount * graph.edgeCount) ∧
    (graph.minimumCut source target).events = (graph.maximumFlow source target).events ∧
    ∀ start finish state, terminals graph source target = .ok (start, finish) →
      Traced.Passes (augment start finish) ⟨Residual.ofLinks (links graph), 0, 0⟩ state →
        state.augmentations ≤ graph.nodeCount * graph.edgeCount := by
  obtain ⟨start, final, solution, rfl, rfl⟩ := maximum_flow_eq_ok found
  have flowEvents : (graph.maximumFlow source target).events = (solve graph source target).events := by
    rw [maximumFlow, Traced.events_bind_of_ok solution]
    exact List.append_nil _
  have cutEvents : (graph.minimumCut source target).events = (solve graph source target).events := by
    rw [minimumCut, Traced.events_bind_of_ok solution]
    exact List.append_nil _
  refine ⟨?_, cutEvents.trans flowEvents.symm, ?_⟩
  · rw [flowEvents]
    exact solve_reports solution
  · intro node finish state ends passes
    obtain ⟨-, -, different, nonneg⟩ := terminals_eq_ok ends
    exact (Flowing.initial links_capacity nonneg).augmentations_le different rfl passes

theorem maximum_flow_augmentations_detours : ∃ flow : Graph Int Int32,
    (detours.maximumFlow 1 4).outcome = .ok (2, flow) ∧
      (detours.maximumFlow 1 4).events.map Progress.text =
        ["augmenting 3 arcs by 1", "augmenting 7 arcs by 1", "max flow 2 after 2 augmentations"] ∧
      ∀ start finish state, terminals detours 1 4 = .ok (start, finish) →
        Traced.Passes (augment start finish) ⟨Residual.ofLinks (links detours), 0, 0⟩ state →
          state.augmentations ≤ 88 := by
  have value : (detours.maximumFlow 1 4).outcome.toOption.any (fun found => found.1 = 2) = true := by
    decide +kernel
  obtain ⟨⟨found, flow⟩, outcome, test⟩ := Traced.exists_ok_of_any value
  obtain rfl : found = 2 := of_decide_eq_true test
  obtain ⟨-, -, few⟩ := maximum_flow_augmentations detours 1 4 2 flow outcome
  have size : detours.nodeCount * detours.edgeCount = 88 := by decide +kernel
  rw [size] at few
  exact ⟨flow, outcome, by decide +kernel, few⟩

end Graph

end FlowTour
