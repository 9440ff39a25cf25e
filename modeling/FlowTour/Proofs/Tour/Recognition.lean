import FlowTour.Proofs.Tour.RoundTrip

/-!
Recognising round trips. A sequence passes for a round trip just when its open form is one: it lists
every node once, and every pair of neighbours, around the end as well, is joined by an edge.
-/

namespace FlowTour.Graph

variable {N W : Type} [NodeKey N] {graph : Graph N W}

theorem contains_iff {node : N} : graph.contains node = true ↔ node ∈ graph.nodes :=
  decide_eq_true_iff

theorem has_path_iff {path : List N} :
    graph.hasPath path = true ↔ (∀ node ∈ path, node ∈ graph.nodes) ∧
      ∀ step ∈ steps path, (graph.weight? step.1 step.2).isSome = true := by
  unfold hasPath checkPath
  cases unknown : path.find? fun node => !graph.contains node with
  | some node =>
      have member := List.mem_of_find?_eq_some unknown
      have outside : node ∉ graph.nodes := by
        simpa [contains] using List.find?_some unknown
      constructor
      · exact fun passed => nomatch passed
      · exact fun valid => absurd (valid.1 node member) outside
  | none =>
      have known : ∀ node ∈ path, node ∈ graph.nodes := by
        simpa [contains] using unknown
      cases missing : (steps path).find? fun step => (graph.weight? step.1 step.2).isNone with
      | some step =>
          have member := List.mem_of_find?_eq_some missing
          have unjoined : graph.weight? step.1 step.2 = none := by
            simpa using List.find?_some missing
          constructor
          · exact fun passed => nomatch passed
          · intro valid
            have joined := valid.2 step member
            rw [unjoined] at joined
            cases joined
      | none =>
          have joined : ∀ step ∈ steps path, (graph.weight? step.1 step.2).isSome = true := by
            intro step member
            rw [← Option.not_isNone, Bool.not_eq_true']
            exact Bool.eq_false_iff.mpr (List.find?_eq_none.mp missing step member)
          exact iff_of_true rfl ⟨known, joined⟩

omit [NodeKey N] in
/-- Different nodes of the graph, as many as it has, are all its nodes. -/
theorem perm_nodes_iff {stops : List N} :
    stops.Perm graph.nodes ↔
      stops.length = graph.nodeCount ∧ stops.Nodup ∧ ∀ node ∈ stops, node ∈ graph.nodes := by
  constructor
  · intro perm
    exact ⟨perm.length_eq, perm.nodup_iff.mpr graph.nodes_nodup, fun node => perm.mem_iff.mp⟩
  · intro all
    have within : stops.Subperm graph.nodes := all.2.1.subperm all.2.2
    exact within.perm_of_length_le all.1.ge

theorem is_tour_iff {tour : List N} :
    graph.isTour tour = true ↔ graph.IsRoundTrip (graph.openForm tour) := by
  unfold isTour
  generalize graph.openForm tour = stops
  dsimp only
  rw [Bool.and_eq_true, Bool.and_eq_true, decide_eq_true_iff, decide_eq_true_iff]
  cases stops with
  | nil =>
      constructor
      · intro passed
        refine ⟨perm_nodes_iff.mpr ⟨passed.1.1, passed.1.2, by simp⟩, ?_⟩
        intro several
        have none : 0 = graph.nodeCount := passed.1.1
        omega
      · intro trip
        exact ⟨⟨trip.perm.length_eq, List.nodup_nil⟩, rfl⟩
  | cons first rest =>
      cases rest with
      | nil =>
          constructor
          · intro passed
            have known := contains_iff.mp passed.2
            refine ⟨perm_nodes_iff.mpr ⟨passed.1.1, passed.1.2, by simpa using known⟩, ?_⟩
            intro several
            have single : 1 = graph.nodeCount := passed.1.1
            omega
          · intro trip
            have all := perm_nodes_iff.mp trip.perm
            exact ⟨⟨all.1, all.2.1⟩, contains_iff.mpr (all.2.2 first (List.mem_singleton_self _))⟩
      | cons second rest =>
          have around : roundSteps (first :: second :: rest) =
              steps (first :: second :: rest) ++ [((second :: rest).getLast (by simp), first)] := by
            rw [round_steps_cons]
            apply steps_concat
            rw [List.getLast?_cons_cons, List.getLast?_eq_some_getLast]
          rw [Bool.and_eq_true, has_path_iff]
          constructor
          · intro passed
            refine ⟨perm_nodes_iff.mpr ⟨passed.1.1, passed.1.2, passed.2.1.1⟩, ?_⟩
            intro _ step member
            rw [around, List.mem_append, List.mem_singleton] at member
            cases member with
            | inl inside => exact passed.2.1.2 step inside
            | inr closing => exact closing ▸ passed.2.2
          · intro trip
            have all := perm_nodes_iff.mp trip.perm
            have several : 1 < graph.nodeCount := by
              rw [← all.1]
              simp
            have joined := trip.joined several
            rw [around, List.forall_mem_append, List.forall_mem_singleton] at joined
            exact ⟨⟨all.1, all.2.1⟩, ⟨all.2.2, joined.1⟩, joined.2⟩

theorem is_tour_of_is_round_trip {cycle : List N} (trip : graph.IsRoundTrip cycle) :
    graph.isTour cycle = true := by
  have size : cycle.length = graph.nodeCount := trip.perm.length_eq
  have isOpen : graph.openForm cycle = cycle := by
    unfold openForm
    rw [if_neg]
    intro closed
    omega
  rwa [is_tour_iff, isOpen]

theorem exists_is_tour_single (graph : Graph N W) (single : graph.nodeCount = 1) :
    ∃ stops, graph.isTour stops = true := by
  have trip : graph.IsRoundTrip graph.nodes :=
    ⟨List.Perm.refl _, fun several => absurd single (Nat.ne_of_gt several)⟩
  exact ⟨graph.nodes, is_tour_of_is_round_trip trip⟩

end FlowTour.Graph

namespace FlowTour.Tour.Distances

variable {N W : Type} [NodeKey N] {graph : Graph N W} {distances : Distances graph.nodeCount W}

theorem Shows.exists_is_tour_iff (shows : distances.Shows) (several : 1 < graph.nodeCount)
    (start : Fin graph.nodeCount) :
    (∃ stops, graph.isTour stops = true) ↔ ∃ cycle, distances.Circuit start cycle := by
  constructor
  · intro passes
    obtain ⟨stops, passed⟩ := passes
    obtain ⟨cycle, -, circuit, -⟩ :=
      shows.exists_circuit_eq several start (Graph.is_tour_iff.mp passed)
    exact ⟨cycle, circuit⟩
  · intro circuits
    obtain ⟨cycle, circuit⟩ := circuits
    exact ⟨_, Graph.is_tour_of_is_round_trip (shows.is_round_trip circuit)⟩

end FlowTour.Tour.Distances
