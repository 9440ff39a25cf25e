import FlowTour.Proofs.Heap
import FlowTour.Proofs.Tour.Journal
import FlowTour.Proofs.Tour.Trail

/-!
Steps of the search for a shortest round trip, whatever the comparisons of the weights answer. All that
a step can do is listed once. From this follows how many paths the frontier still stands for, so that
every run ends, and what it takes for no round trip to be lost on the way.
-/

namespace FlowTour.Tour

variable {n : Nat} {W : Type} {distances : Distances n W} {start node : Fin n}
  {cycle : List (Fin n)}

section Circuits

variable {trail : Trail n}

theorem length_of_circuit (circuit : distances.Circuit start cycle) : cycle.length = n := by
  rw [circuit.perm.length_eq, List.length_finRange]

theorem joins_of_extends (circuit : distances.Circuit start cycle) (extending : trail.nodes <+: cycle) :
    distances.Joins (steps trail.nodes) := by
  obtain ⟨rest, rfl⟩ := extending
  intro step member
  apply circuit.joins
  rw [round_steps_of_head circuit.head, List.append_assoc]
  exact mem_steps_append member _

theorem joined_of_extends (circuit : distances.Circuit start cycle)
    (extending : (trail.extend node).nodes <+: cycle) :
    (distances.get trail.last node).isSome = true := by
  have joins := joins_of_extends circuit extending
  rw [Trail.steps_extend] at joins
  exact joins (trail.last, node) (List.mem_append_right _ (List.mem_singleton.mpr rfl))

theorem returns_of_circuit (circuit : distances.Circuit start trail.nodes) :
    (distances.get trail.last start).isSome = true := by
  have joins := circuit.joins
  rw [round_steps_of_head circuit.head, steps_concat start trail.get_last?_nodes] at joins
  exact joins (trail.last, start) (List.mem_append_right _ (List.mem_singleton.mpr rfl))

theorem eq_of_extends (full : trail.length = n) (circuit : distances.Circuit start cycle)
    (extending : trail.nodes <+: cycle) : trail.nodes = cycle := by
  apply extending.eq_of_length
  rw [Trail.length_nodes, full, length_of_circuit circuit]

theorem extends_start (circuit : distances.Circuit start cycle) :
    (⟨start, []⟩ : Trail n).nodes <+: cycle := by
  have head := circuit.head
  cases cycle with
  | nil => cases head
  | cons first rest =>
      obtain rfl := Option.some.inj head
      exact ⟨rest, rfl⟩

theorem exists_extend (short : trail.length < n) (circuit : distances.Circuit start cycle)
    (extending : trail.nodes <+: cycle) :
    ∃ node ∈ trail.remaining, (trail.extend node).nodes <+: cycle := by
  have size := length_of_circuit circuit
  obtain ⟨rest, rfl⟩ := extending
  cases rest with
  | nil =>
      rw [List.append_nil, Trail.length_nodes] at size
      omega
  | cons node rest =>
      have remaining := Trail.perm_remaining circuit.perm
      refine ⟨node, remaining.mem_iff.mp (List.mem_cons_self ..), rest, ?_⟩
      rw [Trail.nodes_extend, List.append_assoc]
      rfl

end Circuits

section Steps

variable [Weight W] {search next final : Search n W} {partialTour : Partial n W}
  {nodes : List (Fin n)} {Cause : Type}

/-- What branching to a node does: nothing if there is no edge to it, if the round trip that it
completes is not shorter than the best one, or if the longer path has no bound that beats it; or else
it records the round trip or puts the longer path on the frontier. -/
inductive BranchStep (distances : Distances n W) (start : Fin n) (partialTour : Partial n W)
    (search : Search n W) (node : Fin n) : Search n W → Prop
  | unjoined (missing : distances.get partialTour.trail.last node = none) :
      BranchStep distances start partialTour search node search
  | notShorter {weight : W} (joined : distances.get partialTour.trail.last node = some weight)
      (full : (partialTour.trail.extend node).length = n)
      (notBeating : ∀ back, distances.get node start = some back →
        ¬search.beats (partialTour.distance + weight + back) = true) :
      BranchStep distances start partialTour search node search
  | recorded {weight back : W} (joined : distances.get partialTour.trail.last node = some weight)
      (full : (partialTour.trail.extend node).length = n)
      (returning : distances.get node start = some back)
      (beating : search.beats (partialTour.distance + weight + back) = true) :
      BranchStep distances start partialTour search node
        { search with
          incumbent :=
            some (partialTour.distance + weight + back, (partialTour.trail.extend node).nodes) }
  | hopeless {weight : W} (joined : distances.get partialTour.trail.last node = some weight)
      (unfinished : (partialTour.trail.extend node).length ≠ n)
      (notBeating : ∀ bound, lowerBound? distances start (partialTour.trail.extend node)
        (partialTour.distance + weight) = some bound → ¬search.beats bound = true) :
      BranchStep distances start partialTour search node search
  | pushed {weight bound : W} (joined : distances.get partialTour.trail.last node = some weight)
      (unfinished : (partialTour.trail.extend node).length ≠ n)
      (bounded : lowerBound? distances start (partialTour.trail.extend node)
        (partialTour.distance + weight) = some bound)
      (beating : search.beats bound = true) :
      BranchStep distances start partialTour search node
        { search with
          frontier := search.frontier.push Partial.below
            ⟨bound, partialTour.distance + weight, partialTour.trail.extend node⟩ }

theorem branch_step_of_branch (stepped : (branch distances start partialTour search node :
      Traced (Progress W) Cause (Search n W)).outcome = .ok next) :
    BranchStep distances start partialTour search node next := by
  unfold branch at stepped
  simp only [add_eq_pure, attempt_sum_bound, Traced.pure_bind] at stepped
  split at stepped
  · next missing => exact Except.ok.inj stepped ▸ .unjoined missing
  · next weight joined =>
    split at stepped
    · next full =>
      split at stepped
      · next missing =>
        obtain rfl := Except.ok.inj stepped
        apply BranchStep.notShorter joined full
        intro back returning
        cases missing.symm.trans returning
      · next back returning =>
        split at stepped
        · next beating =>
          obtain ⟨_, -, last⟩ := Traced.bind_eq_ok_iff.mp stepped
          exact Except.ok.inj last ▸ .recorded joined full returning beating
        · next notBeating =>
          obtain rfl := Except.ok.inj stepped
          apply BranchStep.notShorter joined full
          intro other again
          obtain rfl := Option.some.inj (returning.symm.trans again)
          exact notBeating
    · next unfinished =>
      split at stepped
      · next unbounded =>
        obtain rfl := Except.ok.inj stepped
        apply BranchStep.hopeless joined unfinished
        intro bound bounded
        cases unbounded.symm.trans bounded
      · next bound bounded =>
        split at stepped
        · next beating => exact Except.ok.inj stepped ▸ .pushed joined unfinished bounded beating
        · next notBeating =>
          obtain rfl := Except.ok.inj stepped
          apply BranchStep.hopeless joined unfinished
          intro other again
          obtain rfl := Option.some.inj (bounded.symm.trans again)
          exact notBeating

/-- Branching to some nodes, one after the other. -/
inductive BranchSteps (distances : Distances n W) (start : Fin n) (partialTour : Partial n W) :
    Search n W → List (Fin n) → Search n W → Prop
  | nil (search : Search n W) : BranchSteps distances start partialTour search [] search
  | cons {search middle final : Search n W} {node : Fin n} {nodes : List (Fin n)}
      (first : BranchStep distances start partialTour search node middle)
      (others : BranchSteps distances start partialTour middle nodes final) :
      BranchSteps distances start partialTour search (node :: nodes) final

theorem branch_steps_of_foldlm (stepped : (nodes.foldlM (branch distances start partialTour) search :
      Traced (Progress W) Cause (Search n W)).outcome = .ok final) :
    BranchSteps distances start partialTour search nodes final := by
  induction nodes generalizing search with
  | nil => exact Except.ok.inj stepped ▸ .nil search
  | cons node rest induction =>
      rw [List.foldlM_cons] at stepped
      obtain ⟨middle, first, others⟩ := Traced.bind_eq_ok_iff.mp stepped
      exact .cons (branch_step_of_branch first) (induction others)

theorem BranchSteps.keep (branched : BranchSteps distances start partialTour search nodes final)
    (property : Search n W → Prop) (kept : ∀ before, ∀ node ∈ nodes, ∀ after, property before →
      BranchStep distances start partialTour before node after → property after)
    (start : property search) : property final := by
  induction branched with
  | nil search => exact start
  | cons first others induction =>
      apply induction
      · exact fun before node member => kept before node (List.mem_cons_of_mem _ member)
      · exact kept _ _ (List.mem_cons_self ..) _ start first

theorem BranchStep.expansions_eq (step : BranchStep distances start partialTour search node next) :
    next.expansions = search.expansions := by
  cases step <;> rfl

theorem BranchStep.stopped_eq (step : BranchStep distances start partialTour search node next) :
    next.stopped = search.stopped := by
  cases step <;> rfl

theorem BranchSteps.expansions_eq
    (branched : BranchSteps distances start partialTour search nodes final) :
    final.expansions = search.expansions :=
  branched.keep (fun later => later.expansions = search.expansions)
    (fun _ _ _ _ same step => step.expansions_eq.trans same) rfl

theorem BranchSteps.stopped_eq
    (branched : BranchSteps distances start partialTour search nodes final) :
    final.stopped = search.stopped :=
  branched.keep (fun later => later.stopped = search.stopped)
    (fun _ _ _ _ same step => step.stopped_eq.trans same) rfl

/-- What one step of the search does: nothing once it has been stopped or the frontier is empty. Or
else it takes a path off the frontier, which is discarded if its bound does not beat the best round
trip, stops the search if the budget is used up, and is branched on otherwise. -/
inductive ExpandStep (distances : Distances n W) (start : Fin n) (budget : Option Nat)
    (search : Search n W) : Option (Search n W) → Prop
  | stopped (stopped : search.stopped = true) : ExpandStep distances start budget search none
  | exhausted (running : search.stopped = false)
      (empty : search.frontier.pop? Partial.below = none) :
      ExpandStep distances start budget search none
  | discarded {partialTour : Partial n W} {frontier : Heap (Partial n W)}
      (running : search.stopped = false)
      (popped : search.frontier.pop? Partial.below = some (partialTour, frontier))
      (notBeating : ¬search.beats partialTour.bound = true) :
      ExpandStep distances start budget search (some { search with frontier })
  | cutShort {partialTour : Partial n W} {frontier : Heap (Partial n W)} {limit : Nat}
      (running : search.stopped = false)
      (popped : search.frontier.pop? Partial.below = some (partialTour, frontier))
      (beating : search.beats partialTour.bound = true) (limited : budget = some limit)
      (spent : limit ≤ search.expansions) :
      ExpandStep distances start budget search (some { search with frontier, stopped := true })
  | expanded {partialTour : Partial n W} {frontier : Heap (Partial n W)} {final : Search n W}
      (running : search.stopped = false)
      (popped : search.frontier.pop? Partial.below = some (partialTour, frontier))
      (beating : search.beats partialTour.bound = true)
      (unspent : ∀ limit, budget = some limit → search.expansions < limit)
      (branched : BranchSteps distances start partialTour
        { search with frontier, expansions := search.expansions + 1 } partialTour.trail.remaining
          final) :
      ExpandStep distances start budget search (some final)

theorem expand_step_of_expand {budget : Option Nat} {found : Option (Search n W)}
    (stepped : (expand distances start budget search :
      Traced (Progress W) Cause (Option (Search n W))).outcome = .ok found) :
    ExpandStep distances start budget search found := by
  unfold expand at stepped
  split at stepped
  · next stopped => exact Except.ok.inj stepped ▸ .stopped stopped
  · next running =>
    rw [Bool.not_eq_true] at running
    split at stepped
    · next empty => exact Except.ok.inj stepped ▸ .exhausted running empty
    · next partialTour frontier popped =>
      dsimp only at stepped
      split at stepped
      · next notBeating =>
        rw [Bool.not_eq_true', ← Bool.not_eq_true] at notBeating
        exact Except.ok.inj stepped ▸ .discarded running popped notBeating
      · next beating =>
        rw [Bool.not_eq_true', Bool.not_eq_false] at beating
        split at stepped
        · next spent =>
          obtain ⟨limit, rfl, atMost⟩ := (Option.any_eq_true _ _).mp spent
          exact Except.ok.inj stepped ▸
            .cutShort running popped beating rfl (of_decide_eq_true atMost)
        · next unspent =>
          obtain ⟨final, branched, last⟩ := Traced.bind_eq_ok_iff.mp stepped
          refine Except.ok.inj last ▸
            .expanded running popped beating ?_ (branch_steps_of_foldlm branched)
          rintro limit rfl
          simpa using unspent

theorem ExpandStep.running {budget : Option Nat}
    (step : ExpandStep distances start budget search (some next)) : search.stopped = false := by
  cases step <;> assumption

theorem ExpandStep.stopped_eq_false (running : search.stopped = false)
    (step : ExpandStep distances start none search (some next)) : next.stopped = false := by
  cases step with
  | cutShort _ popped beating limited spent => cases limited
  | expanded _ popped beating unspent branched => exact branched.stopped_eq.trans running
  | _ => exact running

end Steps

section Measure

variable [Weight W] {search next final : Search n W} {partialTour : Partial n W}
  {frontier : Heap (Partial n W)} {nodes : List (Fin n)} {budget : Option Nat}

/-- How many paths the frontier stands for. -/
def frontierPaths (search : Search n W) : Nat :=
  (search.frontier.listed.map fun partialTour =>
    extensionCount (n - partialTour.trail.length)).sum

theorem frontier_paths_push (search : Search n W) (partialTour : Partial n W) :
    frontierPaths { search with
        frontier := search.frontier.push Partial.below partialTour } =
      extensionCount (n - partialTour.trail.length) + frontierPaths search := by
  have perm := (Heap.push_perm Partial.below search.frontier partialTour).map
    fun partialTour => extensionCount (n - partialTour.trail.length)
  rw [frontierPaths, perm.sum_eq, List.map_cons, List.sum_cons]
  rfl

theorem frontier_paths_pop
    (popped : search.frontier.pop? Partial.below = some (partialTour, frontier)) :
    frontierPaths search = extensionCount (n - partialTour.trail.length) +
      frontierPaths { search with frontier } := by
  have perm := (Heap.pop?_perm Partial.below popped).map
    fun partialTour => extensionCount (n - partialTour.trail.length)
  rw [frontierPaths, perm.sum_eq, List.map_cons, List.sum_cons]
  rfl

theorem extension_count_eq {remaining : Nat} (positive : 0 < remaining) :
    extensionCount remaining = remaining * extensionCount (remaining - 1) + 1 := by
  obtain ⟨fewer, rfl⟩ := Nat.exists_eq_succ_of_ne_zero (Nat.ne_of_gt positive)
  rfl

theorem BranchStep.frontier_paths_le
    (step : BranchStep distances start partialTour search node next) :
    frontierPaths next ≤
      extensionCount (n - partialTour.trail.length - 1) + frontierPaths search := by
  cases step with
  | pushed joined unfinished bounded beating =>
      rw [frontier_paths_push, Trail.length_extend, Nat.sub_sub]
  | _ => exact Nat.le_add_left ..

theorem BranchSteps.frontier_paths_le
    (branched : BranchSteps distances start partialTour search nodes final) :
    frontierPaths final ≤ nodes.length * extensionCount (n - partialTour.trail.length - 1) +
      frontierPaths search := by
  induction branched with
  | nil search => exact Nat.le_add_left ..
  | cons first others induction =>
      have fewer := first.frontier_paths_le
      rw [List.length_cons, Nat.succ_mul]
      omega

theorem frontier_paths_lt_of_pop
    (popped : search.frontier.pop? Partial.below = some (partialTour, frontier))
    (short : partialTour.trail.length < n) :
    frontierPaths { search with frontier } < frontierPaths search := by
  have positive := extension_count_eq (Nat.sub_pos_of_lt short)
  rw [frontier_paths_pop popped]
  omega

/-- Every step uses up a path that the frontier stands for. -/
theorem ExpandStep.frontier_paths_lt
    (paths : ∀ partialTour ∈ search.frontier.listed,
      partialTour.trail.nodes.Nodup ∧ partialTour.trail.length < n)
    (step : ExpandStep distances start budget search (some next)) :
    frontierPaths next < frontierPaths search := by
  cases step with
  | discarded running popped notBeating =>
      exact frontier_paths_lt_of_pop popped (paths _ ((Heap.mem_pop? _ popped).mpr (.inl rfl))).2
  | cutShort running popped beating limited spent =>
      exact frontier_paths_lt_of_pop popped (paths _ ((Heap.mem_pop? _ popped).mpr (.inl rfl))).2
  | @expanded partialTour frontier final running popped beating unspent branched =>
      obtain ⟨distinct, short⟩ := paths _ ((Heap.mem_pop? _ popped).mpr (.inl rfl))
      have width : partialTour.trail.remaining.length = n - partialTour.trail.length :=
        Nat.eq_sub_of_add_eq' (Trail.length_add_length_remaining distinct)
      have most := branched.frontier_paths_le
      rw [width] at most
      rw [frontier_paths_pop popped, extension_count_eq (Nat.sub_pos_of_lt short),
        Nat.add_right_comm]
      exact Nat.lt_succ_of_le most

end Measure

section Covering

variable {search next : Search n W} {partialTour : Partial n W} {trail : Trail n}
  {waiting : List (Trail n)} {matched matchedNext : List (Fin n) → Prop}

/-- Every round trip is matched, extends a path on the frontier, or extends a trail that waits. -/
def Search.Covers (search : Search n W) (distances : Distances n W) (start : Fin n)
    (matched : List (Fin n) → Prop) (waiting : List (Trail n)) : Prop :=
  ∀ cycle, distances.Circuit start cycle → matched cycle ∨
    (∃ partialTour ∈ search.frontier.listed, partialTour.trail.nodes <+: cycle) ∨
      ∃ trail ∈ waiting, trail.nodes <+: cycle

/-- A round trip that was waiting for a trail no longer waits once it is matched or handed on. -/
theorem Search.Covers.hand_over (covers : search.Covers distances start matched (trail :: waiting))
    (still : ∀ cycle, matched cycle → matchedNext cycle)
    (kept : ∀ partialTour ∈ search.frontier.listed, partialTour ∈ next.frontier.listed)
    (handed : ∀ cycle, distances.Circuit start cycle → trail.nodes <+: cycle →
      matchedNext cycle ∨
        ∃ partialTour ∈ next.frontier.listed, partialTour.trail.nodes <+: cycle) :
    next.Covers distances start matchedNext waiting := by
  intro cycle circuit
  rcases covers cycle circuit with done | ⟨partialTour, member, extending⟩ |
    ⟨other, member, extending⟩
  · exact .inl (still cycle done)
  · exact .inr (.inl ⟨partialTour, kept partialTour member, extending⟩)
  · rcases List.mem_cons.mp member with rfl | later
    · rcases handed cycle circuit extending with done | onFrontier
      · exact .inl done
      · exact .inr (.inl onFrontier)
    · exact .inr (.inr ⟨other, later, extending⟩)

theorem Search.Covers.pop (covers : search.Covers distances start matched [])
    {frontier : Heap (Partial n W)} [Weight W]
    (popped : search.frontier.pop? Partial.below = some (partialTour, frontier)) :
    Search.Covers { search with frontier } distances start matched [partialTour.trail] := by
  intro cycle circuit
  rcases covers cycle circuit with done | ⟨other, member, extending⟩ | ⟨trail, member, -⟩
  · exact .inl done
  · rcases (Heap.mem_pop? _ popped).mp member with rfl | later
    · exact .inr (.inr ⟨_, List.mem_cons_self .., extending⟩)
    · exact .inr (.inl ⟨other, later, extending⟩)
  · cases member

/-- Instead of a path, its extensions by one node may wait. -/
theorem Search.Covers.spread (covers : search.Covers distances start matched [trail])
    (short : trail.length < n) :
    search.Covers distances start matched (trail.remaining.map trail.extend) := by
  intro cycle circuit
  rcases covers cycle circuit with done | onFrontier | ⟨other, member, extending⟩
  · exact .inl done
  · exact .inr (.inl onFrontier)
  · rw [List.mem_singleton.mp member] at extending
    obtain ⟨node, fresh, longer⟩ := exists_extend short circuit extending
    exact .inr (.inr ⟨_, List.mem_map_of_mem fresh, longer⟩)

end Covering

section Beginning

variable [Weight W]

theorem listed_initial_search (distances : Distances n W) (start : Fin n) :
    (initialSearch distances start).frontier.listed =
      (lowerBound? distances start ⟨start, []⟩ 0).toList.map
        fun bound => ⟨bound, 0, ⟨start, []⟩⟩ := by
  unfold initialSearch Search.beginning
  cases lowerBound? distances start ⟨start, []⟩ 0 with
  | none => rfl
  | some bound => exact List.perm_singleton.mp (Heap.push_perm _ Heap.empty _)

theorem mem_initial_search {partialTour : Partial n W}
    (member : partialTour ∈ (initialSearch distances start).frontier.listed) :
    lowerBound? distances start ⟨start, []⟩ 0 = some partialTour.bound ∧
      partialTour = ⟨partialTour.bound, 0, ⟨start, []⟩⟩ := by
  rw [listed_initial_search] at member
  obtain ⟨bound, found, rfl⟩ := List.mem_map.mp member
  exact ⟨Option.mem_toList.mp found, rfl⟩

theorem frontier_paths_initial_search (distances : Distances n W) (start : Fin n) :
    frontierPaths (initialSearch distances start) ≤ extensionCount (n - 1) := by
  rw [frontierPaths, listed_initial_search]
  cases lowerBound? distances start ⟨start, []⟩ 0 with
  | none => exact Nat.zero_le _
  | some bound => exact Nat.le_refl _

theorem incumbent_initial_search (several : 1 < n) {length : W} {stops : List (Fin n)}
    (found : (initialSearch distances start).incumbent = some (length, stops)) :
    distances.Circuit start stops ∧ distances.tourLength stops = some length := by
  obtain ⟨walk, walked, measured⟩ := Option.bind_eq_some_iff.mp found
  obtain ⟨length, summed, same⟩ := Option.map_eq_some_iff.mp measured
  obtain ⟨rfl, rfl⟩ := Prod.mk.inj same
  exact ⟨nearest_neighbor?_eq_some several walked, summed⟩

theorem initial_search_covers (matched : List (Fin n) → Prop)
    (bounded : ∀ cycle, distances.Circuit start cycle →
      ∃ bound, lowerBound? distances start ⟨start, []⟩ 0 = some bound) :
    (initialSearch distances start).Covers distances start matched [] := by
  intro cycle circuit
  obtain ⟨bound, found⟩ := bounded cycle circuit
  refine .inr (.inl ⟨⟨bound, 0, ⟨start, []⟩⟩, ?_, extends_start circuit⟩)
  rw [listed_initial_search, found]
  exact List.mem_singleton_self _

end Beginning

section Run

variable [Weight W] {Cause : Type}

theorem branch_answers (distances : Distances n W) (start : Fin n) (partialTour : Partial n W)
    (search : Search n W) (node : Fin n) :
    ∃ next, (branch distances start partialTour search node :
      Traced (Progress W) Cause (Search n W)).outcome = .ok next := by
  unfold branch
  simp only [add_eq_pure, attempt_sum_bound, Traced.pure_bind]
  split
  · exact ⟨_, rfl⟩
  · split
    · split
      · exact ⟨_, rfl⟩
      · split <;> exact ⟨_, rfl⟩
    · split
      · exact ⟨_, rfl⟩
      · split <;> exact ⟨_, rfl⟩

theorem expand_answers (distances : Distances n W) (start : Fin n) (budget : Option Nat)
    (search : Search n W) :
    ∃ found, (expand distances start budget search :
      Traced (Progress W) Cause (Option (Search n W))).outcome = .ok found := by
  unfold Tour.expand
  split
  · exact ⟨_, rfl⟩
  · split
    · exact ⟨_, rfl⟩
    · next partialTour frontier popped =>
      dsimp only
      split
      · exact ⟨_, rfl⟩
      · split
        · exact ⟨_, rfl⟩
        · obtain ⟨final, branched⟩ := Answering.of_traced_lawful.exists_foldlm
            (fun node (_ : node ∈ partialTour.trail.remaining) state =>
              branch_answers distances start partialTour state node)
            { search with frontier, expansions := search.expansions + 1 }
          exact ⟨some final, Traced.bind_eq_ok_iff.mpr ⟨final, branched, rfl⟩⟩

theorem run_search_eq_ok_iff {budget : Option Nat} {final : Search n W} :
    (runSearch distances start budget : Traced (Progress W) Cause (Search n W)).outcome = .ok final ↔
      (iterate (expand distances start budget) (extensionCount (n - 1) + 2)
        (initialSearch distances start) : Traced (Progress W) Cause (Search n W)).outcome =
          .ok final := by
  have reported : ∀ run : Traced (Progress W) Cause (Search n W),
      (do
        let final ← run
        Traced.note (.searchEnded final.expansions final.frontier.size)
        return final : Traced (Progress W) Cause (Search n W)).outcome = .ok final ↔
          run.outcome = .ok final := by
    intro run
    rw [Traced.bind_eq_ok_iff]
    constructor
    · rintro ⟨result, ran, noted⟩
      obtain ⟨_, -, last⟩ := Traced.bind_eq_ok_iff.mp noted
      exact Except.ok.inj last ▸ ran
    · intro ran
      exact ⟨final, ran, rfl⟩
  rw [runSearch, begin_search_eq_pure, Traced.pure_bind]
  split
  · exact reported _
  · rw [Traced.bind_eq_ok_iff]
    constructor
    · rintro ⟨_, -, afterwards⟩
      exact (reported _).mp afterwards
    · intro ran
      exact ⟨(), rfl, (reported _).mpr ran⟩

theorem run_search_answers (distances : Distances n W) (start : Fin n) (budget : Option Nat) :
    ∃ final, (runSearch distances start budget :
      Traced (Progress W) Cause (Search n W)).outcome = .ok final := by
  obtain ⟨final, ran⟩ := Traced.iterate_answers (expand_answers distances start budget)
    (extensionCount (n - 1) + 2) (initialSearch distances start)
  exact ⟨final, run_search_eq_ok_iff.mpr ran⟩

end Run

section Outcome

variable {N : Type} [NodeKey N] [Weight W] {graph : Graph N W}
  {distances : Distances graph.nodeCount W} {budget : Option Nat}

theorem branch_and_bound_single (accepted : Distances.ofGraph graph = .ok distances)
    (filled : 0 < graph.nodeCount) (single : graph.nodeCount = 1) :
    (branchAndBound graph budget).outcome = .ok (ofIndices graph 0 [⟨0, filled⟩] true) := by
  unfold branchAndBound searchTour
  rw [Traced.outcome_bind, Traced.outcome_of_except, accepted]
  dsimp only [Except.bind]
  rw [dif_pos filled, if_pos single]
  rfl

theorem branch_and_bound_several (accepted : Distances.ofGraph graph = .ok distances)
    (filled : 0 < graph.nodeCount) (several : 1 < graph.nodeCount)
    {final : Search graph.nodeCount W}
    (ran : (runSearch distances ⟨0, filled⟩ budget :
      Traced (Progress W) (Failure N W) (Search graph.nodeCount W)).outcome = .ok final) :
    (branchAndBound graph budget).outcome =
      match final.incumbent with
      | some (length, stops) => .ok (ofIndices graph length stops (!final.stopped))
      | none => .error (if final.stopped then .searchBudgetExhausted else .noTour) := by
  unfold branchAndBound searchTour
  rw [Traced.outcome_bind, Traced.outcome_of_except, accepted]
  dsimp only [Except.bind]
  rw [dif_pos filled, if_neg (Nat.ne_of_gt several), Traced.outcome_bind, ran]
  dsimp only [Except.bind]
  cases final.incumbent <;> rfl

end Outcome

end FlowTour.Tour
