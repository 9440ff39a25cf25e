import FlowTour.Graph.Building
import FlowTour.Proofs.Graph.Distance
import FlowTour.Proofs.Graph.Rearranged
import FlowTour.Proofs.Tour.Recognition

/-!
What becomes of measuring a path over the integers. The sum is taken step by step and ends at the first
step that is no edge or takes the sum out of range, whichever of the two it is. Checking a path looks at
all its nodes before its edges, so the two ways of reading a path agree on whether an edge is missing,
but not always on the error.
-/

namespace FlowTour

section Fold

variable {State Item Cause : Type} {step : State → Item → Except Cause State} {items : List Item}
  {start : State} {cause : Cause}

theorem foldlm_eq_error_iff : items.foldlM step start = .error cause ↔
    ∃ earlier item later reached, items = earlier ++ item :: later ∧
      earlier.foldlM step start = .ok reached ∧ step reached item = .error cause := by
  constructor
  · intro ended
    induction items generalizing start with
    | nil => cases ended
    | cons item rest induction =>
        rw [List.foldlM_cons] at ended
        cases went : step start item with
        | error first =>
            simp only [went, bind, Except.bind] at ended
            exact ⟨[], item, rest, start, rfl, rfl, went.trans ended⟩
        | ok next =>
            simp only [went, bind, Except.bind] at ended
            obtain ⟨earlier, last, later, reached, listed, passed, blocked⟩ := induction ended
            refine ⟨item :: earlier, last, later, reached, congrArg (item :: ·) listed, ?_, blocked⟩
            simpa only [List.foldlM_cons, went, bind, Except.bind] using passed
  · intro blocked
    obtain ⟨earlier, item, later, reached, rfl, passed, blocked⟩ := blocked
    simp only [List.foldlM_append, List.foldlM_cons, passed, blocked, bind, Except.bind]

end Fold

section Steps

variable {N : Type}

theorem exists_step_of_mem {path : List N} (several : 2 ≤ path.length) {node : N}
    (member : node ∈ path) : ∃ step ∈ steps path, step.1 = node ∨ step.2 = node := by
  cases path with
  | nil => cases member
  | cons first rest =>
      rcases List.mem_cons.mp member with rfl | later
      · have leaves : node ∈ (steps (node :: rest)).map Prod.fst := by
          cases rest with
          | nil => simp at several
          | cons next rest => simp [steps]
        obtain ⟨step, listed, same⟩ := List.mem_map.mp leaves
        exact ⟨step, listed, .inl same⟩
      · have enters : node ∈ (steps (first :: rest)).map Prod.snd := by
          rwa [steps_map_snd]
        obtain ⟨step, listed, same⟩ := List.mem_map.mp enters
        exact ⟨step, listed, .inr same⟩

end Steps

namespace Graph

open IntegerWeight

variable {N W : Type} [NodeKey N]

section Checked

variable {graph : Graph N W} {path : List N}

theorem mem_nodes_of_joined {source target : N}
    (joined : (graph.weight? source target).isSome = true) :
    source ∈ graph.nodes ∧ target ∈ graph.nodes := by
  obtain ⟨weight, found⟩ := Option.isSome_iff_exists.mp joined
  exact graph.ends_mem _ (weight?_eq_some_iff_mem.mp found)

theorem check_path_eq_ok_iff : graph.checkPath path = .ok () ↔ graph.hasPath path = true := by
  rw [hasPath]
  cases graph.checkPath path with
  | error failure => simp [Except.toOption]
  | ok checked => simp [Except.toOption]

theorem check_path_of_joined (several : 2 ≤ path.length)
    (joined : ∀ step ∈ steps path, (graph.weight? step.1 step.2).isSome = true) :
    graph.checkPath path = .ok () := by
  refine check_path_eq_ok_iff.mpr (has_path_iff.mpr ⟨?_, joined⟩)
  intro node member
  obtain ⟨step, listed, rfl | rfl⟩ := exists_step_of_mem several member
  · exact (mem_nodes_of_joined (joined step listed)).1
  · exact (mem_nodes_of_joined (joined step listed)).2

end Checked

variable [IntegerWeight W]

/-- Steps that can be summed: all of them are edges, and no sum from the first of them on is out of
range. -/
structure Passable (graph : Graph N W) (pairs : List (N × N)) : Prop where
  joined : ∀ step ∈ pairs, (graph.weight? step.1 step.2).isSome = true
  inRange : ∀ first, first <+: pairs → InRange W (first.map graph.stepWeight).sum

/-- Why a sum ends at a step after some earlier ones: there is no such edge, or there is one and its
weight takes the sum out of range. -/
inductive Blocked (graph : Graph N W) (earlier : List (N × N)) (step : N × N) : Failure N W → Prop
  | missing : graph.weight? step.1 step.2 = none →
      Blocked graph earlier step (.missingEdge step.1 step.2)
  | overflow : (graph.weight? step.1 step.2).isSome = true →
      ¬InRange W ((earlier.map graph.stepWeight).sum + graph.stepWeight step) →
        Blocked graph earlier step .arithmeticOverflow

variable {graph : Graph N W} {path : List N} {pairs : List (N × N)} {start sum : W}
  {failure : Failure N W}

section Step

variable {earlier : List (N × N)} {step : N × N}
  (exact : toInt start = (earlier.map graph.stepWeight).sum)
include exact

theorem Blocked.add_step_eq (blocked : graph.Blocked earlier step failure) :
    graph.addStep start step = .error failure := by
  cases blocked with
  | missing unjoined =>
      rw [addStep, requireEdge, unjoined]
      rfl
  | overflow joined outside =>
      obtain ⟨weight, found⟩ := Option.isSome_iff_exists.mp joined
      have weighs : graph.stepWeight step = toInt weight := by
        rw [stepWeight, found, Option.getD_some]
      have added : Weight.tryAdd start weight = none := by
        rw [← exact, weighs, ← try_add_is_some_iff] at outside
        simpa using outside
      simp only [addStep, requireEdge, found, added, bind, Except.bind]

theorem exists_blocked : (∃ sum, graph.addStep start step = .ok sum) ∨
    ∃ failure, graph.Blocked earlier step failure := by
  by_cases joined : (graph.weight? step.1 step.2).isSome = true
  · by_cases inside : InRange W ((earlier.map graph.stepWeight).sum + graph.stepWeight step)
    · obtain ⟨sum, added⟩ := inside
      exact .inl ⟨sum, add_step_eq_ok_iff.mpr ⟨joined, exact ▸ added⟩⟩
    · exact .inr ⟨_, .overflow joined inside⟩
  · exact .inr ⟨_, .missing (by simpa using joined)⟩

theorem add_step_eq_error_iff :
    graph.addStep start step = .error failure ↔ graph.Blocked earlier step failure := by
  constructor
  · intro ended
    rcases exists_blocked exact with taken | blocked
    · obtain ⟨sum, went⟩ := taken
      cases went.symm.trans ended
    · obtain ⟨cause, blocked⟩ := blocked
      obtain rfl := Except.error.inj ((blocked.add_step_eq exact).symm.trans ended)
      exact blocked
  · exact fun blocked => blocked.add_step_eq exact

end Step

theorem foldlm_add_step_zero_eq_ok_iff : pairs.foldlM graph.addStep 0 = .ok sum ↔
    graph.Passable pairs ∧ toInt sum = (pairs.map graph.stepWeight).sum := by
  rw [foldlm_add_step_eq_ok_iff, to_int_zero]
  simp only [Int.zero_add]
  constructor
  · intro summed
    exact ⟨⟨summed.1, summed.2.1⟩, summed.2.2⟩
  · intro summed
    exact ⟨summed.1.joined, summed.1.inRange, summed.2⟩

theorem Passable.exists_sum (passable : graph.Passable pairs) :
    ∃ sum, pairs.foldlM graph.addStep 0 = .ok sum ∧
      toInt sum = (pairs.map graph.stepWeight).sum := by
  obtain ⟨sum, exact⟩ := passable.inRange pairs List.prefix_rfl
  exact ⟨sum, foldlm_add_step_zero_eq_ok_iff.mpr ⟨passable, exact⟩, exact⟩

theorem path_distance_eq_ok_iff : graph.pathDistance path = .ok sum ↔
    graph.Passable (steps path) ∧ toInt sum = ((steps path).map graph.stepWeight).sum := by
  rw [path_distance_eq, foldlm_add_step_zero_eq_ok_iff]

theorem path_distance_eq_error_iff : graph.pathDistance path = .error failure ↔
    ∃ earlier step later, steps path = earlier ++ step :: later ∧ graph.Passable earlier ∧
      graph.Blocked earlier step failure := by
  rw [path_distance_eq, foldlm_eq_error_iff]
  constructor
  · intro ended
    obtain ⟨earlier, step, later, reached, listed, passed, ended⟩ := ended
    obtain ⟨passable, exact⟩ := foldlm_add_step_zero_eq_ok_iff.mp passed
    exact ⟨earlier, step, later, listed, passable, (add_step_eq_error_iff exact).mp ended⟩
  · intro ended
    obtain ⟨earlier, step, later, listed, passable, blocked⟩ := ended
    obtain ⟨reached, passed, exact⟩ := passable.exists_sum
    exact ⟨earlier, step, later, reached, listed, passed, (add_step_eq_error_iff exact).mpr blocked⟩

theorem find?_of_path_distance {source target : N}
    (ended : graph.pathDistance path = .error (.missingEdge source target)) :
    ((steps path).find? fun step => (graph.weight? step.1 step.2).isNone) =
      some (source, target) := by
  obtain ⟨earlier, step, later, listed, passable, blocked⟩ := path_distance_eq_error_iff.mp ended
  cases blocked with
  | missing unjoined =>
      have noneBefore : (earlier.find? fun step => (graph.weight? step.1 step.2).isNone) = none := by
        rw [List.find?_eq_none]
        intro other member
        rw [← Option.not_isSome, passable.joined other member]
        decide
      rw [listed, List.find?_append, noneBefore, Option.none_or]
      exact List.find?_cons_of_pos (by rw [unjoined, Option.isNone_none])

/-- Measuring a path gives the exact sum, or the error of the first step that is missing or takes the sum
out of range. A path that passes the check misses no edge; one of two or more nodes that does not pass
has no distance, and if measuring it reports a missing edge, then the first one. -/
theorem path_distance_outcome (graph : Graph N W) (path : List N) :
    (∀ sum, graph.pathDistance path = .ok sum ↔
      graph.Passable (steps path) ∧ toInt sum = ((steps path).map graph.stepWeight).sum) ∧
    (∀ failure, graph.pathDistance path = .error failure ↔
      ∃ earlier step later, steps path = earlier ++ step :: later ∧ graph.Passable earlier ∧
        graph.Blocked earlier step failure) ∧
    (graph.checkPath path = .ok () → ∀ source target,
      graph.pathDistance path ≠ .error (.missingEdge source target)) ∧
    (2 ≤ path.length → graph.checkPath path ≠ .ok () →
      (∀ sum, graph.pathDistance path ≠ .ok sum) ∧
      ∀ source target, graph.pathDistance path = .error (.missingEdge source target) →
        ((steps path).find? fun step => (graph.weight? step.1 step.2).isNone) =
          some (source, target)) := by
  refine ⟨fun _ => path_distance_eq_ok_iff, fun _ => path_distance_eq_error_iff, ?_, ?_⟩
  · intro checked source target ended
    have joined := (has_path_iff.mp (check_path_eq_ok_iff.mp checked)).2
    have found := find?_of_path_distance ended
    have unjoined := List.find?_some found
    have passes := joined _ (List.mem_of_find?_eq_some found)
    rw [← Option.not_isSome, passes] at unjoined
    cases unjoined
  · intro several refused
    refine ⟨?_, fun _ _ => find?_of_path_distance⟩
    intro sum measured
    obtain ⟨passable, -⟩ := path_distance_eq_ok_iff.mp measured
    exact refused (check_path_of_joined several passable.joined)

/-- The first path passes the check but overflows on its way; the second one names an unknown node, and
its distance is refused for the missing edge to that node. -/
theorem path_distance_outcome_detours :
    let graph : Graph Int Int32 := ofEdges [⟨1, 2, 2147483647⟩, ⟨2, 3, 1⟩, ⟨3, 1, -7⟩]
    graph.pathDistance [1, 2, 3, 1] = .error .arithmeticOverflow ∧
      (∀ source target, graph.pathDistance [1, 2, 3, 1] ≠ .error (.missingEdge source target)) ∧
      graph.checkPath [2, 3, 1, 9, 2] = .error (.nodeNotFound 9) ∧
      (∀ sum, graph.pathDistance [2, 3, 1, 9, 2] ≠ .ok sum) ∧
      ((steps [2, 3, 1, 9, 2]).find? fun step => (graph.weight? step.1 step.2).isNone) =
        some (1, 9) := by
  intro graph
  have refused : graph.checkPath [2, 3, 1, 9, 2] = .error (.nodeNotFound 9) := by decide +kernel
  have notOk : graph.checkPath [2, 3, 1, 9, 2] ≠ .ok () := by
    rw [refused]
    simp
  have unmeasured := (path_distance_outcome graph [2, 3, 1, 9, 2]).2.2.2 (by decide) notOk
  refine ⟨by decide +kernel, ?_, refused, unmeasured.1, unmeasured.2 1 9 (by decide +kernel)⟩
  exact (path_distance_outcome graph [1, 2, 3, 1]).2.2.1 (by decide +kernel)

end Graph

end FlowTour
