import FlowTour.Proofs.Tour.BestFirst
import FlowTour.Proofs.Tour.Feasibility

/-!
Everything the search ever puts on its frontier. What is on the frontier and what has been taken off
it is, together, what was put there; so a path that was put there once is taken off at most once, and
its extensions, which differ in their last node, are put there at most once. Neither the bounds nor
the budget have a say in this: the weights may compare in any way at all.
-/

namespace FlowTour.Tour

open scoped List

variable {n : Nat} {W Cause : Type} [Weight W] {distances : Distances n W} {start : Fin n}
  {budget : Option Nat} {search before after next : Search n W} {taken : Partial n W}
  {frontier : Heap (Partial n W)} {longer : List (Partial n W)}

section Trails

variable {trail other : Trail n} {node otherNode : Fin n}

theorem Trail.extend_inj (same : trail.extend node = other.extend otherNode) :
    trail = other ∧ node = otherNode := by
  cases trail
  cases other
  simpa [extend, and_comm, and_assoc] using same

theorem Trail.nodes_injective : Function.Injective (Trail.nodes (n := n)) := by
  rintro ⟨last, earlier⟩ ⟨otherLast, otherEarlier⟩ same
  simpa [nodes, and_comm] using same

theorem several_of_lower_bound? {bound : W}
    (bounded : lowerBound? distances start ⟨start, []⟩ 0 = some bound) : 1 < n := by
  have size := Trail.length_add_length_remaining (Trail.is_path_single distances start).nodup
  have single : (⟨start, []⟩ : Trail n).length = 1 := rfl
  obtain ⟨leaving, found, -⟩ := lower_bound?_eq_some_iff.mp bounded
  rw [leavingBound?, sumLeaving, result?_add_shares] at found
  obtain ⟨first, least, -⟩ := Option.bind_eq_some_iff.mp found
  cases ahead : (⟨start, []⟩ : Trail n).remaining with
  | nil =>
      rw [ahead] at least
      cases least
  | cons node rest =>
      rw [ahead, List.length_cons] at size
      omega

end Trails

section Refilling

def refill (frontier : Heap (Partial n W)) (longer : List (Partial n W)) : Heap (Partial n W) :=
  longer.foldl (Heap.push Partial.below) frontier

theorem listed_refill (frontier : Heap (Partial n W)) (longer : List (Partial n W)) :
    (refill frontier longer).listed.Perm (longer ++ frontier.listed) := by
  induction longer generalizing frontier with
  | nil => exact .refl _
  | cons path rest induction =>
      have pushed := Heap.push_perm Partial.below frontier path
      exact (induction _).trans ((pushed.append_left rest).trans List.perm_middle)

/-- Distinct extensions of a trail by one node along an edge, none of them a round trip yet. -/
structure Branches (distances : Distances n W) (trail : Trail n) (longer : List (Partial n W)) :
    Prop where
  distinct : (longer.map Partial.trail).Nodup
  extension : ∀ path ∈ longer, ∃ node ∈ trail.remaining, path.trail = trail.extend node ∧
    (distances.get trail.last node).isSome = true ∧ path.trail.length ≠ n

omit [Weight W] in
theorem Branches.none (distances : Distances n W) (trail : Trail n) :
    Branches distances trail [] := ⟨List.nodup_nil, nofun⟩

omit [Weight W] in
theorem Branches.perm {trail : Trail n} {others : List (Partial n W)}
    (branches : Branches distances trail longer) (perm : others.Perm longer) :
    Branches distances trail others where
  distinct := (perm.map _).nodup_iff.mpr branches.distinct
  extension path member := branches.extension path (perm.mem_iff.mp member)

omit [Weight W] in
theorem Branches.is_path {trail : Trail n} (branches : Branches distances trail longer)
    (isPath : trail.IsPath distances start) {path : Partial n W} (member : path ∈ longer) :
    path.trail.IsPath distances start ∧ path.trail.length < n ∧
      ∃ node, path.trail = trail.extend node := by
  obtain ⟨node, fresh, extended, joined, unfinished⟩ := branches.extension path member
  have longerPath : path.trail.IsPath distances start := extended ▸ isPath.extend fresh joined
  exact ⟨longerPath, longerPath.length_lt unfinished, node, extended⟩

theorem BranchSteps.exists_branches {nodes : List (Fin n)} (distinct : nodes.Nodup)
    (fresh : ∀ node ∈ nodes, node ∈ taken.trail.remaining)
    (branched : BranchSteps distances start taken search nodes next) :
    ∃ longer, next.frontier = refill search.frontier longer ∧
      Branches distances taken.trail longer ∧
      ∀ path ∈ longer, ∃ node ∈ nodes, path.trail = taken.trail.extend node := by
  induction branched with
  | nil search => exact ⟨[], rfl, .none .., nofun⟩
  | @cons search middle final node nodes first others induction =>
      obtain ⟨unlisted, distinct⟩ := List.nodup_cons.mp distinct
      obtain ⟨longer, refilled, branches, among⟩ := induction distinct
        (fun other member => fresh other (List.mem_cons_of_mem _ member))
      have later : ∀ path ∈ longer, ∃ other ∈ node :: nodes,
          path.trail = taken.trail.extend other := by
        intro path member
        obtain ⟨other, listed, same⟩ := among path member
        exact ⟨other, List.mem_cons_of_mem _ listed, same⟩
      cases first with
      | @pushed weight bound joined unfinished bounded beating =>
          refine ⟨_ :: longer, refilled, ⟨?_, ?_⟩, ?_⟩
          · rw [List.map_cons, List.nodup_cons]
            refine ⟨fun again => ?_, branches.distinct⟩
            obtain ⟨path, member, same⟩ := List.mem_map.mp again
            obtain ⟨other, listed, extended⟩ := among path member
            obtain ⟨-, rfl⟩ := Trail.extend_inj (extended.symm.trans same)
            exact unlisted listed
          · intro path member
            rcases List.mem_cons.mp member with rfl | member
            · exact ⟨node, fresh node (List.mem_cons_self ..), rfl, by rw [joined]; rfl, unfinished⟩
            · exact branches.extension path member
          · intro path member
            rcases List.mem_cons.mp member with rfl | member
            · exact ⟨node, List.mem_cons_self .., rfl⟩
            · exact later path member
      | _ => exact ⟨longer, refilled, branches, later⟩

theorem ExpandStep.exists_branches (step : ExpandStep distances start budget search (some next)) :
    ∃ taken frontier longer, search.frontier.pop? Partial.below = some (taken, frontier) ∧
      next.frontier = refill frontier longer ∧ Branches distances taken.trail longer := by
  cases step with
  | discarded running popped notBeating => exact ⟨_, _, [], popped, rfl, .none ..⟩
  | cutShort running popped beating limited spent => exact ⟨_, _, [], popped, rfl, .none ..⟩
  | @expanded taken frontier final running popped beating unspent branched =>
      obtain ⟨longer, refilled, branches, -⟩ :=
        branched.exists_branches taken.trail.nodup_remaining (fun _ member => member)
      exact ⟨taken, frontier, longer, popped, refilled, branches⟩

theorem ExpandStep.branches (step : ExpandStep distances start budget search (some next))
    (popped : search.frontier.pop? Partial.below = some (taken, frontier))
    (refilled : next.frontier = refill frontier longer) : Branches distances taken.trail longer := by
  obtain ⟨first, rest, others, poppedFirst, refilledOthers, branches⟩ := step.exists_branches
  obtain ⟨rfl, rfl⟩ := Prod.mk.inj (Option.some.inj (popped.symm.trans poppedFirst))
  apply branches.perm
  have listed := (listed_refill frontier longer).symm
  rw [← refilled, refilledOthers] at listed
  exact (List.perm_append_right_iff _).mp (listed.trans (listed_refill frontier others))

end Refilling

section Pushes

/-- What the search has put on the frontier by branching on its way to a state, each path with the
trail that it was branched off. -/
inductive Pushes (Cause : Type) (distances : Distances n W) (start : Fin n) (budget : Option Nat) :
    List (Trail n × Partial n W) → Search n W → Prop
  | first : Pushes Cause distances start budget [] (initialSearch distances start)
  | next {pushed : List (Trail n × Partial n W)} {before after : Search n W}
      {taken : Partial n W} {frontier : Heap (Partial n W)} {longer : List (Partial n W)}
      (earlier : Pushes Cause distances start budget pushed before)
      (stepped : (expand distances start budget before :
        Traced (Progress W) Cause (Option (Search n W))).outcome = .ok (some after))
      (popped : before.frontier.pop? Partial.below = some (taken, frontier))
      (refilled : after.frontier = refill frontier longer) :
      Pushes Cause distances start budget
        (pushed ++ longer.map fun path => (taken.trail, path)) after

theorem Leads.exists_pushes
    (leads : Leads Cause distances start budget (initialSearch distances start) search) :
    ∃ pushed, Pushes Cause distances start budget pushed search := by
  induction leads with
  | first => exact ⟨[], .first⟩
  | next earlier stepped induction =>
      obtain ⟨pushed, pushes⟩ := induction
      obtain ⟨taken, frontier, longer, popped, refilled, -⟩ :=
        (expand_step_of_expand stepped).exists_branches
      exact ⟨_, pushes.next stepped popped refilled⟩

variable {pushed : List (Trail n × Partial n W)}

/-- The trails of all paths that have been on the frontier, given those put there by branching. -/
def everPushed (distances : Distances n W) (start : Fin n) (pushed : List (Trail n × Partial n W)) :
    List (Trail n) :=
  ((initialSearch distances start).frontier.listed ++ pushed.map Prod.snd).map Partial.trail

theorem ever_pushed_append (trail : Trail n) (longer : List (Partial n W)) :
    everPushed distances start (pushed ++ longer.map fun path => (trail, path)) =
      everPushed distances start pushed ++ longer.map Partial.trail := by
  simp [everPushed, Function.comp_def]

/-- The record of a search, with the trails that have been taken off the frontier: together with the
frontier they make up what was put there, and only they have been branched on. -/
structure Accounted (distances : Distances n W) (start : Fin n)
    (pushed : List (Trail n × Partial n W)) (spent : List (Trail n)) (search : Search n W) :
    Prop where
  isPath : ∀ path ∈ search.frontier.listed,
    path.trail.IsPath distances start ∧ path.trail.length < n
  longer : ∀ push ∈ pushed, push.1.IsPath distances start ∧
    push.2.trail.IsPath distances start ∧ ∃ node, push.2.trail = push.1.extend node
  origin : ∀ push ∈ pushed, push.1 ∈ spent
  balance : (search.frontier.listed.map Partial.trail ++ spent).Perm
    (everPushed distances start pushed)
  distinct : (everPushed distances start pushed).Nodup

theorem Accounted.initial (distances : Distances n W) (start : Fin n) :
    Accounted distances start [] [] (initialSearch distances start) where
  isPath path member := by
    obtain ⟨bounded, same⟩ := mem_initial_search member
    rw [same]
    exact ⟨Trail.is_path_single distances start, several_of_lower_bound? bounded⟩
  longer := nofun
  origin := nofun
  balance := by rw [everPushed, List.map_nil, List.append_nil, List.append_nil]
  distinct := by
    rw [everPushed, listed_initial_search]
    cases lowerBound? distances start ⟨start, []⟩ 0 <;> simp

variable {spent : List (Trail n)}

/-- An extension of the path just taken was never put on the frontier: that path would have been
taken before. -/
theorem Accounted.fresh (accounted : Accounted distances start pushed spent search)
    (popped : search.frontier.pop? Partial.below = some (taken, frontier)) (node : Fin n) :
    taken.trail.extend node ∉ everPushed distances start pushed := by
  intro again
  obtain ⟨path, member, same⟩ := List.mem_map.mp again
  rcases List.mem_append.mp member with initial | branched
  · rw [(mem_initial_search initial).2] at same
    cases same
  · obtain ⟨push, listed, rfl⟩ := List.mem_map.mp branched
    obtain ⟨-, -, other, extended⟩ := accounted.longer push listed
    obtain ⟨sameOrigin, -⟩ := Trail.extend_inj (extended.symm.trans same)
    have takenBefore : taken.trail ∈ spent := sameOrigin ▸ accounted.origin push listed
    have onFrontier : taken.trail ∈ search.frontier.listed.map Partial.trail :=
      List.mem_map_of_mem ((Heap.mem_pop? _ popped).mpr (.inl rfl))
    have apart := (List.nodup_append.mp (accounted.balance.nodup_iff.mpr accounted.distinct)).2.2
    exact apart _ onFrontier _ takenBefore rfl

omit [Weight W] in
/-- Taking a trail off a list and adding others keeps the balance of what is there, what has been
taken off and what was ever added. -/
theorem balanced_refill {listed rest refilled added ever : List (Trail n)} {trail : Trail n}
    (popped : listed ~ trail :: rest) (pushed : refilled ~ added ++ rest)
    (balance : listed ++ spent ~ ever) : refilled ++ trail :: spent ~ ever ++ added :=
  calc refilled ++ trail :: spent
    _ ~ (added ++ rest) ++ trail :: spent := pushed.append_right _
    _ ~ trail :: ((added ++ rest) ++ spent) := List.perm_middle
    _ = trail :: (added ++ (rest ++ spent)) := by rw [List.append_assoc]
    _ ~ added ++ (trail :: rest ++ spent) := List.perm_middle.symm
    _ ~ added ++ (listed ++ spent) := (popped.symm.append_right spent).append_left _
    _ ~ added ++ ever := balance.append_left _
    _ ~ ever ++ added := List.perm_append_comm

theorem Accounted.expand (accounted : Accounted distances start pushed spent before)
    (popped : before.frontier.pop? Partial.below = some (taken, frontier))
    (branches : Branches distances taken.trail longer)
    (refilled : after.frontier = refill frontier longer) :
    Accounted distances start (pushed ++ longer.map fun path => (taken.trail, path))
      (taken.trail :: spent) after := by
  have takenPath := (accounted.isPath taken ((Heap.mem_pop? _ popped).mpr (.inl rfl))).1
  have listed : after.frontier.listed.Perm (longer ++ frontier.listed) :=
    refilled ▸ listed_refill frontier longer
  refine ⟨?_, ?_, ?_, ?_, ?_⟩
  · intro path member
    rcases List.mem_append.mp (listed.mem_iff.mp member) with new | old
    · obtain ⟨isPath, short, -⟩ := branches.is_path takenPath new
      exact ⟨isPath, short⟩
    · exact accounted.isPath path ((Heap.mem_pop? _ popped).mpr (.inr old))
  · intro push member
    rcases List.mem_append.mp member with old | new
    · exact accounted.longer push old
    · obtain ⟨path, branched, rfl⟩ := List.mem_map.mp new
      obtain ⟨isPath, -, extended⟩ := branches.is_path takenPath branched
      exact ⟨takenPath, isPath, extended⟩
  · intro push member
    rcases List.mem_append.mp member with old | new
    · exact List.mem_cons_of_mem _ (accounted.origin push old)
    · obtain ⟨path, -, rfl⟩ := List.mem_map.mp new
      exact List.mem_cons_self ..
  · rw [ever_pushed_append]
    exact balanced_refill ((Heap.pop?_perm _ popped).map _) (by simpa using listed.map Partial.trail)
      accounted.balance
  · rw [ever_pushed_append, List.nodup_append]
    refine ⟨accounted.distinct, branches.distinct, ?_⟩
    rintro trail old other new rfl
    obtain ⟨path, member, rfl⟩ := List.mem_map.mp new
    obtain ⟨-, -, node, extended⟩ := branches.is_path takenPath member
    exact accounted.fresh popped node (extended ▸ old)

theorem Pushes.accounted (pushes : Pushes Cause distances start budget pushed search) :
    ∃ spent, Accounted distances start pushed spent search := by
  induction pushes with
  | first => exact ⟨[], .initial distances start⟩
  | next earlier stepped popped refilled induction =>
      obtain ⟨spent, accounted⟩ := induction
      have branches := (expand_step_of_expand stepped).branches popped refilled
      exact ⟨_, accounted.expand popped branches refilled⟩

end Pushes

section Ending

/-- The loop comes to a state in which nothing is left to do, and that is where the run ends. -/
theorem run_search_ends (distances : Distances n W) (start : Fin n) (budget : Option Nat) :
    ∃ final, Leads Cause distances start budget (initialSearch distances start) final ∧
      (expand distances start budget final :
        Traced (Progress W) Cause (Option (Search n W))).outcome = .ok none ∧
      (runSearch distances start budget :
        Traced (Progress W) Cause (Search n W)).outcome = .ok final := by
  obtain ⟨final, ran⟩ : ∃ final, (runSearch distances start budget :
      Traced (Progress W) Cause (Search n W)).outcome = .ok final :=
    run_search_answers distances start budget
  have kept : ∀ before after : Search n W,
      Leads Cause distances start budget (initialSearch distances start) before →
      (expand distances start budget before :
        Traced (Progress W) Cause (Option (Search n W))).outcome = .ok (some after) →
        Leads Cause distances start budget (initialSearch distances start) after ∧
          frontierPaths after < frontierPaths before := by
    intro before after leads stepped
    obtain ⟨pushed, pushes⟩ := leads.exists_pushes
    obtain ⟨spent, accounted⟩ := pushes.accounted
    refine ⟨.next leads stepped, (expand_step_of_expand stepped).frontier_paths_lt ?_⟩
    exact fun path member =>
      ⟨(accounted.isPath path member).1.nodup, (accounted.isPath path member).2⟩
  have paths := frontier_paths_initial_search distances start
  obtain ⟨leads, ended⟩ := Answering.ofTraced.iterate_ends frontierPaths kept .first
    (by omega) (run_search_eq_ok_iff.mp ran)
  exact ⟨final, leads, ended, ran⟩

theorem Pushes.is_path {pushed : List (Trail n × Partial n W)}
    (pushes : Pushes Cause distances start budget pushed search)
    {push : Trail n × Partial n W} (member : push ∈ pushed) :
    push.1.IsPath distances start ∧ push.2.trail.IsPath distances start ∧
      ∃ node, push.2.trail.nodes = push.1.nodes ++ [node] := by
  obtain ⟨spent, accounted⟩ := pushes.accounted
  obtain ⟨origin, isPath, node, extended⟩ := accounted.longer push member
  exact ⟨origin, isPath, node, extended ▸ Trail.nodes_extend ..⟩

theorem Pushes.mem_ever_pushed {pushed : List (Trail n × Partial n W)}
    (pushes : Pushes Cause distances start budget pushed search) {path : Partial n W}
    (member : path ∈ search.frontier.listed) : path.trail ∈ everPushed distances start pushed := by
  obtain ⟨spent, accounted⟩ := pushes.accounted
  exact accounted.balance.mem_iff.mp (List.mem_append_left _ (List.mem_map_of_mem member))

theorem Pushes.nodup {pushed : List (Trail n × Partial n W)}
    (pushes : Pushes Cause distances start budget pushed search) :
    ((everPushed distances start pushed).map Trail.nodes).Nodup := by
  obtain ⟨spent, accounted⟩ := pushes.accounted
  exact accounted.distinct.map Trail.nodes_injective

end Ending

section Graphs

variable {N : Type} [NodeKey N]

/-- The search of a graph ends, whatever its weights and its budget, and its result is read off the
state in which nothing is left to do. It starts with the path of the first node alone on the frontier;
whatever is put there later is a path from the first node, one node longer than the path that it was
branched off; and no path is put there twice. -/
theorem search_never_repeats (graph : Graph N W) (filled : 0 < graph.nodeCount)
    (distances : Distances graph.nodeCount W)
    (accepted : Distances.ofGraph graph = .ok distances) (budget : Option Nat) :
    (∃ final, Leads (Failure N W) distances ⟨0, filled⟩ budget
        (initialSearch distances ⟨0, filled⟩) final ∧
      (expand distances ⟨0, filled⟩ budget final : Traced (Progress W) (Failure N W)
        (Option (Search graph.nodeCount W))).outcome = .ok none ∧
      (1 < graph.nodeCount → (branchAndBound graph budget).outcome =
        match final.incumbent with
        | some (length, stops) => .ok (ofIndices graph length stops (!final.stopped))
        | none => .error (if final.stopped then .searchBudgetExhausted else .noTour))) ∧
    (∀ path ∈ (initialSearch distances ⟨0, filled⟩).frontier.listed,
      path.trail.nodes = [⟨0, filled⟩]) ∧
    (∀ state, Leads (Failure N W) distances ⟨0, filled⟩ budget
        (initialSearch distances ⟨0, filled⟩) state →
      ∃ pushed, Pushes (Failure N W) distances ⟨0, filled⟩ budget pushed state) ∧
    ∀ pushed state, Pushes (Failure N W) distances ⟨0, filled⟩ budget pushed state →
      (∀ path ∈ state.frontier.listed, path.trail ∈ everPushed distances ⟨0, filled⟩ pushed) ∧
      (∀ push ∈ pushed, push.1.IsPath distances ⟨0, filled⟩ ∧
        push.2.trail.IsPath distances ⟨0, filled⟩ ∧
          ∃ node, push.2.trail.nodes = push.1.nodes ++ [node]) ∧
      ((everPushed distances ⟨0, filled⟩ pushed).map Trail.nodes).Nodup := by
  refine ⟨?_, ?_, fun state => Leads.exists_pushes, fun pushed state pushes => ⟨?_, ?_, ?_⟩⟩
  · obtain ⟨final, leads, ended, ran⟩ := run_search_ends distances ⟨0, filled⟩ budget
    exact ⟨final, leads, ended, fun several => branch_and_bound_several accepted filled several ran⟩
  · intro path member
    rw [(mem_initial_search member).2]
    rfl
  · exact fun path member => pushes.mem_ever_pushed member
  · exact fun push member => pushes.is_path member
  · exact pushes.nodup

theorem search_never_repeats_contested : ∃ distances : Distances contested.nodeCount Int32,
    Distances.ofGraph contested = .ok distances ∧ ∃ second pushed,
      Leads (Failure Int Int32) distances ⟨0, by decide⟩ (some 2)
        (initialSearch distances ⟨0, by decide⟩) second ∧
      Pushes (Failure Int Int32) distances ⟨0, by decide⟩ (some 2) pushed second ∧ pushed ≠ [] ∧
      ((everPushed distances ⟨0, by decide⟩ pushed).map Trail.nodes).Nodup := by
  have running : ((Distances.ofGraph contested).toOption.any fun distances =>
      (iterate (expand distances ⟨0, by decide⟩ (some 2)) 1
        (initialSearch distances ⟨0, by decide⟩) : Traced (Progress Int32) (Failure Int Int32)
          (Search contested.nodeCount Int32)).outcome.toOption.any fun second =>
            second.frontier.listed.any fun path => path.trail.length = 2) = true := by
    decide +kernel
  cases table : Distances.ofGraph contested with
  | error failure => simp [table, Except.toOption] at running
  | ok distances =>
      rw [table] at running
      obtain ⟨second, ran, listed⟩ := Traced.exists_ok_of_any running
      obtain ⟨path, member, length⟩ := List.any_eq_true.mp listed
      obtain ⟨-, initial, recorded, kept⟩ :=
        search_never_repeats contested (by decide) distances table (some 2)
      have leads := Traced.passes_of_iterate ran
      obtain ⟨pushed, pushes⟩ := recorded second leads
      obtain ⟨onRecord, -, distinct⟩ := kept pushed second pushes
      refine ⟨distances, rfl, second, pushed, leads, pushes, ?_, distinct⟩
      -- A path of two nodes is not the one that the frontier starts with.
      rintro rfl
      obtain ⟨first, there, same⟩ := List.mem_map.mp (onRecord path member)
      rw [List.map_nil, List.append_nil] at there
      have nodes := initial first there
      rw [same] at nodes
      have short := path.trail.length_nodes
      rw [nodes, of_decide_eq_true length] at short
      cases short

end Graphs

end FlowTour.Tour
