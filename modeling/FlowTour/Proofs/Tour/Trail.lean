import FlowTour.Proofs.Tour.RoundTrip
import FlowTour.Tour.NearestNeighbor

/-!
Trails on their way to a round trip. A trail from the start visits no node twice and follows edges;
the nodes it has not visited are those a round trip that extends it still goes through. The
nearest-neighbour walk, when it comes to its end, is a round trip of the length reported for it.
-/

namespace FlowTour.Tour

open IntegerWeight

variable {n : Nat} {W : Type}

namespace Trail

variable (trail : Trail n) (node : Fin n)

theorem nodes_extend : (trail.extend node).nodes = trail.nodes ++ [node] :=
  List.reverse_cons

@[simp] theorem length_extend : (trail.extend node).length = trail.length + 1 := rfl

@[simp] theorem length_nodes : trail.nodes.length = trail.length := by
  rw [nodes, List.length_reverse, List.length_cons, length]

theorem get_last?_nodes : trail.nodes.getLast? = some trail.last := by
  rw [nodes, List.getLast?_reverse]
  rfl

theorem mem_remaining : node ∈ trail.remaining ↔ node ∉ trail.nodes := by
  simp [remaining, visits, nodes, and_comm]

theorem nodup_remaining : trail.remaining.Nodup :=
  (List.nodup_finRange n).filter _

theorem nodup_cons_remaining {trail : Trail n} {node : Fin n} (visited : node ∈ trail.nodes) :
    (node :: trail.remaining).Nodup := by
  rw [List.nodup_cons, mem_remaining, not_not]
  exact ⟨visited, trail.nodup_remaining⟩

/-- A round trip that extends a trail goes on through just the nodes it has not visited. -/
theorem perm_remaining {trail : Trail n} {rest : List (Fin n)}
    (perm : (trail.nodes ++ rest).Perm (List.finRange n)) : rest.Perm trail.remaining := by
  have distinct := perm.nodup_iff.mpr (List.nodup_finRange n)
  rw [List.nodup_append] at distinct
  rw [List.perm_ext_iff_of_nodup distinct.2.1 trail.nodup_remaining]
  intro node
  rw [mem_remaining]
  constructor
  · intro later visited
    exact distinct.2.2 node visited node later rfl
  · intro unvisited
    have member := perm.mem_iff.mpr (List.mem_finRange node)
    exact (List.mem_append.mp member).resolve_left unvisited

theorem perm_append_remaining {trail : Trail n} (distinct : trail.nodes.Nodup) :
    (trail.nodes ++ trail.remaining).Perm (List.finRange n) := by
  rw [List.perm_ext_iff_of_nodup _ (List.nodup_finRange n)]
  · intro node
    rw [List.mem_append, mem_remaining]
    simp [em]
  · rw [List.nodup_append]
    refine ⟨distinct, trail.nodup_remaining, ?_⟩
    rintro node visited other later rfl
    exact (trail.mem_remaining node).mp later visited

theorem length_add_length_remaining {trail : Trail n} (distinct : trail.nodes.Nodup) :
    trail.length + trail.remaining.length = n := by
  have size := (perm_append_remaining distinct).length_eq
  rwa [List.length_append, length_nodes, List.length_finRange] at size

theorem mem_remaining_extend {trail : Trail n} {node other : Fin n} :
    other ∈ (trail.extend node).remaining ↔ other ∈ trail.remaining ∧ other ≠ node := by
  rw [mem_remaining, mem_remaining, nodes_extend, List.mem_append, List.mem_singleton, not_or]

theorem perm_remaining_extend {trail : Trail n} {node : Fin n} (fresh : node ∈ trail.remaining) :
    (node :: (trail.extend node).remaining).Perm trail.remaining := by
  have visited : node ∈ (trail.extend node).nodes := by
    rw [nodes_extend]
    exact List.mem_append_right _ (List.mem_singleton.mpr rfl)
  rw [List.perm_ext_iff_of_nodup (nodup_cons_remaining visited) trail.nodup_remaining]
  intro other
  rw [List.mem_cons, mem_remaining_extend]
  by_cases same : other = node
  · simp [same, fresh]
  · simp [same]

/-- A trail from the start along edges that visits no node twice. -/
structure IsPath (distances : Distances n W) (start : Fin n) (trail : Trail n) : Prop where
  head : trail.nodes.head? = some start
  nodup : trail.nodes.Nodup
  joins : distances.Joins (steps trail.nodes)

variable {distances : Distances n W} {start : Fin n} {trail node}

theorem is_path_single (distances : Distances n W) (start : Fin n) :
    IsPath distances start ⟨start, []⟩ where
  head := rfl
  nodup := List.nodup_singleton start
  joins := by simp [Distances.Joins, nodes, steps]

theorem IsPath.length_lt (isPath : IsPath distances start trail) (unfinished : trail.length ≠ n) :
    trail.length < n := by
  have size := length_add_length_remaining isPath.nodup
  omega

theorem steps_extend : steps (trail.extend node).nodes = steps trail.nodes ++ [(trail.last, node)] := by
  rw [nodes_extend]
  exact steps_concat node trail.get_last?_nodes

theorem IsPath.extend (isPath : IsPath distances start trail) (fresh : node ∈ trail.remaining)
    (joined : (distances.get trail.last node).isSome = true) :
    IsPath distances start (trail.extend node) where
  head := by
    rw [nodes_extend, List.head?_append, isPath.head]
    rfl
  nodup := by
    rw [nodes_extend, ← List.concat_eq_append, List.nodup_concat]
    exact ⟨(trail.mem_remaining node).mp fresh, isPath.nodup⟩
  joins := by
    rw [steps_extend]
    intro step member
    rcases List.mem_append.mp member with earlier | last
    · exact isPath.joins step earlier
    · rw [List.mem_singleton.mp last]
      exact joined

end Trail

section NearestNeighbor

variable [Weight W] {distances : Distances n W} {start origin node : Fin n} {trail final : Trail n}

theorem foldl_choose_mem {Item : Type} (prefers : Item → Item → Prop) [DecidableRel prefers]
    (items : List Item) (first : Item) :
    items.foldl (fun best next => if prefers best next then best else next) first ∈
      first :: items := by
  induction items generalizing first with
  | nil => exact List.mem_singleton.mpr rfl
  | cons item rest induction =>
      rw [List.foldl_cons]
      split
      · rcases List.mem_cons.mp (induction first) with same | later
        · rw [same]
          exact List.mem_cons_self ..
        · exact List.mem_cons_of_mem _ (List.mem_cons_of_mem _ later)
      · exact List.mem_cons_of_mem _ (induction item)

theorem closest?_eq_some {candidates : List (Fin n)}
    (found : closest? distances origin candidates = some node) :
    node ∈ candidates ∧ (distances.get origin node).isSome = true := by
  unfold closest? at found
  dsimp only at found
  split at found
  · cases found
  · next first rest listed =>
    have chosen := foldl_choose_mem (fun best next : Fin n × W => best.2 ≤ next.2) rest first
    rw [← listed] at chosen
    obtain ⟨candidate, member, shown⟩ := List.mem_filterMap.mp chosen
    obtain ⟨weight, joined, same⟩ := Option.map_eq_some_iff.mp shown
    obtain rfl : candidate = node := (congrArg Prod.fst same).trans (Option.some.inj found)
    exact ⟨member, by rw [joined]; rfl⟩

theorem nearest_from?_eq_some {steps : Nat} (isPath : Trail.IsPath distances start trail)
    (found : nearestFrom? distances steps trail = some final) :
    Trail.IsPath distances start final ∧ final.length = trail.length + steps := by
  induction steps generalizing trail with
  | zero =>
      obtain rfl := Option.some.inj found
      exact ⟨isPath, rfl⟩
  | succ steps induction =>
      obtain ⟨node, closest, onward⟩ := Option.bind_eq_some_iff.mp found
      obtain ⟨fresh, joined⟩ := closest?_eq_some closest
      obtain ⟨finalPath, length⟩ := induction (isPath.extend fresh joined) onward
      refine ⟨finalPath, ?_⟩
      rw [length, Trail.length_extend]
      omega

theorem Trail.perm_of_length_eq (distinct : trail.nodes.Nodup) (full : trail.length = n) :
    trail.nodes.Perm (List.finRange n) := by
  have none : trail.remaining = [] := by
    apply List.eq_nil_of_length_eq_zero
    have size := Trail.length_add_length_remaining distinct
    omega
  rw [List.perm_ext_iff_of_nodup distinct (List.nodup_finRange n)]
  intro node
  have visited : node ∈ trail.nodes := by
    by_contra unvisited
    rw [← trail.mem_remaining, none] at unvisited
    exact List.not_mem_nil unvisited
  exact iff_of_true visited (List.mem_finRange node)

omit [Weight W] in
/-- A trail through all nodes that can return to the start is a round trip. -/
theorem Trail.IsPath.circuit (isPath : Trail.IsPath distances start trail) (full : trail.length = n)
    (back : (distances.get trail.last start).isSome = true) :
    distances.Circuit start trail.nodes where
  head := isPath.head
  perm := trail.perm_of_length_eq isPath.nodup full
  joins := by
    rw [round_steps_of_head isPath.head, steps_concat start trail.get_last?_nodes]
    intro step member
    rcases List.mem_append.mp member with inside | last
    · exact isPath.joins step inside
    · rw [List.mem_singleton.mp last]
      exact back

theorem nearest_neighbor?_eq_some {stops : List (Fin n)} (several : 1 < n)
    (found : nearestNeighbor? distances start = some stops) : distances.Circuit start stops := by
  obtain ⟨trail, walked, returning⟩ := Option.bind_eq_some_iff.mp found
  obtain ⟨isPath, length⟩ := nearest_from?_eq_some (Trail.is_path_single distances start) walked
  split at returning
  · next ends =>
    obtain rfl := Option.some.inj returning
    apply isPath.circuit
    · have single : (⟨start, []⟩ : Trail n).length = 1 := rfl
      rw [single] at length
      omega
    · rcases ends with single | back
      · omega
      · exact back
  · cases returning

end NearestNeighbor

end FlowTour.Tour
