import FlowTour.Proofs.Residual.BreadthFirst
import FlowTour.Proofs.Residual.Conservation

/-!
Why augmenting along paths with the fewest arcs soon ends. A route of the augmented network either
was a route before or is at least two arcs longer than one. So the shortest paths never get shorter;
and while their length stays the same, no link comes to lie on one of them and the exhausted link of
the path just used no longer does. Counting both bounds the number of augmentations.
-/

namespace FlowTour.Residual

variable {n m : Nat} {W : Type} [IntegerWeight W]

/-- The path leads from the start to the target and no route between them is shorter. -/
structure Shortest (network : Residual n m W) (path : List (Arc m)) (start target : Fin n) :
    Prop where
  route : network.Route path start target
  simple : (network.stops path start).Nodup
  length_le : ∀ other, network.Route other start target → path.length ≤ other.length

variable {before after : Residual n m W} {path : List (Arc m)} {start target : Fin n}

theorem shortest_of_augmenting_path? (found : before.augmentingPath? start target = some path) :
    Shortest before path start target := by
  obtain ⟨route, simple, shortest⟩ := before.augmenting_path?_eq_some found
  exact ⟨route, simple, shortest⟩

theorem Shortest.before_le (shortest : Shortest before path start target) {arc : Arc m}
    (member : arc ∈ path) : ∃ front, before.Route front start (before.tail arc) ∧
      ∀ other, before.Route other start (before.head arc) → front.length + 1 ≤ other.length := by
  obtain ⟨front, back, rfl, early, late⟩ := shortest.route.around member
  refine ⟨front, early, ?_⟩
  intro other route
  have bound := shortest.length_le _ (route.append late)
  simp only [List.length_append, List.length_cons] at bound
  omega

/-- What augmenting along a shortest path does to the arcs with capacity. -/
structure Augmented (before after : Residual n m W) (path : List (Arc m)) : Prop where
  links_eq : after.links = before.links
  had_capacity : ∀ arc, after.hasCapacity arc = true →
    before.hasCapacity arc = true ∨ arc.twin ∈ path
  exhausted : ∃ arc ∈ path, ¬after.hasCapacity arc = true

theorem Pushed.augmented {amount : W} (sound : before.Sound)
    (shortest : Shortest before path start target)
    (bottleneck : before.bottleneck path = some amount)
    (pushed : Pushed before after path (IntegerWeight.toInt amount)) :
    Augmented before after path := by
  refine ⟨pushed.links_eq, ?_, ?_⟩
  · intro arc
    exact pushed.had_capacity sound shortest.route.usable
  · obtain ⟨arc, member, residual⟩ := exists_residual_eq_bottleneck bottleneck
    have distinct := links_nodup shortest.route.leads shortest.simple
    exact ⟨arc, member, pushed.exhausted sound distinct member residual⟩

/-- A route after an augmentation was one before, or there was one with at least two arcs fewer. -/
theorem Augmented.older_route (augmented : Augmented before after path)
    (shortest : Shortest before path start target) {walk : List (Arc m)} {node : Fin n}
    (route : after.Route walk start node) :
    before.Route walk start node ∨
      ∃ older, before.Route older start node ∧ older.length + 2 ≤ walk.length := by
  induction walk using List.reverseRecOn generalizing node with
  | nil => exact .inl ⟨route.leads, by simp⟩
  | append_singleton walk arc induction =>
      obtain ⟨toTail, ends⟩ := leads_concat.mp route.leads
      rw [tail_congr augmented.links_eq] at toTail
      rw [head_congr augmented.links_eq] at ends
      have early := induction ⟨toTail, fun other member =>
        route.usable other (List.mem_append_left _ member)⟩
      have capacity := augmented.had_capacity arc (route.usable arc (by simp))
      simp only [List.length_append, List.length_singleton]
      rcases capacity with usable | turned
      · have last := ends ▸ route_single usable
        rcases early with same | ⟨older, olderRoute, shorter⟩
        · exact .inl (same.append last)
        · refine .inr ⟨older ++ [arc], olderRoute.append last, ?_⟩
          simp only [List.length_append, List.length_singleton]
          omega
      · -- The arc undoes one of the path, whose tail is nearer to the start than its head.
        obtain ⟨front, frontRoute, nearest⟩ := shortest.before_le turned
        rw [tail_twin, ends] at frontRoute
        simp only [head_twin] at nearest
        rcases early with same | ⟨older, olderRoute, shorter⟩
        · have := nearest _ same
          exact .inr ⟨front, frontRoute, by omega⟩
        · have := nearest _ olderRoute
          exact .inr ⟨front, frontRoute, by omega⟩

theorem Augmented.length_le (augmented : Augmented before after path)
    (shortest : Shortest before path start target) {walk : List (Arc m)}
    (route : after.Route walk start target) : path.length ≤ walk.length := by
  rcases augmented.older_route shortest route with same | ⟨older, olderRoute, shorter⟩
  · exact shortest.length_le walk same
  · have := shortest.length_le older olderRoute
    omega

open Classical in
noncomputable def routeLinks (network : Residual n m W) (start target : Fin n) (length : Nat) :
    Finset (Fin m) :=
  Finset.univ.filter fun index => ∃ walk, network.Route walk start target ∧
    walk.length = length ∧ index ∈ walk.map Arc.link

theorem mem_route_links {network : Residual n m W} {length : Nat} {index : Fin m} :
    index ∈ network.routeLinks start target length ↔ ∃ walk, network.Route walk start target ∧
      walk.length = length ∧ index ∈ walk.map Arc.link := by
  simp [routeLinks]

theorem card_route_links_le (network : Residual n m W) (start target : Fin n) (length : Nat) :
    (network.routeLinks start target length).card ≤ m :=
  (Finset.card_le_univ _).trans (Fintype.card_fin m).le

/-- A shortest path uses no link in one direction while another uses it in the other one. -/
theorem Shortest.twin_not_mem (shortest : Shortest before path start target) {arc : Arc m}
    (member : arc ∈ path) {walk : List (Arc m)} (route : before.Route walk start target)
    (sameLength : walk.length = path.length) : arc.twin ∉ walk := by
  intro turned
  have alsoShortest : ∀ other, before.Route other start target → walk.length ≤ other.length := by
    intro other otherRoute
    rw [sameLength]
    exact shortest.length_le other otherRoute
  obtain ⟨front, back, rfl, early, late⟩ := shortest.route.around member
  obtain ⟨front', back', rfl, early', late'⟩ := route.around turned
  rw [tail_twin] at early'
  rw [head_twin] at late'
  have first := shortest.length_le _ (early'.append late)
  have second := alsoShortest _ (early.append late')
  simp only [List.length_append, List.length_cons] at first second
  omega

theorem Augmented.route_links_ssubset (augmented : Augmented before after path)
    (shortest : Shortest before path start target) :
    after.routeLinks start target path.length ⊂ before.routeLinks start target path.length := by
  have older : ∀ walk, after.Route walk start target → walk.length = path.length →
      before.Route walk start target := by
    intro walk route sameLength
    rcases augmented.older_route shortest route with same | ⟨other, otherRoute, shorter⟩
    · exact same
    · have := shortest.length_le other otherRoute
      omega
  obtain ⟨arc, member, empty⟩ := augmented.exhausted
  rw [Finset.ssubset_iff_of_subset]
  · refine ⟨arc.link, ?_, ?_⟩
    · exact mem_route_links.mpr ⟨path, shortest.route, rfl, List.mem_map_of_mem member⟩
    · intro still
      obtain ⟨walk, route, sameLength, used⟩ := mem_route_links.mp still
      obtain ⟨other, otherMember, same⟩ := List.mem_map.mp used
      rcases eq_or_eq_twin same with rfl | rfl
      · exact empty (route.usable other otherMember)
      · exact shortest.twin_not_mem member (older walk route sameLength) sameLength otherMember
  · intro index still
    obtain ⟨walk, route, sameLength, used⟩ := mem_route_links.mp still
    exact mem_route_links.mpr ⟨walk, older walk route sameLength, sameLength, used⟩

/-- A bound on the augmentations still to come. -/
noncomputable def augmentationsLeft (network : Residual n m W) (start target : Fin n) : Nat :=
  match network.augmentingPath? start target with
  | none => 0
  | some path => (n - path.length) * m + (network.routeLinks start target path.length).card

theorem augmentations_left_le (network : Residual n m W) (different : start ≠ target) :
    network.augmentationsLeft start target ≤ n * m := by
  unfold augmentationsLeft
  split
  · exact Nat.zero_le _
  · next path found =>
    have shortest := shortest_of_augmenting_path? found
    have short := length_lt_of_simple shortest.simple
    have nonempty : 1 ≤ path.length := by
      cases path with
      | nil => exact absurd shortest.route.leads different
      | cons arc rest => simp
    have links := card_route_links_le network start target path.length
    calc (n - path.length) * m + (network.routeLinks start target path.length).card
        ≤ (n - path.length) * m + m := by omega
      _ = (n - path.length + 1) * m := by ring
      _ ≤ n * m := Nat.mul_le_mul_right m (by omega)

theorem Augmented.augmentations_left_lt (augmented : Augmented before after path)
    (found : before.augmentingPath? start target = some path) :
    after.augmentationsLeft start target < before.augmentationsLeft start target := by
  have shortest := shortest_of_augmenting_path? found
  have fewer := Finset.card_lt_card (augmented.route_links_ssubset shortest)
  have shortBefore := length_lt_of_simple shortest.simple
  simp only [augmentationsLeft, found]
  cases next : after.augmentingPath? start target with
  | none => dsimp only; omega
  | some nextPath =>
      have nextShortest := shortest_of_augmenting_path? next
      have longer := augmented.length_le shortest nextShortest.route
      dsimp only
      rcases Nat.eq_or_lt_of_le longer with same | grown
      · rw [← same]
        omega
      · have links := card_route_links_le after start target nextPath.length
        calc (n - nextPath.length) * m + (after.routeLinks start target nextPath.length).card
            ≤ (n - nextPath.length) * m + m := by omega
          _ = (n - nextPath.length + 1) * m := by ring
          _ ≤ (n - path.length) * m := Nat.mul_le_mul_right m (by omega)
          _ < (n - path.length) * m + (before.routeLinks start target path.length).card := by omega

end FlowTour.Residual
