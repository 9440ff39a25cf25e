import FlowTour.MinCostFlow.TableSearch
import FlowTour.Proofs.MinCostFlow.Settling
import FlowTour.Proofs.Residual.ArcTable

/-!
Searches for shortest paths in a table follow those in the network. Only labelled nodes are ever on
offer, so a node that is settled has a distance, and the three tables of a search say together what its
labels say.
-/

namespace FlowTour.MinCostFlow

open Table
open ArcTable (checked ok_bind)

variable {n m : Nat} {W : Type} [Weight W] {network : Residual n m W} {potential : Vector W n}
  {source sink : Fin n}

/-- The labels of a search, each part in a table of its own. -/
def Exploration.spread (state : Exploration n m W) : ArcTable.Survey n W where
  distances := state.labels.map (Option.map Label.distance)
  parents := state.labels.map fun label => (label.bind Label.parent).map Arc.number
  settled := state.labels.map (Option.any Label.settled)
  offers := state.offers

theorem reduced_cost_table (arc : Arc m) :
    network.table.reducedCost potential arc.number = checked (reducedCost network potential arc) := by
  rw [ArcTable.reducedCost, Residual.tail_table, Residual.head_table, Residual.cost_table, ok_bind,
    ok_bind, ok_bind, reducedCost]
  cases Weight.trySub (network.cost arc) (potential.get (network.tail arc)) <;> rfl

def Exploration.offer (state : Exploration n m W) (node : Fin n) (arc : Arc m) (distance : W) :
    Exploration n m W :=
  if (state.labels.get node).all fun label => distance < label.distance then
    { labels := state.labels.set node.val (some ⟨distance, some arc, false⟩) node.isLt
      offers := state.offers.push offerBelow (distance, node) }
  else state

theorem relax_eq (distance : W) (state : Exploration n m W) (arc : Arc m) :
    relax network potential distance state arc =
      if !network.hasCapacity arc || isSettled state.labels (network.head arc) then some state
      else (reducedCost network potential arc).bind fun reduced =>
        if Weight.isNegative reduced then some (state.offer (network.head arc) arc distance)
        else (Weight.tryAdd distance reduced).map (state.offer (network.head arc) arc) := by
  have offered : ∀ next : W, some (state.offer (network.head arc) arc next) =
      if (state.labels.get (network.head arc)).all fun label => next < label.distance then
        some
          { labels := state.labels.set (network.head arc).val (some ⟨next, some arc, false⟩)
              (network.head arc).isLt
            offers := state.offers.push offerBelow (next, network.head arc) }
      else some state := by
    intro next
    rw [Exploration.offer, apply_ite some]
  simp only [relax, Option.map_eq_bind, Function.comp_def, offered]
  rfl

theorem offer_spread {state : Exploration n m W} {node : Fin n} {arc : Arc m} (distance : W)
    (fresh : isSettled state.labels node = false) :
    state.spread.offer node arc.number distance = (state.offer node arc distance).spread := by
  have distances : state.spread.distances.get node =
      (state.labels.get node).map Label.distance := get_map ..
  have settled : (state.labels.set node.val (some ⟨distance, some arc, false⟩) node.isLt).map
      (Option.any Label.settled) = state.labels.map (Option.any Label.settled) := by
    apply eq_of_get
    intro other
    rw [get_map, get_map]
    exact is_settled_set fresh rfl
  rw [ArcTable.Survey.offer, distances, Option.all_map, Exploration.offer]
  change (if (state.labels.get node).all (fun label => distance < label.distance) then _ else _) = _
  split
  · simp only [Exploration.spread, settled, Vector.map_set]
    rfl
  · rfl

theorem relax_table (distance : W) (state : Exploration n m W) (arc : Arc m) :
    ArcTable.Survey.relax network.table potential distance state.spread arc.number =
      checked ((relax network potential distance state arc).map Exploration.spread) := by
  have settled : state.spread.settled.get (network.head arc) =
      isSettled state.labels (network.head arc) := get_map ..
  rw [ArcTable.Survey.relax, Residual.has_capacity_table, Residual.head_table, ok_bind, ok_bind,
    settled, reduced_cost_table, relax_eq]
  cases network.hasCapacity arc with
  | false => rfl
  | true =>
  cases fresh : isSettled state.labels (network.head arc) with
  | true => rfl
  | false =>
  cases reducedCost network potential arc with
  | none => rfl
  | some reduced =>
  simp only [offer_spread _ fresh, Option.bind_some, Bool.not_true, Bool.or_self, Bool.false_eq_true,
    if_false, checked, ok_bind]
  cases Weight.isNegative reduced with
  | true => rfl
  | false => cases Weight.tryAdd distance reduced <;> rfl

theorem relax_all_table (distance : W) (arcs : List (Arc m)) (state : Exploration n m W) :
    (arcs.map Arc.number).foldlM (ArcTable.Survey.relax network.table potential distance) state.spread =
      checked ((arcs.foldlM (relax network potential distance) state).map Exploration.spread) := by
  induction arcs generalizing state with
  | nil => rfl
  | cons arc rest induction =>
      rw [List.map_cons, List.foldlM_cons, relax_table, List.foldlM_cons]
      cases relax network potential distance state arc with
      | none => rfl
      | some next => exact induction next

omit [Weight W] in
theorem settle_spread {state : Exploration n m W} {node : Fin n} {offers : Heap (W × Fin n)}
    (labelled : (state.labels.get node).isSome = true) :
    ({ state.spread with settled := state.spread.settled.set node.val true node.isLt, offers } :
      ArcTable.Survey n W) = Exploration.spread ⟨settle state.labels node, offers⟩ := by
  obtain ⟨label, found⟩ := Option.isSome_iff_exists.mp labelled
  have distances : state.labels.map (Option.map Label.distance) =
      (settle state.labels node).map (Option.map Label.distance) := by
    apply eq_of_get
    intro other
    rw [get_map, get_map, get_settle]
    split <;> cases state.labels.get other <;> rfl
  have parents : state.labels.map (fun label => (label.bind Label.parent).map Arc.number) =
      (settle state.labels node).map fun label => (label.bind Label.parent).map Arc.number := by
    apply eq_of_get
    intro other
    rw [get_map, get_map, get_settle]
    split <;> cases state.labels.get other <;> rfl
  have settled : (state.labels.map (Option.any Label.settled)).set node.val true node.isLt =
      (settle state.labels node).map (Option.any Label.settled) := by
    rw [settle, found, Vector.map_set]
    rfl
  simp only [Exploration.spread, distances, parents, settled]

theorem explore_table {state : Exploration n m W}
    (labelled : ∀ offer ∈ state.offers.listed, (state.labels.get offer.2).isSome = true) :
    ArcTable.Survey.explore network.table potential sink state.spread =
      checked ((explore network potential sink state).map (Option.map Exploration.spread)) := by
  have settled : ∀ node, state.spread.settled.get node = isSettled state.labels node :=
    fun _ => get_map ..
  have offers : state.spread.offers = state.offers := rfl
  rw [ArcTable.Survey.explore, settled, offers, explore]
  cases isSettled state.labels sink with
  | true => rfl
  | false =>
  cases popped : state.offers.pop? offerBelow with
  | none => rfl
  | some next =>
  obtain ⟨⟨distance, node⟩, rest⟩ := next
  dsimp only
  rw [settled]
  cases isSettled state.labels node with
  | true => rfl
  | false =>
  have found := labelled (distance, node) ((Heap.mem_pop? _ popped).mpr (.inl rfl))
  rw [settle_spread found, Residual.arcs_from_table, relax_all_table]
  by_cases isSink : node = sink
  · simp only [if_pos isSink]
    rfl
  · simp only [if_neg isSink]
    cases (network.arcsFrom node).foldlM (relax network potential distance)
      ⟨settle state.labels node, rest⟩ <;> rfl

/-- What a search in the table leaves is what a search in the network leaves, with some offers. -/
theorem iterate_table {fuel : Nat} {state : Exploration n m W}
    (settling : ∃ rank clock, Settling network source rank clock state) :
    iterate (ArcTable.Survey.explore network.table potential sink) fuel state.spread =
      checked ((iterate (explore network potential sink) fuel state).map Exploration.spread) := by
  induction fuel generalizing state with
  | zero => rfl
  | succ fuel induction =>
      obtain ⟨rank, clock, before⟩ := settling
      rw [iterate, iterate, explore_table before.offered]
      cases stepped : explore network potential sink state with
      | none => rfl
      | some found =>
          cases found with
          | none => rfl
          | some next => exact induction (before.explore stepped)

/-- The tables say of every node what the labels say. -/
structure Surveys (labels : Vector (Option (Label m W)) n) (survey : ArcTable.Survey n W) : Prop where
  settled : ∀ node, survey.settled.get node = isSettled labels node
  parents : ∀ node, survey.parents.get node = ((labels.get node).bind Label.parent).map Arc.number

omit [Weight W] in
theorem surveys_spread (state : Exploration n m W) : Surveys state.labels state.spread :=
  ⟨fun _ => get_map .., fun _ => get_map ..⟩

theorem shortest_paths_spread : network.table.shortestPaths potential source sink =
    checked ((iterate (explore network potential sink) (2 * m + 3)
      { labels := (Vector.replicate n none).set source.val (some ⟨0, none, false⟩) source.isLt
        offers := Heap.empty.push offerBelow (0, source) }).map Exploration.spread) := by
  rw [ArcTable.shortestPaths, Residual.size_table, ← iterate_table ⟨_, _, .initial network source⟩]
  simp [Exploration.spread, Vector.map_set]

theorem labels_of_survey {survey : ArcTable.Survey n W}
    (searched : network.table.shortestPaths potential source sink = .ok survey) :
    ∃ labels, shortestPaths network potential source sink = some labels ∧ Surveys labels survey := by
  rw [shortest_paths_spread] at searched
  obtain ⟨state, ran, rfl⟩ := Option.map_eq_some_iff.mp (ArcTable.checked_eq_ok_iff.mp searched)
  exact ⟨state.labels, congrArg (Option.map Exploration.labels) ran, surveys_spread state⟩

theorem survey_of_labels {labels : Vector (Option (Label m W)) n}
    (searched : shortestPaths network potential source sink = some labels) :
    ∃ survey, network.table.shortestPaths potential source sink = .ok survey ∧
      Surveys labels survey := by
  obtain ⟨state, ran, rfl⟩ := Option.map_eq_some_iff.mp searched
  rw [shortest_paths_spread, ran]
  exact ⟨state.spread, rfl, surveys_spread state⟩

end FlowTour.MinCostFlow
