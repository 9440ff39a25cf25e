import FlowTour.MaximumFlow
import FlowTour.Proofs.Residual.Cut
import FlowTour.Proofs.Residual.Progress
import FlowTour.Proofs.Run

/-!
The run that saturates a network. Every augmentation keeps a flow from the source to the target whose
value is the one counted, leaves the links into the source and out of the target empty, and uses up
some of the augmentations that are left. So the run ends, and it ends with the target out of reach.
-/

namespace FlowTour.MaximumFlow

open IntegerWeight Residual

variable {n m : Nat} {W : Type} [IntegerWeight W]

/-- A flow of the counted value over some links. -/
structure Flowing (links : Vector (Link n W) m) (source target : Fin n) (state : State n m W) :
    Prop where
  links_eq : state.network.links = links
  sound : state.network.Sound
  value_eq : netOutflow links state.network.flow source = toInt state.value
  conserved : ∀ node, node ≠ source → node ≠ target →
    netOutflow links state.network.flow node = 0
  into_source : ∀ index, (links.get index).head = source → state.network.flow index = 0
  out_of_target : ∀ index, (links.get index).tail = target → state.network.flow index = 0

variable {links : Vector (Link n W) m} {source target : Fin n} {state next final : State n m W}

theorem augment_eq_some (stepped : (augment source target state).outcome = .ok (some next)) :
    ∃ path amount, state.network.augmentingPath? source target = some path ∧
      state.network.bottleneck path = some amount ∧
        state.network.pushAll path amount = some next.network ∧
          Weight.tryAdd state.value amount = some next.value := by
  unfold augment at stepped
  split at stepped
  · cases stepped
  · next path found =>
    split at stepped
    · cases stepped
    · next amount least =>
      obtain ⟨_, -, noted⟩ := Traced.bind_eq_ok_iff.mp stepped
      obtain ⟨network, pushed, afterwards⟩ := Traced.bind_eq_ok_iff.mp noted
      obtain ⟨value, added, last⟩ := Traced.bind_eq_ok_iff.mp afterwards
      obtain rfl := Option.some.inj (Except.ok.inj last)
      exact ⟨path, amount, found, least, Traced.of_option_eq_ok_iff.mp pushed,
        Traced.of_option_eq_ok_iff.mp added⟩

theorem augment_eq_none (stepped : (augment source target state).outcome = .ok none) :
    state.network.augmentingPath? source target = none ∨
      ∃ path, state.network.augmentingPath? source target = some path ∧
        state.network.bottleneck path = none := by
  unfold augment at stepped
  split at stepped
  · next missing => exact .inl missing
  · next path found =>
    split at stepped
    · next unlimited => exact .inr ⟨path, found, unlimited⟩
    · obtain ⟨_, -, noted⟩ := Traced.bind_eq_ok_iff.mp stepped
      obtain ⟨network, -, afterwards⟩ := Traced.bind_eq_ok_iff.mp noted
      obtain ⟨value, -, last⟩ := Traced.bind_eq_ok_iff.mp afterwards
      cases last

theorem Flowing.initial {capacity : Fin m → W}
    (limited : ∀ index, (links.get index).capacity = some (capacity index))
    (nonneg : ∀ index, 0 ≤ toInt (capacity index)) :
    Flowing links source target ⟨Residual.ofLinks links, 0, 0⟩ where
  links_eq := rfl
  sound := by
    apply sound_of_links
    intro index limit found
    obtain rfl := Option.some.inj ((limited index).symm.trans found)
    exact nonneg index
  value_eq := by rw [net_outflow_of_links, to_int_zero]
  conserved node _ _ := net_outflow_of_links links node
  into_source index _ := flow_of_links links index
  out_of_target index _ := flow_of_links links index

/-- A path that visits its origin and its end only once leaves a link alone that leads into the one
or out of the other, as long as that link is empty. -/
theorem carriage_of_empty {network : Residual n m W} (sound : network.Sound)
    {path : List (Arc m)} (route : network.Route path source target)
    (simple : (network.stops path source).Nodup) {index : Fin m}
    (ends : (network.links.get index).head = source ∨ (network.links.get index).tail = target)
    (empty : network.flow index = 0) : Arc.carriage path index = 0 := by
  apply Arc.carriage_of_not_mem
  intro used
  obtain ⟨⟨link, reversed⟩, member, rfl⟩ := List.mem_map.mp used
  cases reversed
  case true =>
    have usable := (sound.has_capacity_iff _).mp (route.usable _ member)
    simp only [Admits, if_true, empty] at usable
    omega
  case false =>
    rcases ends with intoSource | outOfTarget
    · exact head_ne_origin simple member intoSource
    · exact tail_ne_last route.leads simple member outOfTarget

theorem Flowing.pushed (flowing : Flowing links source target state) {path : List (Arc m)}
    {amount : W} {network : Residual n m W}
    (found : state.network.augmentingPath? source target = some path)
    (least : state.network.bottleneck path = some amount)
    (pushedAll : state.network.pushAll path amount = some network) :
    Pushed state.network network path (toInt amount) := by
  have shortest := shortest_of_augmenting_path? found
  have positive := one_le_bottleneck shortest.route.usable least
  exact flowing.sound.push_all (by omega) (links_nodup shortest.route.leads shortest.simple)
    (admits_bottleneck flowing.sound least) pushedAll

/-- One augmentation keeps the flow and uses up one of the augmentations left. -/
theorem Flowing.augment (flowing : Flowing links source target state)
    (different : source ≠ target)
    (stepped : (augment source target state).outcome = .ok (some next)) :
    Flowing links source target next ∧
      next.network.augmentationsLeft source target <
        state.network.augmentationsLeft source target := by
  obtain ⟨path, amount, found, least, pushedAll, added⟩ := augment_eq_some stepped
  have sound := flowing.sound
  have shortest := shortest_of_augmenting_path? found
  have route := shortest.route
  have pushed := flowing.pushed found least pushedAll
  have linksEq := flowing.links_eq
  have nextLinks := pushed.links_eq.trans linksEq
  have outflow := pushed.net_outflow_eq route.leads
  rw [nextLinks, linksEq] at outflow
  have augmented := pushed.augmented sound shortest least
  refine ⟨⟨nextLinks, pushed.sound, ?_, ?_, ?_, ?_⟩, augmented.augmentations_left_lt found⟩
  · rw [outflow, flowing.value_eq, try_add_eq_some_iff.mp added, if_pos rfl,
      if_neg (Ne.symm different)]
    ring
  · intro node notSource notTarget
    rw [outflow, flowing.conserved node notSource notTarget, if_neg (Ne.symm notSource),
      if_neg (Ne.symm notTarget)]
    ring
  · intro index intoSource
    have empty := flowing.into_source index intoSource
    rw [pushed.flow_eq, empty, carriage_of_empty sound route shortest.simple
      (.inl (linksEq ▸ intoSource)) empty]
    ring
  · intro index outOfTarget
    have empty := flowing.out_of_target index outOfTarget
    rw [pushed.flow_eq, empty, carriage_of_empty sound route shortest.simple
      (.inr (linksEq ▸ outOfTarget)) empty]
    ring

theorem saturate_run {network : Residual n m W}
    (ended : (saturate source target network).outcome = .ok final) :
    (iterate (MaximumFlow.augment source target) (n * m + 1) ⟨network, 0, 0⟩).outcome = .ok final ∧
      (saturate source target network).events =
        (iterate (MaximumFlow.augment source target) (n * m + 1) ⟨network, 0, 0⟩).events ++
          [.flowFound final.value final.augmentations] := by
  obtain ⟨result, run, rest⟩ := Traced.bind_eq_ok_iff.mp ended
  obtain rfl : result = final := by simpa [Except.bind] using rest
  refine ⟨run, ?_⟩
  rw [saturate, Traced.events_bind_of_ok run]
  rfl

/-- With a capacity on every link, the run ends with a flow and the target out of reach. -/
theorem saturate_flowing {capacity : Fin m → W}
    (limited : ∀ index, (links.get index).capacity = some (capacity index))
    (nonneg : ∀ index, 0 ≤ toInt (capacity index)) (different : source ≠ target)
    (ended : (saturate source target (Residual.ofLinks links)).outcome = .ok final) :
    Flowing links source target final ∧ ¬final.network.Reaches source target := by
  have run := (saturate_run ended).1
  have kept : ∀ before after, Flowing links source target before →
      (MaximumFlow.augment source target before).outcome = .ok (some after) →
        Flowing links source target after ∧
          after.network.augmentationsLeft source target <
            before.network.augmentationsLeft source target :=
    fun before after flowing stepped => flowing.augment different stepped
  have enough := augmentations_left_le (Residual.ofLinks links) different
  obtain ⟨flowing, stopped⟩ := Answering.ofTraced.iterate_ends
    (fun state => state.network.augmentationsLeft source target) kept
    (Flowing.initial limited nonneg) (Nat.lt_succ_of_le enough) run
  refine ⟨flowing, ?_⟩
  rcases augment_eq_none stopped with missing | ⟨path, found, unlimited⟩
  · exact augmenting_path?_eq_none _ missing
  · have route := (shortest_of_augmenting_path? found).route
    cases path with
    | nil => exact absurd route.leads different
    | cons arc rest =>
        have someLimit : ∀ index, (final.network.links.get index).capacity ≠ none := by
          intro index
          simp [flowing.links_eq, limited index]
        exact absurd unlimited
          (flowing.sound.bottleneck_ne_none (List.mem_cons_self ..) fun _ => someLimit _)

end FlowTour.MaximumFlow
