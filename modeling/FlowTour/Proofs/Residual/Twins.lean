import FlowTour.Proofs.MaximumFlow.Saturation
import FlowTour.Proofs.MinCostFlow.Routing
import FlowTour.Proofs.MinCostFlow.TableSearch
import FlowTour.Proofs.Weight.Range

/-!
What an arc and its twin have in common, however often either solver augments. Both send along simple
paths of arcs with capacity, so a path uses a link once, in one direction, and every arc of it can still
carry the amount when its turn comes. A table of arcs that is changed by augmentations alone is thus the
table of a sound network, and what the two residuals of a link show is the capacity and the net amount
of all that was sent. The links may have any costs and may be unlimited; only the capacities must not be
negative.
-/

namespace FlowTour

open IntegerWeight

variable {n m : Nat} {W : Type} [IntegerWeight W]

namespace ArcTable

/-- The paths that the solvers send along: one with the fewest arcs, or one traced back from a sink that
a search for shortest paths has settled, whatever the potentials were. -/
inductive Chosen (table : ArcTable n W) (path : List Nat) : Prop
  | fewest {source target : Fin n} (found : table.augmentingPath? source target = .ok (some path))
  | cheapest {source sink : Fin n} {potential : Vector W n} {survey : Survey n W}
      (searched : table.shortestPaths potential source sink = .ok survey)
      (settled : survey.settled.get sink = true)
      (traced : table.tracePath survey.parents sink = .ok path)

/-- Such a path and the amount that fits on it. -/
structure Attempt (table : ArcTable n W) (path : List Nat) (amount : W) : Prop where
  chosen : table.Chosen path
  least : table.bottleneck path = .ok (some amount)

/-- A table after some augmentations, with what was sent along which path. -/
inductive Augmentations (links : List (Link n W)) : List (List Nat × W) → ArcTable n W → Prop
  | first : Augmentations links [] (build links).1
  | next {history : List (List Nat × W)} {before after : ArcTable n W} {path : List Nat} {amount : W}
      (earlier : Augmentations links history before) (attempt : before.Attempt path amount)
      (pushed : before.pushAll path amount = .ok after) :
      Augmentations links (history ++ [(path, amount)]) after

/-- What all augmentations together have sent along an arc, less what they have sent along its twin. -/
def netSent (history : List (List Nat × W)) (arc : Nat) : Int :=
  (history.map fun entry =>
    toInt entry.2 * ((entry.1.count arc : Int) - entry.1.count (twin arc))).sum

/-- The arcs of a table, each with its twin, after what has been sent. -/
structure Balanced (links : Vector (Link n W) m) (history : List (List Nat × W))
    (table : ArcTable n W) : Prop where
  size_eq : table.entries.size = 2 * m
  forward_ends : ∀ index : Fin m, table.tail (2 * index) = .ok (links.get index).tail ∧
    table.head (2 * index) = .ok (links.get index).head
  twin_ends : ∀ arc, table.tail (twin arc) = table.head arc ∧ table.head (twin arc) = table.tail arc
  costs : ∀ index : Fin m, table.cost (2 * index) = .ok (links.get index).cost ∧
    table.cost (twin (2 * index)) = .ok (-(links.get index).cost) ∧
      (InRange W (-toInt (links.get index).cost) →
        toInt (-(links.get index).cost) = -toInt (links.get index).cost)
  listed_once : ∀ node arc,
    (table.arcsFrom node).count arc = if table.tail arc = .ok node then 1 else 0
  residual_nonneg : ∀ arc left, table.residual arc = .ok (some left) → 0 ≤ toInt left
  carried : ∀ index : Fin m, ∃ back, table.residual (twin (2 * index)) = .ok (some back) ∧
    table.flow (2 * index) = .ok back ∧ toInt back = netSent history (2 * index)
  limited : ∀ (index : Fin m) capacity, (links.get index).capacity = some capacity →
    ∃ ahead back, table.residual (2 * index) = .ok (some ahead) ∧
      table.residual (twin (2 * index)) = .ok (some back) ∧ toInt ahead + toInt back = toInt capacity
  unlimited : ∀ index : Fin m, (links.get index).capacity = none →
    table.residual (2 * index) = .ok none

end ArcTable

namespace Residual

section Attempts

/-- A simple path of arcs with capacity, and the amount that fits on it. -/
structure Attempt (network : Residual n m W) (path : List (Arc m)) (amount : W) : Prop where
  simple : ∃ origin node, network.Route path origin node ∧ (network.stops path origin).Nodup
  least : network.bottleneck path = some amount

variable {network before after middle : Residual n m W} {path front rest : List (Arc m)} {arc : Arc m}
  {amount : W}

theorem Attempt.distinct (attempt : Attempt network path amount) : (path.map Arc.link).Nodup := by
  obtain ⟨origin, node, route, simple⟩ := attempt.simple
  exact links_nodup route.leads simple

theorem Attempt.positive (attempt : Attempt network path amount) : 1 ≤ toInt amount := by
  obtain ⟨origin, node, route, -⟩ := attempt.simple
  exact one_le_bottleneck route.usable attempt.least

theorem Attempt.pushed (attempt : Attempt before path amount) (sound : before.Sound)
    (pushed : before.pushAll path amount = some after) :
    Pushed before after path (toInt amount) :=
  sound.push_all (by have := attempt.positive; omega) attempt.distinct
    (admits_bottleneck sound attempt.least) pushed

/-- When the turn of an arc of the path comes, it can still carry the amount. -/
theorem Attempt.covered (attempt : Attempt network path amount) (sound : network.Sound)
    (split : path = front ++ arc :: rest) (pushed : network.pushAll front amount = some middle)
    {left : W} (residual : middle.residual arc = some left) : toInt amount ≤ toInt left := by
  have distinct := attempt.distinct
  have admits := admits_bottleneck sound attempt.least
  have positive := attempt.positive
  rw [split, List.map_append, List.map_cons] at distinct
  have early := sound.push_all (by omega) (List.nodup_append.mp distinct).1
    (fun other member => admits other (split ▸ List.mem_append_left _ member)) pushed
  have unused : arc.link ∉ front.map Arc.link :=
    fun used => (List.nodup_append.mp distinct).2.2 _ used _ (List.mem_cons_self ..) rfl
  have flowEq := early.flow_eq arc.link
  rw [Arc.carriage_of_not_mem unused, Int.mul_zero, Int.add_zero] at flowEq
  have member : arc ∈ path := split ▸ List.mem_append_right _ (List.mem_cons_self ..)
  have still := (admits_congr early.links_eq flowEq _).mpr (admits arc member)
  exact (early.sound.admits_iff arc _).mp still left residual

end Attempts

section Listing

omit [IntegerWeight W] in
theorem arcs_from_nodup (network : Residual n m W) (node : Fin n) :
    (network.arcsFrom node).Nodup := by
  have links : ∀ index, ∀ arc ∈ ((if (network.links.get index).tail = node then [⟨index, false⟩]
      else []) ++ if (network.links.get index).head = node then [⟨index, true⟩] else [] :
        List (Arc m)), arc.link = index := by
    intro index arc member
    rcases List.mem_append.mp member with ahead | back
    · split at ahead
      · rw [List.mem_singleton.mp ahead]
      · cases ahead
    · split at back
      · rw [List.mem_singleton.mp back]
      · cases back
  rw [arcsFrom, List.nodup_flatMap]
  constructor
  · intro index _
    split <;> split <;> simp
  · apply (List.nodup_finRange m).imp
    intro first second different arc here there
    exact different ((links first arc here).symm.trans (links second arc there))

omit [IntegerWeight W] in
theorem count_arcs_from (network : Residual n m W) (node : Fin n) (arc : Arc m) :
    (network.arcsFrom node).count arc = if network.tail arc = node then 1 else 0 := by
  rw [(network.arcs_from_nodup node).count]
  simp only [mem_arcs_from]

end Listing

section Tables

variable {network before after : Residual n m W} {path : List (Arc m)} {numbers : List Nat}
  {amount : W} {source target : Fin n}

theorem attempt_of_table (attempt : network.table.Attempt numbers amount) :
    ∃ path, numbers = path.map Arc.number ∧ network.Attempt path amount := by
  obtain ⟨path, same, simple⟩ : ∃ path : List (Arc m), numbers = path.map Arc.number ∧
      ∃ origin node, network.Route path origin node ∧ (network.stops path origin).Nodup := by
    cases attempt.chosen with
    | fewest found =>
        rw [augmenting_path_table] at found
        obtain ⟨path, searched, same⟩ := Option.map_eq_some_iff.mp (Except.ok.inj found)
        have shortest := shortest_of_augmenting_path? searched
        exact ⟨path, same.symm, _, _, shortest.route, shortest.simple⟩
    | cheapest searched settled traced =>
        obtain ⟨labels, found, surveys⟩ := MinCostFlow.labels_of_survey searched
        have traces := MinCostFlow.traces_back_of_is_settled found
          ((surveys.settled _).symm.trans settled)
        rw [network.trace_path_table surveys.parents] at traced
        exact ⟨_, (Except.ok.inj traced).symm, _, _, traces.route, traces.simple⟩
  have least := attempt.least
  rw [same, bottleneck_table] at least
  exact ⟨path, same, simple, Except.ok.inj least⟩

theorem carriage_eq_count (path : List (Arc m)) (index : Fin m) : Arc.carriage path index =
    ((path.map Arc.number).count (2 * index.val) : Int) -
      (path.map Arc.number).count (ArcTable.twin (2 * index.val)) := by
  rw [ArcTable.twin_two_mul]
  induction path with
  | nil => rfl
  | cons arc rest induction =>
      have ahead : arc.number = 2 * index.val ↔ arc.link = index ∧ arc.reversed = false := by
        rw [Arc.number, Fin.ext_iff]
        cases arc.reversed with
        | false => simp
        | true =>
            simp
            omega
      have back : arc.number = 2 * index.val + 1 ↔ arc.link = index ∧ arc.reversed = true := by
        rw [Arc.number, Fin.ext_iff]
        cases arc.reversed with
        | false =>
            simp
            omega
        | true => simp
      rw [Arc.carriage, induction, List.map_cons, List.count_cons, List.count_cons]
      simp only [beq_iff_eq, ahead, back, Arc.sign]
      cases arc.reversed <;> by_cases here : arc.link = index <;> simp [here] <;> omega

theorem Attempt.push_all_table (attempt : network.Attempt path amount) (sound : network.Sound) :
    network.table.pushAll (path.map Arc.number) amount =
      ArcTable.checked ((network.pushAll path amount).map table) := by
  apply Residual.push_all_table
  intro front arc rest middle left split pushed residual
  exact le_iff_to_int_le.mpr (attempt.covered sound split pushed residual)

theorem augmentations_of_push {links : List (Link n W)} {history : List (List Nat × W)}
    (earlier : ArcTable.Augmentations links history before.table) (sound : before.Sound)
    (chosen : before.table.Chosen (path.map Arc.number))
    (least : before.bottleneck path = some amount) (pushed : before.pushAll path amount = some after) :
    ArcTable.Augmentations links (history ++ [(path.map Arc.number, amount)]) after.table ∧
      after.Sound := by
  have tabled : before.table.Attempt (path.map Arc.number) amount :=
    ⟨chosen, by rw [bottleneck_table, least]⟩
  obtain ⟨same, numbered, attempt⟩ := attempt_of_table tabled
  obtain rfl := (List.map_injective_iff.mpr Arc.number_injective) numbered
  refine ⟨earlier.next tabled ?_, (attempt.pushed sound pushed).sound⟩
  rw [attempt.push_all_table sound, pushed]
  rfl

end Tables

end Residual

namespace ArcTable

variable {links : Vector (Link n W) m} {history : List (List Nat × W)} {table : ArcTable n W}
  {source target : Fin n}

theorem augmentations_first (links : Vector (Link n W) m) :
    Augmentations links.toList [] (Residual.ofLinks links).table := by
  have built : Augmentations links.toList [] (build links.toList).1 := .first
  rwa [Residual.build_to_list] at built

section Runs

variable (nonneg : ∀ index capacity, (links.get index).capacity = some capacity →
  0 ≤ toInt capacity)
include nonneg

/-- A table changed by augmentations is the table of a sound network, which carries what was sent. -/
theorem Augmentations.exists_network (augmentations : Augmentations links.toList history table) :
    ∃ network : Residual n m W, table = network.table ∧ network.Sound ∧ network.links = links ∧
      ∀ index, network.flow index = netSent history (2 * index.val) := by
  induction augmentations with
  | first =>
      refine ⟨.ofLinks links, by rw [Residual.build_to_list], Residual.sound_of_links nonneg, rfl, ?_⟩
      exact Residual.flow_of_links links
  | @next history before after numbers amount _ attempt pushed induction =>
      obtain ⟨network, rfl, sound, linksEq, flowEq⟩ := induction
      obtain ⟨path, rfl, found⟩ := Residual.attempt_of_table attempt
      rw [found.push_all_table sound, checked_eq_ok_iff] at pushed
      obtain ⟨next, sent, rfl⟩ := Option.map_eq_some_iff.mp pushed
      have changed := found.pushed sound sent
      refine ⟨next, rfl, changed.sound, changed.links_eq.trans linksEq, fun index => ?_⟩
      rw [changed.flow_eq, flowEq, Residual.carriage_eq_count, netSent, netSent, List.map_append,
        List.sum_append, List.map_singleton, List.sum_singleton]

theorem augmentations_of_saturating {state : MaximumFlow.State n m W}
    (passes : Traced.Passes (MaximumFlow.augment source target) ⟨Residual.ofLinks links, 0, 0⟩ state) :
    (∃ history, Augmentations links.toList history state.network.table) ∧ state.network.Sound := by
  induction passes with
  | first => exact ⟨⟨[], augmentations_first links⟩, Residual.sound_of_links nonneg⟩
  | next _ stepped induction =>
      obtain ⟨⟨history, earlier⟩, sound⟩ := induction
      obtain ⟨path, amount, found, least, pushed, -⟩ := MaximumFlow.augment_eq_some stepped
      have searched := (Residual.augmenting_path_table _ source target).trans
        (congrArg (Except.ok ∘ Option.map (List.map Arc.number)) found)
      obtain ⟨later, still⟩ :=
        Residual.augmentations_of_push earlier sound (.fewest searched) least pushed
      exact ⟨⟨_, later⟩, still⟩

theorem augmentations_of_routing {state : MinCostFlow.State n m W}
    (passes : Traced.Passes (MinCostFlow.augment source target) (MinCostFlow.initialState links)
      state) :
    (∃ history, Augmentations links.toList history state.network.table) ∧ state.network.Sound := by
  induction passes with
  | first => exact ⟨⟨[], augmentations_first links⟩, Residual.sound_of_links nonneg⟩
  | next _ stepped induction =>
      obtain ⟨⟨history, earlier⟩, sound⟩ := induction
      obtain ⟨labels, reached, amount, searched, found, settled, -, least, pushed, -⟩ :=
        MinCostFlow.augment_eq_some stepped
      obtain ⟨survey, surveyed, surveys⟩ := MinCostFlow.survey_of_labels searched
      have arrived : survey.settled.get target = true := by
        rw [surveys.settled, MinCostFlow.isSettled, found, Option.any_some, settled]
      obtain ⟨later, still⟩ := Residual.augmentations_of_push earlier sound
        (.cheapest surveyed arrived (Residual.trace_path_table _ surveys.parents target)) least pushed
      exact ⟨⟨_, later⟩, still⟩

end Runs

section Balance

variable {network : Residual n m W}

theorem count_arcs_from_table (network : Residual n m W) (node : Fin n) (number : Nat) :
    (network.table.arcsFrom node).count number =
      if network.table.tail number = .ok node then 1 else 0 := by
  rw [Residual.arcs_from_table]
  by_cases inside : number < 2 * m
  · obtain ⟨arc, rfl⟩ := Arc.exists_number inside
    rw [List.count_map_of_injective _ _ Arc.number_injective, Residual.count_arcs_from,
      Residual.tail_table]
    simp only [Except.ok.injEq]
  · have absent : network.table.tail number = .error .absent := by
      have outside := Nat.le_of_not_lt (mt (twin_lt_iff number m).mp inside)
      rw [tail, head, network.entry_table_of_le outside]
      rfl
    rw [absent, if_neg (by simp), List.count_eq_zero]
    intro listed
    obtain ⟨arc, -, rfl⟩ := List.mem_map.mp listed
    exact inside arc.number_lt

theorem balanced_table (sound : network.Sound) (linksEq : network.links = links)
    (flowEq : ∀ index, network.flow index = netSent history (2 * index.val)) :
    Balanced links history network.table where
  size_eq := network.size_table
  forward_ends index := by
    subst linksEq
    exact ⟨network.tail_table ⟨index, false⟩, network.head_table ⟨index, false⟩⟩
  twin_ends arc := ⟨by rw [tail, twin_twin], rfl⟩
  costs index := by
    subst linksEq
    rw [twin_two_mul]
    refine ⟨network.cost_table ⟨index, false⟩, network.cost_table ⟨index, true⟩, ?_⟩
    rintro ⟨opposite, exact⟩
    exact to_int_neg_of_fits exact
  listed_once := count_arcs_from_table network
  residual_nonneg number left found := by
    by_cases inside : number < 2 * m
    · obtain ⟨⟨index, reversed⟩, rfl⟩ := Arc.exists_number inside
      rw [Residual.residual_table] at found
      cases reversed with
      | false => exact sound.room_nonneg (Except.ok.inj found)
      | true => exact Option.some.inj (Except.ok.inj found) ▸ sound.flow_nonneg index
    · rw [residual, network.entry_table_of_le (Nat.le_of_not_lt inside)] at found
      cases found
  carried index := by
    rw [twin_two_mul]
    exact ⟨_, network.residual_table ⟨index, true⟩, network.flow_table index, flowEq index⟩
  limited index capacity limit := by
    obtain ⟨-, room, found, exact⟩ := sound.limited index capacity (linksEq ▸ limit)
    rw [twin_two_mul]
    refine ⟨room, _, ?_, network.residual_table ⟨index, true⟩, ?_⟩
    · exact (network.residual_table ⟨index, false⟩).trans (congrArg Except.ok found)
    · rw [exact]
      exact Int.sub_add_cancel ..
  unlimited index free :=
    (network.residual_table ⟨index, false⟩).trans
      (congrArg Except.ok (sound.unlimited index (linksEq ▸ free)))

end Balance

/-- Arcs and their twins stay balanced through all augmentations of both solvers, over links with any
costs and any capacities that are not negative; and no arc is ever asked for more than its residual
covers, so the one thing that an augmentation may lack is room for a sum. -/
theorem augmentations_keep_twins_balanced (links : Vector (Link n W) m)
    (nonneg : ∀ index capacity, (links.get index).capacity = some capacity →
      0 ≤ toInt capacity) :
    (build links.toList).2 = (List.range m).map (2 * ·) ∧
    (∀ source target state,
      Traced.Passes (MaximumFlow.augment source target) ⟨Residual.ofLinks links, 0, 0⟩ state →
        ∃ history, Augmentations links.toList history state.network.table) ∧
    (∀ source sink state,
      Traced.Passes (MinCostFlow.augment source sink) (MinCostFlow.initialState links) state →
        ∃ history, Augmentations links.toList history state.network.table) ∧
    ∀ history table, Augmentations links.toList history table →
      Balanced links history table ∧
      ∀ path amount, table.Attempt path amount →
        (∃ after, table.pushAll path amount = .ok after) ∨
          table.pushAll path amount = .error .overflow := by
  refine ⟨congrArg Prod.snd (Residual.build_to_list links),
    fun _ _ _ passes => (augmentations_of_saturating nonneg passes).1,
    fun _ _ _ passes => (augmentations_of_routing nonneg passes).1, ?_⟩
  intro history table augmentations
  obtain ⟨network, rfl, sound, linksEq, flowEq⟩ := augmentations.exists_network nonneg
  refine ⟨balanced_table sound linksEq flowEq, ?_⟩
  intro numbers amount attempt
  obtain ⟨path, rfl, found⟩ := Residual.attempt_of_table attempt
  rw [found.push_all_table sound]
  cases network.pushAll path amount with
  | none => exact .inr rfl
  | some after => exact .inl ⟨after.table, rfl⟩

/-- A limited link of cost 1 followed by an unlimited one of cost -1, and a limited one past both. -/
def detour : Vector (Link 3 Int32) 3 :=
  #v[⟨0, 1, some 3, 1⟩, ⟨1, 2, none, -1⟩, ⟨0, 2, some 1, 2⟩]

theorem augmentations_keep_twins_balanced_detour :
    (∀ index capacity, (detour.get index).capacity = some capacity → 0 ≤ toInt capacity) ∧
    ∃ history table, Augmentations detour.toList history table ∧ netSent history 0 = 3 ∧
      netSent history 2 = 3 ∧ table.residual 2 = .ok none ∧ (table.arcsFrom 1).count 1 = 1 ∧
      ∃ ahead back, table.residual 0 = .ok (some ahead) ∧
        table.residual (twin 0) = .ok (some back) ∧ toInt ahead + toInt back = 3 := by
  have nonneg : ∀ index capacity, (detour.get index).capacity = some capacity →
      0 ≤ toInt capacity := by
    intro index capacity limited
    have all : ∀ index, (detour.get index).capacity.all fun capacity => 0 ≤ toInt capacity := by
      decide +kernel
    simpa [limited] using all index
  have ran : (iterate (MinCostFlow.augment 0 2) 2 (MinCostFlow.initialState detour)
      ).outcome.toOption.any
        (fun state => state.network.flow 0 = 3 ∧ state.network.flow 1 = 3) = true := by
    decide +kernel
  obtain ⟨state, ended, test⟩ := Traced.exists_ok_of_any ran
  obtain ⟨first, second⟩ := of_decide_eq_true test
  obtain ⟨-, -, routing, balanced⟩ := augmentations_keep_twins_balanced detour nonneg
  obtain ⟨history, augmentations⟩ := routing 0 2 state (Traced.passes_of_iterate ended)
  obtain ⟨here, -⟩ := balanced history state.network.table augmentations
  have carried : ∀ index : Fin 3, netSent history (2 * index.val) = state.network.flow index := by
    intro index
    obtain ⟨back, -, found, sent⟩ := here.carried index
    rw [← sent, ← Except.ok.inj ((state.network.flow_table index).symm.trans found)]
    rfl
  have tail : state.network.table.tail 1 = .ok 1 :=
    (here.twin_ends 0).1.trans (here.forward_ends 0).2
  have listed := here.listed_once 1 1
  rw [if_pos tail] at listed
  exact ⟨nonneg, history, state.network.table, augmentations, (carried 0).trans first,
    (carried 1).trans second, here.unlimited 1 rfl, listed, here.limited 0 3 rfl⟩

end ArcTable

end FlowTour
