import FlowTour.Proofs.Residual.Conservation
import FlowTour.Proofs.Weight.Range
import Mathlib.Algebra.Order.Ring.Int

/-!
Pushes that answer. Sending an amount along a path only has to fit what the links of the path carry
afterwards: the room of a link never grows beyond its capacity. A simple path uses a link at most once,
so no link carries more than the amounts sent together. What a push does to the two residuals of a link
is exact: neither of them leaves the range of the weights.
-/

namespace FlowTour

namespace Arc

variable {m : Nat} {path : List (Arc m)}

theorem carriage_le_one (distinct : (path.map link).Nodup) (index : Fin m) :
    carriage path index ≤ 1 := by
  by_cases used : index ∈ path.map link
  · obtain ⟨arc, member, rfl⟩ := List.mem_map.mp used
    rw [carriage_of_mem distinct member, sign]
    split <;> decide
  · rw [carriage_of_not_mem used]
    decide

end Arc

namespace Residual

open Weight IntegerWeight Table

variable {n m : Nat} {W : Type} [IntegerWeight W] {network : Residual n m W} {arc : Arc m}
  {path : List (Arc m)} {amount : W}

theorem Sound.exists_push (sound : network.Sound) (notNegative : 0 ≤ toInt amount)
    (admits : network.Admits arc (toInt amount))
    (inRange : arc.reversed = false → InRange W (network.flow arc.link + toInt amount)) :
    ∃ after, network.push arc amount = some after := by
  obtain ⟨index, reversed⟩ := arc
  cases reversed with
  | false =>
      have fits := try_add_is_some_iff.mpr (inRange rfl)
      obtain ⟨grown, added⟩ := Option.isSome_iff_exists.mp fits
      simp only [Residual.push, Bool.false_eq_true, if_false, added, Option.map_some]
      exact ⟨_, rfl⟩
  | true =>
      have carried : toInt amount ≤ network.flow index := by simpa [Admits] using admits
      cases room : network.room.get index with
      | none =>
          simp only [Residual.push, if_true, room]
          exact ⟨_, rfl⟩
      | some left =>
          -- What is given back goes into the room, which ends below the capacity.
          have leftNonneg := sound.room_nonneg room
          have below : InRange W (toInt left + toInt amount) := by
            cases limited : (network.links.get index).capacity with
            | none =>
                rw [sound.unlimited index limited] at room
                cases room
            | some capacity =>
                obtain ⟨-, other, there, exact⟩ := sound.limited index capacity limited
                obtain rfl := Option.some.inj (room.symm.trans there)
                exact (in_range_to_int capacity).of_nonneg_of_le (by omega) (by omega)
          obtain ⟨grown, added⟩ := Option.isSome_iff_exists.mp (try_add_is_some_iff.mpr below)
          simp only [Residual.push, if_true, room, added, Option.map_some]
          exact ⟨_, rfl⟩

theorem Sound.exists_push_all (sound : network.Sound) (notNegative : 0 ≤ toInt amount)
    (distinct : (path.map Arc.link).Nodup)
    (admits : ∀ arc ∈ path, network.Admits arc (toInt amount))
    (inRange : ∀ arc ∈ path, arc.reversed = false →
      InRange W (network.flow arc.link + toInt amount)) :
    ∃ after, network.pushAll path amount = some after := by
  induction path generalizing network with
  | nil => exact ⟨network, rfl⟩
  | cons arc rest induction =>
      rw [List.map_cons, List.nodup_cons] at distinct
      have fits := inRange arc (List.mem_cons_self ..)
      obtain ⟨middle, first⟩ :=
        sound.exists_push notNegative (admits arc (List.mem_cons_self ..)) fits
      have pushed := sound.push notNegative (admits arc (List.mem_cons_self ..)) first
      have restInRange : ∀ other ∈ rest, other.reversed = false →
          InRange W (middle.flow other.link + toInt amount) := by
        intro other member
        rw [pushed.flow_rest_eq distinct.1 other member]
        exact inRange other (List.mem_cons_of_mem _ member)
      obtain ⟨after, others⟩ :=
        induction pushed.sound distinct.2 (pushed.rest_admits distinct.1 admits) restInRange
      refine ⟨after, ?_⟩
      rw [Residual.pushAll, List.foldlM_cons]
      exact Option.bind_eq_some_iff.mpr ⟨middle, first, others⟩

/-- Where every link has a capacity, what the arcs of a path admit can be sent along it. -/
theorem Sound.exists_push_all_of_limited (sound : network.Sound)
    (limited : ∀ index, ∃ capacity, (network.links.get index).capacity = some capacity)
    (notNegative : 0 ≤ toInt amount) (distinct : (path.map Arc.link).Nodup)
    (admits : ∀ arc ∈ path, network.Admits arc (toInt amount)) :
    ∃ after, network.pushAll path amount = some after := by
  apply sound.exists_push_all notNegative distinct admits
  intro arc member forward
  obtain ⟨capacity, limit⟩ := limited arc.link
  have room := admits arc member
  simp only [Admits, forward, Bool.false_eq_true, if_false] at room
  have below := room capacity limit
  have carried := sound.flow_nonneg arc.link
  exact (in_range_to_int capacity).of_nonneg_of_le (by omega) below

theorem Pushed.flow_le {before after : Residual n m W} {amount : Int}
    (pushed : Pushed before after path amount) (notNegative : 0 ≤ amount)
    (distinct : (path.map Arc.link).Nodup) (index : Fin m) :
    after.flow index ≤ before.flow index + amount := by
  rw [pushed.flow_eq]
  have once := Arc.carriage_le_one distinct index
  have atMost := mul_le_mul_of_nonneg_left once notNegative
  omega

theorem Sound.residual_eq (sound : network.Sound) (arc : Arc m) :
    (network.residual arc).map toInt =
      if arc.reversed then some (network.flow arc.link)
      else (network.links.get arc.link).capacity.map (toInt · - network.flow arc.link) := by
  obtain ⟨index, reversed⟩ := arc
  cases reversed
  case true => rfl
  case false =>
    simp only [residual, Bool.false_eq_true, if_false]
    cases limited : (network.links.get index).capacity with
    | none => rw [sound.unlimited index limited, Option.map_none, Option.map_none]
    | some capacity =>
        obtain ⟨-, room, found, exact⟩ := sound.limited index capacity limited
        rw [found, Option.map_some, Option.map_some, exact]

theorem Sound.residual_sub {before after : Residual n m W} (sound : before.Sound)
    (soundAfter : after.Sound) (linksEq : after.links = before.links) {amount : Int}
    (flowEq : after.flow arc.link = before.flow arc.link + amount * arc.sign) :
    (after.residual arc).map toInt = (before.residual arc).map (toInt · - amount) := by
  have inTwo : (before.residual arc).map (toInt · - amount) =
      ((before.residual arc).map toInt).map (· - amount) := by
    rw [Option.map_map]
    rfl
  rw [inTwo, soundAfter.residual_eq, sound.residual_eq, linksEq, flowEq, Arc.sign]
  split
  · rw [Option.map_some]
    congr 1
    ring
  · rw [Option.map_map]
    congr 1
    funext capacity
    rw [Function.comp_apply]
    ring

/-- A push on which no number leaves its range: the arc could carry the amount, and its residual shrinks
and that of its twin grows by just as much, if they are limited. -/
structure ExactPush (amount : W) (arc : Arc m) (before after : Residual n m W) : Prop where
  pushed : before.push arc amount = some after
  covered : ∀ left, before.residual arc = some left → toInt amount ≤ toInt left
  shrunk : (after.residual arc).map toInt = (before.residual arc).map (toInt · - toInt amount)
  grown : (after.residual arc.twin).map toInt =
    (before.residual arc.twin).map (toInt · + toInt amount)

/-- Such pushes along the arcs of a path, one after the other. -/
inductive ExactPushes (amount : W) : List (Arc m) → Residual n m W → Residual n m W → Prop
  | nil (network : Residual n m W) : ExactPushes amount [] network network
  | cons {arc : Arc m} {rest : List (Arc m)} {before middle after : Residual n m W}
      (first : ExactPush amount arc before middle) (others : ExactPushes amount rest middle after) :
      ExactPushes amount (arc :: rest) before after

theorem ExactPushes.push_all_eq {before after : Residual n m W}
    (pushes : ExactPushes amount path before after) : before.pushAll path amount = some after := by
  induction pushes with
  | nil network => rfl
  | cons first _ induction =>
      rw [pushAll, List.foldlM_cons]
      exact Option.bind_eq_some_iff.mpr ⟨_, first.pushed, induction⟩

theorem Sound.exact_push (sound : network.Sound) (notNegative : 0 ≤ toInt amount)
    (admits : network.Admits arc (toInt amount)) {after : Residual n m W}
    (pushed : network.push arc amount = some after) : ExactPush amount arc network after := by
  have effect := sound.push notNegative admits pushed
  have flowEq := effect.flow_eq arc.link
  rw [Arc.carriage_single, if_pos rfl] at flowEq
  refine ⟨pushed, (sound.admits_iff arc _).mp admits,
    sound.residual_sub effect.sound effect.links_eq flowEq, ?_⟩
  have twinEq : after.flow arc.twin.link =
      network.flow arc.twin.link + -toInt amount * arc.twin.sign := by
    rw [Arc.sign_twin, neg_mul_neg]
    exact flowEq
  have grown := sound.residual_sub effect.sound effect.links_eq twinEq
  simpa only [sub_neg_eq_add] using grown

/-- What the arcs of a path admit is sent along it exactly. -/
theorem Sound.exact_pushes (sound : network.Sound) (notNegative : 0 ≤ toInt amount)
    (distinct : (path.map Arc.link).Nodup)
    (admits : ∀ arc ∈ path, network.Admits arc (toInt amount)) {after : Residual n m W}
    (pushed : network.pushAll path amount = some after) :
    ExactPushes amount path network after := by
  induction path generalizing network with
  | nil =>
      obtain rfl := Option.some.inj pushed
      exact .nil network
  | cons arc rest induction =>
      rw [Residual.pushAll, List.foldlM_cons] at pushed
      obtain ⟨middle, first, others⟩ := Option.bind_eq_some_iff.mp pushed
      rw [List.map_cons, List.nodup_cons] at distinct
      have fits := admits arc (List.mem_cons_self ..)
      have here := sound.push notNegative fits first
      exact .cons (sound.exact_push notNegative fits first)
        (induction here.sound distinct.2 (here.rest_admits distinct.1 admits) others)

end Residual

end FlowTour
