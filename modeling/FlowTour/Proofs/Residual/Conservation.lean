import FlowTour.Proofs.Residual.Walk
import FlowTour.Proofs.Table
import FlowTour.Proofs.Weight.Exact
import Mathlib.Algebra.BigOperators.Ring.Finset
import Mathlib.Algebra.BigOperators.Group.Finset.Piecewise
import Mathlib.Algebra.BigOperators.Group.Finset.Sigma
import Mathlib.Tactic.Ring

/-!
Flows in integers. Amounts on links have a net outflow at every node, and prices on nodes turn net
outflows into differences of prices along links. In a sound network the room of a link is its
capacity less what it carries, and pushing along a simple route keeps it sound: the amount is carried
from the origin of the route to its end, and every other node passes it on.
-/

namespace FlowTour

namespace Arc

variable {m : Nat}

/-- Whether more (`1`) or less (`-1`) is carried on its link when an arc is used. -/
def sign (arc : Arc m) : Int := if arc.reversed then -1 else 1

theorem sign_twin (arc : Arc m) : arc.twin.sign = -arc.sign := by
  cases direction : arc.reversed <;> simp [sign, twin, direction]

/-- How often a path uses a link forwards, less how often it uses it backwards. -/
def carriage : List (Arc m) → Fin m → Int
  | [], _ => 0
  | arc :: rest, index => (if arc.link = index then arc.sign else 0) + carriage rest index

theorem carriage_single (arc : Arc m) (index : Fin m) :
    carriage [arc] index = if arc.link = index then arc.sign else 0 := by
  rw [carriage, carriage, Int.add_zero]

theorem carriage_of_not_mem {path : List (Arc m)} {index : Fin m}
    (absent : index ∉ path.map Arc.link) : carriage path index = 0 := by
  induction path with
  | nil => rfl
  | cons arc rest induction =>
      rw [List.map_cons, List.mem_cons, not_or] at absent
      rw [carriage, if_neg (Ne.symm absent.1), induction absent.2, Int.zero_add]

theorem carriage_of_mem {path : List (Arc m)} {arc : Arc m} (distinct : (path.map link).Nodup)
    (member : arc ∈ path) : carriage path arc.link = arc.sign := by
  induction path with
  | nil => simp at member
  | cons first rest induction =>
      rw [List.map_cons, List.nodup_cons] at distinct
      rw [carriage]
      rcases List.mem_cons.mp member with rfl | later
      · rw [if_pos rfl, carriage_of_not_mem distinct.1, Int.add_zero]
      · have different : first.link ≠ arc.link := by
          intro same
          exact distinct.1 (same ▸ List.mem_map_of_mem later)
        rw [if_neg different, induction distinct.2 later, Int.zero_add]

end Arc

namespace Residual

open Weight IntegerWeight Table

variable {n m : Nat} {W : Type}

section NetOutflow

variable (links : Vector (Link n W) m)

/-- What leaves a node on its links, less what enters it. -/
def netOutflow (amount : Fin m → Int) (node : Fin n) : Int :=
  ∑ index, amount index *
    ((if (links.get index).tail = node then 1 else 0) -
      if (links.get index).head = node then 1 else 0)

theorem sum_mul_net_outflow (price : Fin n → Int) (amount : Fin m → Int) :
    ∑ node, price node * netOutflow links amount node =
      ∑ index, amount index *
        (price (links.get index).tail - price (links.get index).head) := by
  simp only [netOutflow, Finset.mul_sum]
  rw [Finset.sum_comm]
  apply Finset.sum_congr rfl
  intro index _
  calc ∑ node, price node * (amount index * ((if (links.get index).tail = node then 1 else 0) -
          if (links.get index).head = node then 1 else 0))
      = amount index * ∑ node, ((if (links.get index).tail = node then price node else 0) -
          if (links.get index).head = node then price node else 0) := by
        rw [Finset.mul_sum]
        apply Finset.sum_congr rfl
        intro node _
        split <;> split <;> ring
    _ = amount index * (price (links.get index).tail - price (links.get index).head) := by
        rw [Finset.sum_sub_distrib, Finset.sum_ite_eq, Finset.sum_ite_eq]
        simp

theorem net_outflow_add_mul (first second : Fin m → Int) (factor : Int) (node : Fin n) :
    netOutflow links (fun index => first index + factor * second index) node =
      netOutflow links first node + factor * netOutflow links second node := by
  simp only [netOutflow, Finset.mul_sum, ← Finset.sum_add_distrib]
  apply Finset.sum_congr rfl
  intro index _
  ring

end NetOutflow

variable (network : Residual n m W)

/-- A walk carries one unit from its origin to its end. -/
theorem net_outflow_carriage {path : List (Arc m)} {origin node : Fin n}
    (leads : network.Leads path origin node) (other : Fin n) :
    netOutflow network.links (Arc.carriage path) other =
      (if origin = other then 1 else 0) - if node = other then 1 else 0 := by
  induction path generalizing origin with
  | nil =>
      obtain rfl : origin = node := leads
      simp [netOutflow, Arc.carriage]
  | cons arc rest induction =>
      have step : netOutflow network.links (fun index => if arc.link = index then arc.sign else 0)
          other = (if network.tail arc = other then 1 else 0) -
            if network.head arc = other then 1 else 0 := by
        simp only [netOutflow, ite_mul, zero_mul, Finset.sum_ite_eq, Finset.mem_univ, if_true]
        cases direction : arc.reversed <;> simp [tail, head, link, Arc.sign, direction]
      have total := net_outflow_add_mul network.links
        (fun index => if arc.link = index then arc.sign else 0) (Arc.carriage rest) 1 other
      simp only [one_mul] at total
      change netOutflow network.links (fun index =>
        (if arc.link = index then arc.sign else 0) + Arc.carriage rest index) other = _
      rw [total, step, induction leads.2, leads.1]
      ring

variable [IntegerWeight W]

def flow (index : Fin m) : Int := toInt (network.sent.get index)

structure Sound : Prop where
  flow_nonneg : ∀ index, 0 ≤ network.flow index
  unlimited : ∀ index, (network.links.get index).capacity = none → network.room.get index = none
  limited : ∀ index capacity, (network.links.get index).capacity = some capacity →
    network.flow index ≤ toInt capacity ∧
      ∃ room, network.room.get index = some room ∧
        toInt room = toInt capacity - network.flow index

omit [IntegerWeight W] in
@[simp] theorem of_links_links [Weight W] (links : Vector (Link n W) m) :
    (ofLinks links).links = links := rfl

@[simp] theorem flow_of_links (links : Vector (Link n W) m) (index : Fin m) :
    (ofLinks links).flow index = 0 := by
  simp [flow, ofLinks, to_int_zero]

@[simp] theorem net_outflow_of_links (links : Vector (Link n W) m) (node : Fin n) :
    netOutflow links (ofLinks links).flow node = 0 := by
  simp [netOutflow]

theorem sound_of_links {links : Vector (Link n W) m}
    (nonneg : ∀ index capacity, (links.get index).capacity = some capacity → 0 ≤ toInt capacity) :
    (ofLinks links).Sound where
  flow_nonneg index := by rw [flow_of_links]
  unlimited index free := by simpa [ofLinks] using free
  limited index capacity limit := by
    rw [flow_of_links]
    exact ⟨nonneg index capacity limit, capacity, by simpa [ofLinks] using limit, by omega⟩

variable {network} in
theorem Sound.room_nonneg (sound : network.Sound) {index : Fin m} {room : W}
    (found : network.room.get index = some room) : 0 ≤ toInt room := by
  cases capacity : (network.links.get index).capacity with
  | none =>
      rw [sound.unlimited index capacity] at found
      cases found
  | some limit =>
      obtain ⟨atMost, other, there, exact⟩ := sound.limited index limit capacity
      obtain rfl := Option.some.inj (found.symm.trans there)
      omega

/-- Whether an amount can still be sent along an arc. -/
def Admits (arc : Arc m) (amount : Int) : Prop :=
  if arc.reversed then amount ≤ network.flow arc.link
  else ∀ capacity, (network.links.get arc.link).capacity = some capacity →
    network.flow arc.link + amount ≤ toInt capacity

variable {network} {arc : Arc m} {path : List (Arc m)}

theorem Sound.admits_iff (sound : network.Sound) (arc : Arc m) (amount : Int) :
    network.Admits arc amount ↔ ∀ left, network.residual arc = some left → amount ≤ toInt left := by
  obtain ⟨index, reversed⟩ := arc
  cases reversed
  case true => simp [Admits, residual, flow]
  case false =>
    cases capacity : (network.links.get index).capacity with
    | none => simp [Admits, residual, capacity, sound.unlimited index capacity]
    | some limit =>
        obtain ⟨-, room, found, exact⟩ := sound.limited index limit capacity
        simp only [Admits, residual, capacity, found, Bool.false_eq_true, if_false,
          Option.some.injEq, forall_eq', exact]
        omega

theorem Sound.has_capacity_iff (sound : network.Sound) (arc : Arc m) :
    network.hasCapacity arc = true ↔ network.Admits arc 1 := by
  rw [sound.admits_iff]
  cases left : network.residual arc with
  | none => simp [hasCapacity, left]
  | some amount =>
      simp only [hasCapacity, left, is_positive_iff, Option.some.injEq, forall_eq']
      omega

/-- What sending an amount along a path does to a network. -/
structure Pushed (before after : Residual n m W) (path : List (Arc m)) (amount : Int) : Prop where
  sound : after.Sound
  links_eq : after.links = before.links
  flow_eq : ∀ index, after.flow index = before.flow index + amount * Arc.carriage path index

theorem to_int_sub_of_le {left right : W} (notNegative : 0 ≤ toInt right)
    (atMost : toInt right ≤ toInt left) : toInt (left - right) = toInt left - toInt right := by
  have atLeastZero : toInt (0 : W) ≤ toInt left - toInt right := by
    rw [to_int_zero]
    omega
  have atMostLeft : toInt left - toInt right ≤ toInt left := by omega
  exact to_int_sub atLeastZero atMostLeft

/-- A change to one link's numbers that keeps them in step with each other. -/
theorem Sound.pushed_of_link (sound : network.Sound) {after : Residual n m W} {amount : Int}
    (linksEq : after.links = network.links)
    (elsewhere : ∀ place, arc.link ≠ place →
      after.sent.get place = network.sent.get place ∧ after.room.get place = network.room.get place)
    (flowEq : after.flow arc.link = network.flow arc.link + amount * arc.sign)
    (flowNonneg : 0 ≤ after.flow arc.link)
    (unlimited : network.room.get arc.link = none → after.room.get arc.link = none)
    (limited : ∀ room, network.room.get arc.link = some room →
      ∃ left, after.room.get arc.link = some left ∧ 0 ≤ toInt left ∧
        toInt left = toInt room - amount * arc.sign) :
    Pushed network after [arc] amount := by
  have flows : ∀ place, after.flow place =
      network.flow place + amount * Arc.carriage [arc] place := by
    intro place
    rw [Arc.carriage_single]
    split
    · next same => rw [← same, flowEq]
    · next different => rw [flow, (elsewhere place different).1, Int.mul_zero, Int.add_zero, flow]
  refine ⟨⟨?_, ?_, ?_⟩, linksEq, flows⟩
  · intro place
    by_cases same : arc.link = place
    · exact same ▸ flowNonneg
    · rw [flow, (elsewhere place same).1]
      exact sound.flow_nonneg place
  · intro place free
    rw [linksEq] at free
    by_cases same : arc.link = place
    · exact same ▸ unlimited (same ▸ sound.unlimited place free)
    · rw [(elsewhere place same).2]
      exact sound.unlimited place free
  · intro place capacity limit
    rw [linksEq] at limit
    obtain ⟨atMost, room, found, exact⟩ := sound.limited place capacity limit
    by_cases same : arc.link = place
    · subst same
      obtain ⟨left, there, notNegative, less⟩ := limited room found
      exact ⟨by omega, left, there, by omega⟩
    · rw [flow, (elsewhere place same).1, (elsewhere place same).2]
      exact ⟨atMost, room, found, exact⟩

theorem Sound.push_back (sound : network.Sound) {index : Fin m} {amount : W}
    (notNegative : 0 ≤ toInt amount) (enough : toInt amount ≤ toInt (network.sent.get index))
    {after : Residual n m W} (pushed : network.push ⟨index, true⟩ amount = some after) :
    Pushed network after [⟨index, true⟩] (toInt amount) := by
  have less := to_int_sub_of_le notNegative enough
  have elsewhere : ∀ place, index ≠ place → (network.sent.set index.val
      (network.sent.get index - amount) index.isLt).get place = network.sent.get place := by
    intro place different
    simp [get_set, different]
  cases room : network.room.get index with
  | none =>
      obtain rfl : _ = after := by simpa [Residual.push, room] using pushed
      apply sound.pushed_of_link
      · rfl
      · exact fun place different => ⟨elsewhere place different, rfl⟩
      · simp only [flow, get_set, if_true, Arc.sign]
        omega
      · simp only [flow, get_set, if_true]
        omega
      · exact id
      · intro left found
        rw [room] at found
        cases found
  | some left =>
      obtain ⟨grown, added, rfl⟩ : ∃ grown, tryAdd left amount = some grown ∧ _ = after := by
        simpa [Residual.push, room] using pushed
      have more := try_add_eq_some_iff.mp added
      have leftNonneg := sound.room_nonneg room
      apply sound.pushed_of_link
      · rfl
      · intro place different
        exact ⟨elsewhere place different, by simp [get_set, show index ≠ place from different]⟩
      · simp only [flow, get_set, if_true, Arc.sign]
        omega
      · simp only [flow, get_set, if_true]
        omega
      · intro free
        rw [room] at free
        cases free
      · intro other found
        obtain rfl := Option.some.inj (room.symm.trans found)
        refine ⟨grown, by simp [get_set], by omega, ?_⟩
        simp only [Arc.sign, if_true]
        omega

theorem Sound.push_ahead (sound : network.Sound) {index : Fin m} {amount : W}
    (notNegative : 0 ≤ toInt amount)
    (enough : ∀ left, network.room.get index = some left → toInt amount ≤ toInt left)
    {after : Residual n m W} (pushed : network.push ⟨index, false⟩ amount = some after) :
    Pushed network after [⟨index, false⟩] (toInt amount) := by
  obtain ⟨grown, added, rfl⟩ : ∃ grown, tryAdd (network.sent.get index) amount = some grown ∧
      _ = after := by
    simpa [Residual.push] using pushed
  have more := try_add_eq_some_iff.mp added
  have sentNonneg : 0 ≤ toInt (network.sent.get index) := sound.flow_nonneg index
  apply sound.pushed_of_link
  · rfl
  · intro place different
    simp [get_set, show index ≠ place from different]
  · simp only [flow, get_set, if_true, Arc.sign]
    simp only [Bool.false_eq_true, if_false]
    omega
  · simp only [flow, get_set, if_true]
    omega
  · intro free
    simp only [get_set, if_true, free, Option.map_none]
  · intro left found
    have less := to_int_sub_of_le notNegative (enough left found)
    have covered := enough left found
    refine ⟨left - amount, by simp [get_set, found], by omega, ?_⟩
    simp only [Arc.sign, Bool.false_eq_true, if_false]
    omega

theorem Sound.push (sound : network.Sound) {amount : W} (notNegative : 0 ≤ toInt amount)
    (admits : network.Admits arc (toInt amount)) {after : Residual n m W}
    (pushed : network.push arc amount = some after) :
    Pushed network after [arc] (toInt amount) := by
  have covered := (sound.admits_iff arc _).mp admits
  obtain ⟨index, reversed⟩ := arc
  cases reversed with
  | true => exact sound.push_back notNegative (covered _ rfl) pushed
  | false => exact sound.push_ahead notNegative covered pushed

theorem admits_congr {before after : Residual n m W} (linksEq : after.links = before.links)
    (flowEq : after.flow arc.link = before.flow arc.link) (amount : Int) :
    after.Admits arc amount ↔ before.Admits arc amount := by
  rw [Admits, Admits, linksEq, flowEq]

/-- The arcs that follow on a path find their links as they were. -/
theorem Pushed.flow_rest_eq {before after : Residual n m W} {rest : List (Arc m)} {amount : Int}
    (pushed : Pushed before after [arc] amount) (distinct : arc.link ∉ rest.map Arc.link) :
    ∀ other ∈ rest, after.flow other.link = before.flow other.link := by
  intro other member
  have different : arc.link ≠ other.link := by
    intro same
    exact distinct (same ▸ List.mem_map_of_mem member)
  rw [pushed.flow_eq, Arc.carriage_single, if_neg different, Int.mul_zero, Int.add_zero]

theorem Pushed.rest_admits {before after : Residual n m W} {rest : List (Arc m)}
    {amount sent : Int} (pushed : Pushed before after [arc] sent)
    (distinct : arc.link ∉ rest.map Arc.link)
    (admits : ∀ other ∈ arc :: rest, before.Admits other amount) :
    ∀ other ∈ rest, after.Admits other amount := by
  intro other member
  have flowEq := pushed.flow_rest_eq distinct other member
  exact (admits_congr pushed.links_eq flowEq amount).mpr
    (admits other (List.mem_cons_of_mem _ member))

theorem Sound.push_all (sound : network.Sound) {amount : W} (notNegative : 0 ≤ toInt amount)
    (distinct : (path.map Arc.link).Nodup)
    (admits : ∀ arc ∈ path, network.Admits arc (toInt amount)) {after : Residual n m W}
    (pushed : network.pushAll path amount = some after) :
    Pushed network after path (toInt amount) := by
  induction path generalizing network with
  | nil =>
      obtain rfl := Option.some.inj pushed
      refine ⟨sound, rfl, ?_⟩
      intro index
      rw [Arc.carriage, Int.mul_zero, Int.add_zero]
  | cons arc rest induction =>
      rw [Residual.pushAll, List.foldlM_cons] at pushed
      obtain ⟨middle, first, others⟩ := Option.bind_eq_some_iff.mp pushed
      rw [List.map_cons, List.nodup_cons] at distinct
      have here := sound.push notNegative (admits arc (List.mem_cons_self ..)) first
      have later := induction here.sound distinct.2 (here.rest_admits distinct.1 admits) others
      refine ⟨later.sound, later.links_eq.trans here.links_eq, ?_⟩
      intro index
      rw [later.flow_eq, here.flow_eq, Arc.carriage_single, Arc.carriage]
      ring

theorem admits_bottleneck (sound : network.Sound) {amount : W}
    (found : network.bottleneck path = some amount) :
    ∀ arc ∈ path, network.Admits arc (toInt amount) := by
  intro arc member
  rw [sound.admits_iff]
  intro left residual
  exact to_int_least?_le found left (List.mem_filterMap.mpr ⟨arc, member, residual⟩)

theorem exists_residual_eq_bottleneck {amount : W} (found : network.bottleneck path = some amount) :
    ∃ arc ∈ path, network.residual arc = some amount :=
  List.mem_filterMap.mp (least?_mem found)

theorem one_le_bottleneck {amount : W} (usable : ∀ arc ∈ path, network.hasCapacity arc = true)
    (found : network.bottleneck path = some amount) : 1 ≤ toInt amount := by
  obtain ⟨arc, member, residual⟩ := exists_residual_eq_bottleneck found
  have capacity := usable arc member
  simp only [hasCapacity, residual, is_positive_iff] at capacity
  omega

/-- A path has a bottleneck as soon as one of its arcs is limited; reversed arcs always are. -/
theorem Sound.bottleneck_ne_none (sound : network.Sound) (member : arc ∈ path)
    (limited : arc.reversed = false → (network.links.get arc.link).capacity ≠ none) :
    network.bottleneck path ≠ none := by
  have residual : ∃ left, network.residual arc = some left := by
    obtain ⟨index, reversed⟩ := arc
    cases reversed
    case true => exact ⟨_, rfl⟩
    case false =>
      obtain ⟨capacity, found⟩ := Option.ne_none_iff_exists'.mp (limited rfl)
      obtain ⟨-, room, there, -⟩ := sound.limited index capacity found
      exact ⟨room, there⟩
  obtain ⟨left, found⟩ := residual
  have isSome := least?_is_some_of_mem (List.mem_filterMap.mpr ⟨arc, member, found⟩)
  exact Option.isSome_iff_ne_none.mp isSome

section Congruence

variable {V : Type} {before after : Residual n m V}

theorem tail_congr (linksEq : after.links = before.links) (arc : Arc m) :
    after.tail arc = before.tail arc := by
  simp only [tail, link, linksEq]

theorem head_congr (linksEq : after.links = before.links) (arc : Arc m) :
    after.head arc = before.head arc := by
  simp only [head, link, linksEq]

end Congruence

namespace Pushed

variable {before after : Residual n m W} {amount : Int}

theorem had_capacity (pushed : Pushed before after path amount) (sound : before.Sound)
    (usable : ∀ arc ∈ path, before.hasCapacity arc = true)
    (capacity : after.hasCapacity arc = true) :
    before.hasCapacity arc = true ∨ arc.twin ∈ path := by
  by_cases used : arc.link ∈ path.map Arc.link
  · obtain ⟨other, member, same⟩ := List.mem_map.mp used
    rcases eq_or_eq_twin same with rfl | rfl
    · exact .inl (usable other member)
    · exact .inr member
  · have flowEq := pushed.flow_eq arc.link
    rw [Arc.carriage_of_not_mem used, Int.mul_zero, Int.add_zero] at flowEq
    rw [pushed.sound.has_capacity_iff, admits_congr pushed.links_eq flowEq] at capacity
    exact .inl ((sound.has_capacity_iff arc).mpr capacity)

theorem exhausted {amount : W} (pushed : Pushed before after path (toInt amount))
    (sound : before.Sound) (distinct : (path.map Arc.link).Nodup) (member : arc ∈ path)
    (residual : before.residual arc = some amount) : ¬after.hasCapacity arc = true := by
  have flowEq := pushed.flow_eq arc.link
  rw [Arc.carriage_of_mem distinct member] at flowEq
  rw [pushed.sound.has_capacity_iff, Admits, flowEq, pushed.links_eq]
  obtain ⟨index, reversed⟩ := arc
  cases reversed
  case true =>
    have exact : before.flow index = toInt amount := congrArg toInt (Option.some.inj residual)
    simp only [Arc.sign, if_true, exact]
    omega
  case false =>
    have room : before.room.get index = some amount := residual
    cases capacity : (before.links.get index).capacity with
    | none =>
        rw [sound.unlimited index capacity] at room
        cases room
    | some limit =>
        obtain ⟨atMost, left, found, exact⟩ := sound.limited index limit capacity
        obtain rfl := Option.some.inj (room.symm.trans found)
        simp only [Arc.sign, Bool.false_eq_true, if_false, Option.some.injEq, forall_eq']
        omega

theorem net_outflow_eq (pushed : Pushed before after path amount) {origin node : Fin n}
    (leads : before.Leads path origin node) (other : Fin n) :
    netOutflow after.links after.flow other = netOutflow before.links before.flow other +
      amount * ((if origin = other then 1 else 0) - if node = other then 1 else 0) := by
  rw [← net_outflow_carriage before leads, ← net_outflow_add_mul, pushed.links_eq,
    show after.flow = fun index => before.flow index + amount * Arc.carriage path index from
      funext pushed.flow_eq]

end Pushed

end Residual

end FlowTour
