import FlowTour.Proofs.Residual.BreadthFirst
import FlowTour.Proofs.Residual.Conservation
import Mathlib.Algebra.Order.BigOperators.Group.Finset
import Mathlib.Algebra.Order.Ring.Int

/-!
Flows across a set of nodes. What leaves the source of a flow has to leave every set of nodes around
it, so it is at most the capacity of the links that lead out; and out of the set that routes lead to,
every link is full and no link back carries anything. Amounts that reach the net outflow of larger
ones at a node whose links all go one way are no smaller there.
-/

namespace FlowTour.Residual

open IntegerWeight

variable {n m : Nat} {W : Type}

section Crossing

variable (links : Vector (Link n W) m)

/-- The links that lead out of a set of nodes. -/
def crossing (side : Finset (Fin n)) : Finset (Fin m) :=
  Finset.univ.filter fun index =>
    (links.get index).tail ∈ side ∧ (links.get index).head ∉ side

variable {links} {side : Finset (Fin n)} {source target : Fin n} {amount : Fin m → Int}

theorem mem_crossing {index : Fin m} :
    index ∈ crossing links side ↔
      (links.get index).tail ∈ side ∧ (links.get index).head ∉ side := by
  simp [crossing]

theorem sum_net_outflow_eq (side : Finset (Fin n)) :
    ∑ node ∈ side, netOutflow links amount node =
      ∑ index, amount index * ((if (links.get index).tail ∈ side then 1 else 0) -
        if (links.get index).head ∈ side then 1 else 0) := by
  have priced := sum_mul_net_outflow links (fun node => if node ∈ side then 1 else 0) amount
  simpa [ite_mul] using priced

theorem net_outflow_source_eq (conserved : ∀ node, node ≠ source → node ≠ target →
      netOutflow links amount node = 0) (inside : source ∈ side) (outside : target ∉ side) :
    netOutflow links amount source =
      ∑ index, amount index * ((if (links.get index).tail ∈ side then 1 else 0) -
        if (links.get index).head ∈ side then 1 else 0) := by
  rw [← sum_net_outflow_eq, Finset.sum_eq_single_of_mem source inside]
  intro node member different
  apply conserved node different
  rintro rfl
  exact outside member

theorem net_outflow_le_crossing (conserved : ∀ node, node ≠ source → node ≠ target →
      netOutflow links amount node = 0) (inside : source ∈ side) (outside : target ∉ side)
    (nonneg : ∀ index, 0 ≤ amount index) :
    netOutflow links amount source ≤ ∑ index ∈ crossing links side, amount index := by
  rw [net_outflow_source_eq conserved inside outside, crossing, Finset.sum_filter]
  apply Finset.sum_le_sum
  intro index _
  have := nonneg index
  by_cases tail : (links.get index).tail ∈ side <;>
    by_cases head : (links.get index).head ∈ side <;> simp [tail, head, this]

theorem net_outflow_eq_crossing (conserved : ∀ node, node ≠ source → node ≠ target →
      netOutflow links amount node = 0) (inside : source ∈ side) (outside : target ∉ side)
    (empty : ∀ index, (links.get index).tail ∉ side → (links.get index).head ∈ side →
      amount index = 0) :
    netOutflow links amount source = ∑ index ∈ crossing links side, amount index := by
  rw [net_outflow_source_eq conserved inside outside, crossing, Finset.sum_filter]
  apply Finset.sum_congr rfl
  intro index _
  by_cases tail : (links.get index).tail ∈ side <;>
    by_cases head : (links.get index).head ∈ side <;> simp [tail, head]
  exact empty index tail head

theorem net_outflow_target_eq (conserved : ∀ node, node ≠ source → node ≠ target →
      netOutflow links amount node = 0) (different : source ≠ target) :
    netOutflow links amount target = -netOutflow links amount source := by
  have priced := sum_mul_net_outflow links (fun _ => 1) amount
  simp only [one_mul, sub_self, mul_zero, Finset.sum_const_zero] at priced
  rw [Finset.sum_eq_add source target different] at priced
  · omega
  · intro node _ neither
    exact conserved node neither.1 neither.2
  · simp
  · simp

/-- A flow that is worth the capacity of all links out of a set fills these links and sends nothing
back. -/
theorem tight_of_le {capacity : Fin m → Int} (conserved : ∀ node, node ≠ source → node ≠ target →
      netOutflow links amount node = 0) (inside : source ∈ side) (outside : target ∉ side)
    (nonneg : ∀ index, 0 ≤ amount index) (within : ∀ index, amount index ≤ capacity index)
    (tight : ∑ index ∈ crossing links side, capacity index ≤ netOutflow links amount source) :
    (∀ index ∈ crossing links side, amount index = capacity index) ∧
      ∀ index, (links.get index).tail ∉ side → (links.get index).head ∈ side →
        amount index = 0 := by
  have termwise : ∀ index ∈ Finset.univ,
      amount index * ((if (links.get index).tail ∈ side then 1 else 0) -
        if (links.get index).head ∈ side then 1 else 0) ≤
      if (links.get index).tail ∈ side ∧ (links.get index).head ∉ side then capacity index else 0 := by
    intro index _
    have floor := nonneg index
    have room := within index
    by_cases tail : (links.get index).tail ∈ side <;>
      by_cases head : (links.get index).head ∈ side <;> simp [tail, head, floor, room]
  rw [net_outflow_source_eq conserved inside outside, crossing, Finset.sum_filter] at tight
  have equal := (Finset.sum_eq_sum_iff_of_le termwise).mp
    (le_antisymm (Finset.sum_le_sum termwise) tight)
  constructor
  · intro index crosses
    obtain ⟨tail, head⟩ := mem_crossing.mp crosses
    simpa [tail, head] using equal index (Finset.mem_univ index)
  · intro index tail head
    simpa [tail, head] using equal index (Finset.mem_univ index)

end Crossing

section Comparison

/-- Amounts that fall short nowhere and add up to as much are the same wherever they count. -/
theorem eq_of_sum_mul_le {share small large : Fin m → Int}
    (shareNonneg : ∀ index, 0 ≤ share index) (le : ∀ index, small index ≤ large index)
    (enough : ∑ index, large index * share index ≤ ∑ index, small index * share index)
    {index : Fin m} (counts : share index ≠ 0) : small index = large index := by
  have termwise : ∀ index ∈ Finset.univ, small index * share index ≤ large index * share index := by
    intro index _
    exact mul_le_mul_of_nonneg_right (le index) (shareNonneg index)
  have equal := le_antisymm (Finset.sum_le_sum termwise) enough
  have here := (Finset.sum_eq_sum_iff_of_le termwise).mp equal index (Finset.mem_univ index)
  exact mul_right_cancel₀ counts here

variable {links : Vector (Link n W) m} {node : Fin n} {small large : Fin m → Int}

theorem net_outflow_of_none_enters (noneEnters : ∀ index, (links.get index).head ≠ node)
    (amount : Fin m → Int) : netOutflow links amount node =
      ∑ index, amount index * if (links.get index).tail = node then 1 else 0 := by
  simp only [netOutflow, noneEnters, if_false, sub_zero]

theorem eq_of_none_enters (le : ∀ index, small index ≤ large index)
    (noneEnters : ∀ index, (links.get index).head ≠ node)
    (enough : netOutflow links large node ≤ netOutflow links small node) {index : Fin m}
    (leaves : (links.get index).tail = node) : small index = large index := by
  rw [net_outflow_of_none_enters noneEnters, net_outflow_of_none_enters noneEnters] at enough
  apply eq_of_sum_mul_le _ le enough
  · rw [if_pos leaves]
    decide
  · intro other
    split <;> decide

theorem eq_of_none_leaves (le : ∀ index, small index ≤ large index)
    (noneLeaves : ∀ index, (links.get index).tail ≠ node)
    (enough : netOutflow links small node ≤ netOutflow links large node) {index : Fin m}
    (enters : (links.get index).head = node) : small index = large index := by
  have entering : ∀ amount, netOutflow links amount node =
      -∑ index, amount index * if (links.get index).head = node then 1 else 0 := by
    intro amount
    simp only [netOutflow, noneLeaves, if_false, zero_sub, mul_neg, Finset.sum_neg_distrib]
  rw [entering, entering] at enough
  apply eq_of_sum_mul_le _ le (neg_le_neg_iff.mp enough)
  · rw [if_pos enters]
    decide
  · intro other
    split <;> decide

end Comparison

section Reached

variable [IntegerWeight W] (network : Residual n m W)

open Classical in
/-- The nodes that routes lead to. -/
noncomputable def reachedFrom (origin : Fin n) : Finset (Fin n) :=
  Finset.univ.filter fun node => network.Reaches origin node

variable {network} {origin node : Fin n}

theorem mem_reached_from : node ∈ network.reachedFrom origin ↔ network.Reaches origin node := by
  simp [reachedFrom]

variable (network origin) in
theorem reaches_self : network.Reaches origin origin := ⟨[], rfl, by simp⟩

theorem Reaches.step (arc : Arc m) (reached : network.Reaches origin (network.tail arc))
    (usable : network.hasCapacity arc = true) : network.Reaches origin (network.head arc) := by
  obtain ⟨path, route⟩ := reached
  exact ⟨path ++ [arc], route.append (route_single usable)⟩

theorem Sound.full_of_crossing (sound : network.Sound) {index : Fin m}
    (crosses : index ∈ crossing network.links (network.reachedFrom origin)) :
    ∃ capacity, (network.links.get index).capacity = some capacity ∧
      network.flow index = toInt capacity := by
  obtain ⟨inside, outside⟩ := mem_crossing.mp crosses
  rw [mem_reached_from] at inside outside
  have blocked : ¬network.hasCapacity ⟨index, false⟩ = true := by
    intro usable
    exact outside (Reaches.step ⟨index, false⟩ inside usable)
  rw [sound.has_capacity_iff] at blocked
  simp only [Admits, Bool.false_eq_true, if_false, not_forall] at blocked
  obtain ⟨capacity, limit, most⟩ := blocked
  have atMost := (sound.limited index capacity limit).1
  exact ⟨capacity, limit, by omega⟩

theorem Sound.empty_of_entering (sound : network.Sound) {index : Fin m}
    (outside : (network.links.get index).tail ∉ network.reachedFrom origin)
    (inside : (network.links.get index).head ∈ network.reachedFrom origin) :
    network.flow index = 0 := by
  rw [mem_reached_from] at inside outside
  have blocked : ¬network.hasCapacity ⟨index, true⟩ = true := by
    intro usable
    exact outside (Reaches.step ⟨index, true⟩ inside usable)
  rw [sound.has_capacity_iff] at blocked
  simp only [Admits, if_true] at blocked
  have := sound.flow_nonneg index
  omega

/-- Out of a set whose links out are full, and into which nothing is sent, no route leads. -/
theorem Sound.mem_of_reaches (sound : network.Sound) {side : Finset (Fin n)} (inside : origin ∈ side)
    (full : ∀ index ∈ crossing network.links side, ∃ capacity,
      (network.links.get index).capacity = some capacity ∧ network.flow index = toInt capacity)
    (empty : ∀ index, (network.links.get index).tail ∉ side →
      (network.links.get index).head ∈ side → network.flow index = 0)
    (reached : network.Reaches origin node) : node ∈ side := by
  obtain ⟨path, route⟩ := reached
  induction path using List.reverseRecOn generalizing node with
  | nil => exact route.leads ▸ inside
  | append_singleton path arc induction =>
      obtain ⟨toTail, ends⟩ := leads_concat.mp route.leads
      have before := induction ⟨toTail, fun other member =>
        route.usable other (List.mem_append_left _ member)⟩
      have usable := (sound.has_capacity_iff arc).mp (route.usable arc (by simp))
      by_contra beyond
      rw [← ends] at beyond
      obtain ⟨index, reversed⟩ := arc
      cases reversed with
      | false =>
          obtain ⟨capacity, limit, most⟩ := full index (mem_crossing.mpr ⟨before, beyond⟩)
          have more := usable capacity limit
          simp only [most] at more
          omega
      | true =>
          have nothing := empty index beyond before
          simp only [Admits, if_true, nothing] at usable
          omega

/-- A flow that leaves no route to the target has the largest value. -/
theorem Sound.net_outflow_le (sound : network.Sound) {target : Fin n}
    (conserved : ∀ node, node ≠ origin → node ≠ target →
      netOutflow network.links network.flow node = 0)
    (unreachable : ¬network.Reaches origin target) {other : Fin m → Int}
    (nonneg : ∀ index, 0 ≤ other index)
    (within : ∀ index capacity, (network.links.get index).capacity = some capacity →
      other index ≤ toInt capacity)
    (alsoConserved : ∀ node, node ≠ origin → node ≠ target →
      netOutflow network.links other node = 0) :
    netOutflow network.links other origin ≤ netOutflow network.links network.flow origin := by
  have inside := mem_reached_from.mpr (reaches_self network origin)
  have outside := mt mem_reached_from.mp unreachable
  calc netOutflow network.links other origin
      ≤ ∑ index ∈ crossing network.links (network.reachedFrom origin), other index :=
        net_outflow_le_crossing alsoConserved inside outside nonneg
    _ ≤ ∑ index ∈ crossing network.links (network.reachedFrom origin), network.flow index := by
        apply Finset.sum_le_sum
        intro index crosses
        obtain ⟨capacity, limit, full⟩ := sound.full_of_crossing crosses
        rw [full]
        exact within index capacity limit
    _ = netOutflow network.links network.flow origin :=
        (net_outflow_eq_crossing conserved inside outside fun index => sound.empty_of_entering).symm

end Reached

end FlowTour.Residual
