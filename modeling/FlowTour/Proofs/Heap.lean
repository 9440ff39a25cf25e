import FlowTour.Heap
import Mathlib.Data.List.Perm.Basic

/-!
What heaps hold and which element comes out. Sifting only rearranges elements, whatever the order
is. When the order is total and transitive, every element stays below its parent: rising repairs a
heap in which one element may be too low, sinking moves such a place down to where no children are.
Elements that are changed without a change in their order come to lie in the same places.
-/

namespace FlowTour.Heap

variable {Element : Type}

def listed (heap : Heap Element) : List Element := heap.items.toList

section Contents

variable (below : Element → Element → Bool)

theorem sift_up_perm (fuel : Nat) (items : Array Element) (position : Nat) :
    (siftUp below fuel items position).Perm items := by
  induction fuel generalizing items position with
  | zero => exact Array.Perm.refl _
  | succ fuel induction =>
      unfold siftUp
      split
      · dsimp only
        split
        · exact Array.Perm.refl _
        · exact (induction _ _).trans (Array.swap_perm _ _)
      · exact Array.Perm.refl _

theorem sink_perm (fuel : Nat) (items : Array Element) (position : Nat) :
    (sink below fuel items position).1.Perm items := by
  induction fuel generalizing items position with
  | zero => exact Array.Perm.refl _
  | succ fuel induction =>
      unfold sink
      dsimp only
      split
      · split
        · exact (induction _ _).trans (Array.swap_perm _ _)
        · exact (induction _ _).trans (Array.swap_perm _ _)
      · split
        · exact Array.swap_perm _ _
        · exact Array.Perm.refl _

theorem push_perm (heap : Heap Element) (element : Element) :
    (heap.push below element).listed.Perm (element :: heap.listed) := by
  have risen := (sift_up_perm below heap.size (heap.items.push element) heap.size).toList
  rw [Array.toList_push] at risen
  exact risen.trans (List.perm_append_singleton element heap.items.toList)

theorem mem_push {heap : Heap Element} {element other : Element} :
    other ∈ (heap.push below element).listed ↔ other = element ∨ other ∈ heap.listed := by
  rw [(push_perm below heap element).mem_iff, List.mem_cons]

theorem pop?_eq_some {heap rest : Heap Element} {top : Element}
    (found : heap.pop? below = some (top, rest)) :
    (heap.items = #[top] ∧ rest.items = #[]) ∨
      ∃ (others : Array Element) (final : Element) (more : 0 < others.size),
        heap.items = others.push final ∧ top = others[0] ∧
          rest.items = siftUp below (sink below others.size (others.set 0 final) 0).2
            (sink below others.size (others.set 0 final) 0).1
            (sink below others.size (others.set 0 final) 0).2 := by
  obtain ⟨items⟩ := heap
  unfold pop? at found
  split at found
  · next filled =>
    obtain ⟨others, final, rfl⟩ := Array.eq_push_of_size_ne_zero (Nat.ne_of_gt filled)
    simp only [Array.pop_push] at found
    split at found
    · next more =>
      obtain ⟨rfl, rfl⟩ := Prod.mk.inj (Option.some.inj found)
      refine .inr ⟨others, final, more, rfl, rfl, ?_⟩
      simp
    · next single =>
      obtain rfl := Array.eq_empty_of_size_eq_zero (Nat.eq_zero_of_not_pos single)
      obtain ⟨rfl, rfl⟩ := Prod.mk.inj (Option.some.inj found)
      exact .inl ⟨rfl, rfl⟩
  · cases found

theorem pop?_eq_none {heap : Heap Element} (missing : heap.pop? below = none) :
    heap.listed = [] := by
  unfold pop? at missing
  split at missing
  · dsimp only at missing
    split at missing <;> cases missing
  · next unfilled =>
    rw [listed, Array.eq_empty_of_size_eq_zero (Nat.eq_zero_of_not_pos unfilled)]

theorem pop?_perm {heap rest : Heap Element} {top : Element}
    (found : heap.pop? below = some (top, rest)) : heap.listed.Perm (top :: rest.listed) := by
  rcases pop?_eq_some below found with ⟨items, others⟩ | ⟨others, final, more, items, first, rising⟩
  · rw [listed, listed, items, others]
  · have sifted : rest.listed.Perm (others.set 0 final).toList := by
      rw [listed, rising]
      exact ((sift_up_perm below _ _ _).trans (sink_perm below _ _ _)).toList
    rw [listed, items, Array.toList_push]
    apply List.Perm.trans _ (sifted.symm.cons top)
    obtain ⟨elements⟩ := others
    cases elements with
    | nil => simp at more
    | cons element elements =>
        obtain rfl : top = element := first
        exact (List.perm_append_singleton final elements).cons top

theorem mem_pop? {heap rest : Heap Element} {top other : Element}
    (found : heap.pop? below = some (top, rest)) :
    other ∈ heap.listed ↔ other = top ∨ other ∈ rest.listed := by
  rw [(pop?_perm below found).mem_iff, List.mem_cons]

end Contents

section Order

variable {below : Element → Element → Bool}

/-- No element has to come out before its parent. -/
def Ordered (below : Element → Element → Bool) (items : Array Element) : Prop :=
  ∀ place (bound : place < items.size), 0 < place →
    below items[place] (items[(place - 1) / 2]) = true

/-- A total and transitive order. -/
structure Ranking (below : Element → Element → Bool) : Prop where
  total : ∀ first second, below first second = true ∨ below second first = true
  trans : ∀ first second third, below first second = true → below second third = true →
    below first third = true

theorem Ranking.refl (ranking : Ranking below) (element : Element) : below element element = true :=
  (ranking.total element element).elim id id

theorem Ordered.below_top {items : Array Element} (ranking : Ranking below)
    (ordered : Ordered below items) (place : Nat) (bound : place < items.size) :
    below items[place] (items[0]) = true := by
  induction place using Nat.strongRecOn with
  | ind place induction =>
      by_cases top : place = 0
      · subst top
        exact ranking.refl _
      · have parent := induction ((place - 1) / 2) (by omega) (by omega)
        exact ranking.trans _ _ _ (ordered place bound (Nat.pos_of_ne_zero top)) parent

/-- Ordered, but for one element that may be too low. -/
structure Rising (below : Element → Element → Bool) (items : Array Element) (position : Nat) :
    Prop where
  ordered : ∀ place (bound : place < items.size), 0 < place → place ≠ position →
    below items[place] (items[(place - 1) / 2]) = true
  around : ∀ place (bound : place < items.size), 0 < place → (place - 1) / 2 = position →
    0 < position → below items[place] (items[((place - 1) / 2 - 1) / 2]) = true

/-- Ordered, but for one place that may be out of order with its parent and with its children. -/
structure Sinking (below : Element → Element → Bool) (items : Array Element) (position : Nat) :
    Prop where
  ordered : ∀ place (bound : place < items.size), 0 < place → place ≠ position →
    (place - 1) / 2 ≠ position → below items[place] (items[(place - 1) / 2]) = true
  around : ∀ place (bound : place < items.size), 0 < place → (place - 1) / 2 = position →
    0 < position → below items[place] (items[((place - 1) / 2 - 1) / 2]) = true

theorem Rising.swap (ranking : Ranking below) {items : Array Element} {position : Nat}
    (rising : Rising below items position) (bound : position < items.size) (notTop : 0 < position)
    (tooLow : below items[position] items[(position - 1) / 2] = false) :
    Rising below (items.swap position ((position - 1) / 2)) ((position - 1) / 2) := by
  have lifted : below items[(position - 1) / 2] items[position] = true := by
    rcases ranking.total items[position] items[(position - 1) / 2] with first | second
    · rw [tooLow] at first
      cases first
    · exact second
  constructor
  · intro place placeBound positive different
    rw [Array.size_swap] at placeBound
    rw [Array.getElem_swap, Array.getElem_swap, if_neg different]
    by_cases moved : place = position
    · subst moved
      simpa [show (place - 1) / 2 ≠ place by omega] using lifted
    · rw [if_neg moved]
      by_cases child : (place - 1) / 2 = position
      · rw [if_pos child]
        have bridged := rising.around place placeBound positive child notTop
        simpa only [child] using bridged
      · have kept := rising.ordered place placeBound positive moved
        rw [if_neg child]
        by_cases sibling : (place - 1) / 2 = (position - 1) / 2
        · rw [if_pos sibling]
          simp only [sibling] at kept
          exact ranking.trans _ _ _ kept lifted
        · rwa [if_neg sibling]
  · intro place placeBound positive child parentNotTop
    rw [Array.size_swap] at placeBound
    have parentBound : (position - 1) / 2 < items.size := by omega
    have above := rising.ordered ((position - 1) / 2) parentBound parentNotTop (by omega)
    have apart : ((position - 1) / 2 - 1) / 2 ≠ position := by omega
    have higher : ((position - 1) / 2 - 1) / 2 ≠ (position - 1) / 2 := by omega
    simp only [child]
    rw [Array.getElem_swap_of_ne apart higher]
    by_cases moved : place = position
    · subst moved
      rw [Array.getElem_swap_left]
      exact above
    · have kept := rising.ordered place placeBound positive moved
      simp only [child] at kept
      rw [Array.getElem_swap_of_ne moved (by omega)]
      exact ranking.trans _ _ _ kept above

theorem sift_up_ordered (ranking : Ranking below) {fuel : Nat} {items : Array Element}
    {position : Nat} (rising : Rising below items position) (bound : position < items.size)
    (enough : position ≤ fuel) : Ordered below (siftUp below fuel items position) := by
  induction fuel generalizing items position with
  | zero =>
      intro place placeBound positive
      exact rising.ordered place placeBound positive (by omega)
  | succ fuel induction =>
      unfold siftUp
      split
      · next notTop =>
        dsimp only
        split
        · next highEnough =>
          intro place placeBound positive
          by_cases here : place = position
          · subst here
            exact highEnough
          · exact rising.ordered place placeBound positive here
        · next tooLow =>
          apply induction (rising.swap ranking bound notTop.1 (Bool.eq_false_iff.mpr tooLow))
          · rw [Array.size_swap]
            omega
          · omega
      · next top =>
        intro place placeBound positive
        exact rising.ordered place placeBound positive (by omega)

theorem Sinking.swap {items : Array Element} {position child : Nat}
    (sinking : Sinking below items position)
    (bound : position < items.size) (childBound : child < items.size) (notTop : 0 < child)
    (isChild : (child - 1) / 2 = position)
    (upper : ∀ other (otherBound : other < items.size), 0 < other →
      (other - 1) / 2 = position → below items[other] items[child] = true) :
    Sinking below (items.swap position child) child := by
  constructor
  · intro place placeBound positive different notBelow
    rw [Array.size_swap] at placeBound
    rw [Array.getElem_swap, Array.getElem_swap, if_neg different, if_neg notBelow]
    by_cases moved : place = position
    · subst moved
      have bridged := sinking.around child childBound notTop isChild positive
      rw [if_pos rfl, if_neg (by omega)]
      simpa only [isChild] using bridged
    · rw [if_neg moved]
      by_cases under : (place - 1) / 2 = position
      · rw [if_pos under]
        exact upper place placeBound positive under
      · rw [if_neg under]
        exact sinking.ordered place placeBound positive moved under
  · intro place placeBound positive under childNotTop
    rw [Array.size_swap] at placeBound
    simp only [under, isChild]
    rw [Array.getElem_swap, Array.getElem_swap, if_neg (by omega), if_neg (by omega), if_pos rfl]
    have kept := sinking.ordered place placeBound positive (by omega) (by omega)
    simpa only [under] using kept

theorem Sinking.rising {items : Array Element} {position : Nat}
    (sinking : Sinking below items position) (childless : items.size ≤ 2 * position + 1) :
    Rising below items position := by
  constructor
  · intro place bound positive different
    exact sinking.ordered place bound positive different (by omega)
  · intro place bound positive child
    omega

theorem sink_rising (ranking : Ranking below) {fuel : Nat} {items : Array Element}
    {position : Nat} (sinking : Sinking below items position) (bound : position < items.size)
    (enough : items.size ≤ position + fuel) :
    Rising below (sink below fuel items position).1 (sink below fuel items position).2 ∧
      (sink below fuel items position).2 < (sink below fuel items position).1.size := by
  induction fuel generalizing items position with
  | zero => omega
  | succ fuel induction =>
      have children : ∀ {place : Nat}, (place - 1) / 2 = position → 0 < place →
          place = 2 * position + 1 ∨ place = 2 * position + 2 := by omega
      unfold sink
      dsimp only
      split
      · next both =>
        split
        · next leftBelow =>
          apply induction
          · apply sinking.swap bound both (by omega) (by omega)
            intro other otherBound positive child
            rcases children child positive with rfl | rfl
            · exact leftBelow
            · exact ranking.refl _
          · rw [Array.size_swap]
            omega
          · rw [Array.size_swap]
            omega
        · next notBelow =>
          apply induction
          · apply sinking.swap bound (by omega) (by omega) (by omega)
            intro other otherBound positive child
            rcases children child positive with rfl | rfl
            · exact ranking.refl _
            · exact (ranking.total _ _).resolve_left notBelow
          · rw [Array.size_swap]
            omega
          · rw [Array.size_swap]
            omega
      · next single =>
        split
        · next one =>
          refine ⟨?_, ?_⟩
          · apply Sinking.rising
            · apply sinking.swap bound one (by omega) (by omega)
              intro other otherBound positive child
              rcases children child positive with rfl | rfl
              · exact ranking.refl _
              · exact absurd otherBound single
            · rw [Array.size_swap]
              omega
          · rw [Array.size_swap]
            exact one
        · next childless => exact ⟨sinking.rising (by omega), bound⟩

theorem push_ordered (ranking : Ranking below) {heap : Heap Element}
    (ordered : Ordered below heap.items) (element : Element) :
    Ordered below (heap.push below element).items := by
  have size : (heap.items.push element).size = heap.size + 1 := Array.size_push element
  apply sift_up_ordered ranking
  · constructor
    · intro place bound positive different
      have inside : place < heap.items.size := by
        unfold Heap.size at *
        omega
      rw [Array.getElem_push_lt inside, Array.getElem_push_lt (by omega)]
      exact ordered place inside positive
    · intro place bound positive child notTop
      omega
  · omega
  · exact (Nat.le_refl _)

theorem Ordered.sinking {others : Array Element} {final : Element} (more : 0 < others.size)
    (ordered : Ordered below (others.push final)) : Sinking below (others.set 0 final) 0 := by
  constructor
  · intro place bound positive different notChild
    rw [Array.size_set] at bound
    rw [Array.getElem_set_ne _ _ (by omega), Array.getElem_set_ne _ _ (by omega)]
    have kept := ordered place (by rw [Array.size_push]; omega) positive
    rwa [Array.getElem_push_lt bound, Array.getElem_push_lt (by omega)] at kept
  · intro place bound positive child notTop
    omega

/-- The element that comes out is above all others, and the rest stays ordered. -/
theorem pop?_ordered (ranking : Ranking below) {heap rest : Heap Element} {top : Element}
    (ordered : Ordered below heap.items) (found : heap.pop? below = some (top, rest)) :
    Ordered below rest.items ∧ ∀ other ∈ heap.listed, below other top = true := by
  have highest : ∀ other ∈ heap.listed, ∀ bound : 0 < heap.items.size,
      below other (heap.items[0]) = true := by
    intro other member bound
    obtain ⟨place, placeBound, rfl⟩ := List.getElem_of_mem member
    exact ordered.below_top ranking place placeBound
  rcases pop?_eq_some below found with ⟨items, others⟩ | ⟨others, final, more, items, first, rising⟩
  · constructor
    · rw [others]
      intro place bound
      simp at bound
    · intro other member
      rw [listed, items, List.mem_singleton] at member
      rw [member]
      exact ranking.refl top
  · have filled : 0 < heap.items.size := by
      rw [items, Array.size_push]
      omega
    have same : top = heap.items[0] := by
      simp only [items, Array.getElem_push_lt more, first]
    constructor
    · have sinking := Ordered.sinking more (items ▸ ordered)
      have enough : (others.set 0 final).size ≤ 0 + others.size := by
        rw [Array.size_set]
        omega
      obtain ⟨sunk, bound⟩ := sink_rising ranking sinking (by rwa [Array.size_set]) enough
      rw [rising]
      exact sift_up_ordered ranking sunk bound (Nat.le_refl _)
    · intro other member
      rw [same]
      exact highest other member filled

end Order

section Map

variable {Other : Type} {below : Element → Element → Bool} {otherBelow : Other → Other → Bool}

def map (change : Element → Other) (heap : Heap Element) : Heap Other := ⟨heap.items.map change⟩

variable {change : Element → Other}

theorem map_swap (items : Array Element) (first second : Nat) (firstBound : first < items.size)
    (secondBound : second < items.size) :
    (items.swap first second).map change = (items.map change).swap first second
      (by rwa [Array.size_map]) (by rwa [Array.size_map]) := by
  apply Array.ext
  · simp
  · intro place _ _
    simp only [Array.getElem_map, Array.getElem_swap]
    split
    · rfl
    · split <;> rfl

variable (same : ∀ first second, otherBelow (change first) (change second) = below first second)
include same

theorem sift_up_map (fuel : Nat) (items : Array Element) (position : Nat) :
    siftUp otherBelow fuel (items.map change) position =
      (siftUp below fuel items position).map change := by
  induction fuel generalizing items position with
  | zero => rfl
  | succ fuel induction =>
      by_cases bound : 0 < position ∧ position < items.size
      · have mapped : 0 < position ∧ position < (items.map change).size := by
          rwa [Array.size_map]
        rw [siftUp, siftUp, dif_pos bound, dif_pos mapped]
        dsimp only
        rw [Array.getElem_map, Array.getElem_map, same]
        split
        · rfl
        · rw [← map_swap, induction]
      · have mapped : ¬(0 < position ∧ position < (items.map change).size) := by
          rwa [Array.size_map]
        rw [siftUp, siftUp, dif_neg bound, dif_neg mapped]

theorem sink_map (fuel : Nat) (items : Array Element) (position : Nat) :
    sink otherBelow fuel (items.map change) position =
      ((sink below fuel items position).1.map change, (sink below fuel items position).2) := by
  induction fuel generalizing items position with
  | zero => rfl
  | succ fuel induction =>
      rw [sink, sink]
      by_cases both : 2 * position + 2 < items.size
      · have mapped : 2 * position + 2 < (items.map change).size := by
          rwa [Array.size_map]
        rw [dif_pos both, dif_pos mapped, Array.getElem_map, Array.getElem_map, same]
        split
        · rw [← map_swap, induction]
        · rw [← map_swap, induction]
      · have mapped : ¬2 * position + 2 < (items.map change).size := by
          rwa [Array.size_map]
        rw [dif_neg both, dif_neg mapped]
        by_cases one : 2 * position + 1 < items.size
        · have mappedOne : 2 * position + 1 < (items.map change).size := by
            rwa [Array.size_map]
          rw [dif_pos one, dif_pos mappedOne, ← map_swap]
        · have mappedOne : ¬2 * position + 1 < (items.map change).size := by
            rwa [Array.size_map]
          rw [dif_neg one, dif_neg mappedOne]

theorem push_map (heap : Heap Element) (element : Element) :
    (heap.map change).push otherBelow (change element) = (heap.push below element).map change := by
  have size : (heap.map change).size = heap.size := Array.size_map
  rw [push, size]
  change Heap.mk (siftUp otherBelow heap.size ((heap.items.map change).push (change element))
    heap.size) = _
  rw [← Array.map_push, sift_up_map same]
  rfl

theorem pop?_map (heap : Heap Element) :
    (heap.map change).pop? otherBelow =
      (heap.pop? below).map fun popped => (change popped.1, popped.2.map change) := by
  unfold pop?
  by_cases filled : 0 < heap.items.size
  · have mapped : 0 < (heap.map change).items.size := by
      rwa [map, Array.size_map]
    rw [dif_pos filled, dif_pos mapped]
    by_cases more : 0 < heap.items.pop.size
    · have mappedMore : 0 < (heap.map change).items.pop.size := by
        rwa [map, ← Array.map_pop, Array.size_map]
      rw [dif_pos more, dif_pos mappedMore]
      have placed : (heap.items.pop.map change).set 0 (change heap.items[heap.items.size - 1])
          (by rwa [Array.size_map]) =
            (heap.items.pop.set 0 heap.items[heap.items.size - 1]).map change :=
        Array.map_set.symm
      simp only [map, ← Array.map_pop, Array.getElem_map, Array.size_map, placed, sink_map same,
        sift_up_map same, Option.map_some]
    · have mappedMore : ¬0 < (heap.map change).items.pop.size := by
        rwa [map, ← Array.map_pop, Array.size_map]
      rw [dif_neg more, dif_neg mappedMore]
      simp [map, empty]
  · have mapped : ¬0 < (heap.map change).items.size := by
      rwa [map, Array.size_map]
    rw [dif_neg filled, dif_neg mapped, Option.map_none]

end Map

end FlowTour.Heap
