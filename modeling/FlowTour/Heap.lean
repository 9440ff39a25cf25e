/-!
Binary heaps in an array. The order is given with each operation as `below`, which says that an
element does not have to come out before another one; it may be any Boolean relation. Where it leaves
a choice between elements, which one comes out follows from the sifting: an element taken from the
end of the array sinks all the way down along the upper children first and then rises again.
-/

namespace FlowTour

structure Heap (Element : Type) where
  items : Array Element

namespace Heap

variable {Element : Type}

def empty : Heap Element := ⟨#[]⟩

def size (heap : Heap Element) : Nat := heap.items.size

/-- Swaps an element upwards until it is below its parent. Each swap at least halves its position,
so the position itself is fuel enough. -/
def siftUp (below : Element → Element → Bool) :
    Nat → (items : Array Element) → (position : Nat) → Array Element
  | 0, items, _ => items
  | fuel + 1, items, position =>
      if bound : 0 < position ∧ position < items.size then
        let parent := (position - 1) / 2
        if below items[position] items[parent] then items
        else siftUp below fuel (items.swap position parent) parent
      else items

/-- Swaps an element downwards with the upper one of its children until it has none. -/
def sink (below : Element → Element → Bool) :
    Nat → (items : Array Element) → (position : Nat) → Array Element × Nat
  | 0, items, position => (items, position)
  | fuel + 1, items, position =>
      let left := 2 * position + 1
      let right := 2 * position + 2
      if both : right < items.size then
        if below items[left] items[right] then
          sink below fuel (items.swap position right) right
        else sink below fuel (items.swap position left) left
      else if one : left < items.size then (items.swap position left, left)
      else (items, position)

def push (below : Element → Element → Bool) (heap : Heap Element) (element : Element) :
    Heap Element :=
  ⟨siftUp below heap.size (heap.items.push element) heap.size⟩

def pop? (below : Element → Element → Bool) (heap : Heap Element) :
    Option (Element × Heap Element) :=
  if filled : 0 < heap.items.size then
    let final := heap.items[heap.items.size - 1]
    let others := heap.items.pop
    if more : 0 < others.size then
      let (sunk, position) := sink below others.size (others.set 0 final) 0
      some (others[0], ⟨siftUp below position sunk position⟩)
    else some (final, empty)
  else none

end Heap

end FlowTour
