import Streamkit.Fault

/-!
# The heap of open sources

A merge keeps its open sources in a binary heap laid out in an array: the children of position `p`
are at `2 * p + 1` and `2 * p + 2`. The heap key is the comparator's verdict on the items read
ahead, with ties broken by the number of the source. The comparator may have effects and may give
up; a fault keeps the heap as it was when the comparator was called.
-/

namespace Streamkit

/-- A comparison of two items, which may have effects and may give up. -/
abbrev Comparator (α σ : Type) := α → α → Act σ Ordering

/-- A source with an item read ahead. -/
structure OpenSource (α : Type) where
  /-- The item read ahead. -/
  head : α
  source : Nat

variable {α σ : Type}

/-- The one source comes before the other: by their heads, then by their numbers. -/
def OpenSource.precedes (order : Comparator α σ) (a b : OpenSource α) : Act σ Bool := do
  return ((← order a.head b.head).then (compare a.source b.source)) == .lt

/-- Open sources in heap layout. -/
abbrev Heap (α : Type) := Array (OpenSource α)

namespace Heap

/-- The parent of a position other than 0. -/
def parent (pos : Nat) : Nat := (pos - 1) / 2

/-- Moves the source at `pos` up while it precedes its parent. -/
def siftUp (order : Comparator α σ) (heap : Heap α) (pos : Nat) (s : σ) :
    EStateM.Result Fault (Heap α × σ) Unit :=
  if h : 0 < pos ∧ pos < heap.size then
    have hp : parent pos < pos := by unfold parent; omega
    match (heap[pos]).precedes order heap[parent pos] s with
    | .error e s => .error e (heap, s)
    | .ok false s => .ok () (heap, s)
    | .ok true s => siftUp order (heap.swap pos (parent pos)) (parent pos) s
  else .ok () (heap, s)
termination_by pos

/-- The child that a source moving down from `pos` would change places with: the right child if it
is there and precedes the left one, else the left child. -/
def smallerChild (order : Comparator α σ) (heap : Heap α) (pos : Nat)
    (h : 2 * pos + 1 < heap.size) : Act σ { c : Nat // pos < c ∧ c < heap.size } :=
  if hr : 2 * pos + 2 < heap.size then do
    if ← (heap[2 * pos + 2]).precedes order heap[2 * pos + 1] then
      return ⟨2 * pos + 2, by omega, hr⟩
    else return ⟨2 * pos + 1, by omega, h⟩
  else return ⟨2 * pos + 1, by omega, h⟩

/-- Moves the source at `pos` down while a child precedes it. -/
def siftDown (order : Comparator α σ) (heap : Heap α) (pos : Nat) (s : σ) :
    EStateM.Result Fault (Heap α × σ) Unit :=
  if h : 2 * pos + 1 < heap.size then
    match smallerChild order heap pos h s with
    | .error e s => .error e (heap, s)
    | .ok ⟨child, hc⟩ s =>
      match (heap[child]).precedes order heap[pos] s with
      | .error e s => .error e (heap, s)
      | .ok false s => .ok () (heap, s)
      | .ok true s => siftDown order (heap.swap pos child) child s
  else .ok () (heap, s)
termination_by heap.size - pos
decreasing_by simp only [Array.size_swap]; omega

/-- Adds a source at the end and moves it up. -/
def insert (order : Comparator α σ) (heap : Heap α) (entry : OpenSource α) (s : σ) :
    EStateM.Result Fault (Heap α × σ) Unit :=
  siftUp order (heap.push entry) heap.size s

/-- Gives the root another head, and moves it down. -/
def replaceRoot (order : Comparator α σ) (heap : Heap α) (head : α) (s : σ) :
    EStateM.Result Fault (Heap α × σ) Unit :=
  siftDown order (heap.modify 0 fun root => { root with head }) 0 s

/-- Puts the last source in the place of the root, and moves it down. -/
def removeRoot (order : Comparator α σ) (heap : Heap α) (s : σ) :
    EStateM.Result Fault (Heap α × σ) Unit :=
  siftDown order (heap.swapIfInBounds 0 (heap.size - 1)).pop 0 s

end Heap

end Streamkit
