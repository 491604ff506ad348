import Streamkit.Sequence.Merge.Heap
import Streamkit.Sequence.Walk
import Streamkit.Text.Record

/-!
# Merging sorted sources

A merge of several sources gives at each step the least of their heads, and of equal heads the one
of the source with the least number. It reads one item ahead of each source: `Merge.openAll` polls
every source once, `Merge.next` polls the source whose head it gives. A source that answers with
its end is closed for good. A fault of the polled source changes nothing in the merge; a fault of
the comparator loses the head that was about to be given.
-/

namespace Streamkit

/-- What a merge reads: numbered sources in a world `σ`, and a comparator. -/
structure MergeInputs (α σ : Type) where
  /-- Polls the source with the given number. -/
  poll : Nat → Act σ (Option α)
  order : Comparator α σ

/-- Counted sources as the inputs of a merge; the comparator has a state of its own. -/
def MergeInputs.ofCounted {α τ : Type} (order : Comparator α τ) :
    MergeInputs α (Array (Counted α) × τ) where
  poll source := Act.onFst (Counted.pollAt source)
  order a b := Act.onSnd (order a b)

/-- A merge in progress, with the world it reads from. -/
structure Merge (α σ : Type) where
  heap : Heap α
  /-- The world of the sources and of the comparator. -/
  world : σ

namespace Merge

variable {α σ : Type}

/-- A merge with no open source. -/
def ofWorld (world : σ) : Merge α σ := ⟨#[], world⟩

/-- The number of sources that still have an item to give. -/
def openSources (m : Merge α σ) : Nat := m.heap.size

/-- The outcome of a step on the heap, as an outcome on the merge. -/
def settle {β : Type} (b : β) :
    EStateM.Result Fault (Heap α × σ) Unit → EStateM.Result Fault (Merge α σ) β
  | .ok () (heap, s) => .ok b ⟨heap, s⟩
  | .error e (heap, s) => .error e ⟨heap, s⟩

/-- Polls a source and opens it, unless it has no item. -/
def openSource (inputs : MergeInputs α σ) (source : Nat) : Act (Merge α σ) Unit := fun m =>
  match inputs.poll source m.world with
  | .error e s => .error e ⟨m.heap, s⟩
  | .ok none s => .ok () ⟨m.heap, s⟩
  | .ok (some head) s => settle () (m.heap.insert inputs.order ⟨head, source⟩ s)

/-- Opens the sources with numbers below `count`, in order. -/
def openAll (inputs : MergeInputs α σ) (count : Nat) : Act (Merge α σ) Unit :=
  (List.range count).forM (openSource inputs)

/-- The next item: the head of the root, whose source is polled for another one. -/
def next (inputs : MergeInputs α σ) : Act (Merge α σ) (Option α) := fun m =>
  match m.heap[0]? with
  | none => .ok none m
  | some root =>
    match inputs.poll root.source m.world with
    | .error e s => .error e ⟨m.heap, s⟩
    | .ok (some head) s => settle (some root.head) (m.heap.replaceRoot inputs.order head s)
    | .ok none s => settle (some root.head) (m.heap.removeRoot inputs.order s)

/-! ## Size hints -/

/-- A sum of sizes that stops at the largest size. -/
def saturatingAdd (a b : Nat) : Nat := min (a + b) maxSize

/-- A sum of sizes, if it is a size. -/
def checkedAdd (a b : Nat) : Option Nat := if a + b ≤ maxSize then some (a + b) else none

/-- The bounds with those of one more open source, whose head counts for one item. -/
def addHint (total rest : Hint) : Hint where
  low := saturatingAdd (saturatingAdd total.low rest.low) 1
  high := do checkedAdd (← checkedAdd (← total.high) (← rest.high)) 1

/-- Bounds on the number of items still to come, from the hints of the open sources. -/
def sizeHint (hintOf : Nat → Hint) (m : Merge α σ) : Hint :=
  m.heap.foldl (fun total root => addHint total (hintOf root.source)) (.exactly 0)

/-- The merge as a record. -/
def debug (m : Merge α σ) : String :=
  Text.openRecord "MergeSorted" [("open_sources", m.openSources.repr)]

end Merge

end Streamkit
