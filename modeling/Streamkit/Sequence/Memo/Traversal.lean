import Streamkit.Sequence.Memo
import Streamkit.Sequence.Walk
import Streamkit.Text.Record

/-!
# Traversals of memos

A traversal is a position in a memo, and only asks for the item at its position. A `MemoIter` knows
whether it has seen the end, a `MemoCursor` also whether it has been moved at all; both stay where
they are when the memo gives up, and both answer the end for ever once they have seen it.
-/

namespace Streamkit

variable {α : Type}

/-- A traversal that knows whether it is finished. -/
structure MemoIter where
  memo : Nat
  position : Nat
  /-- The end has been seen. -/
  finished : Bool

/-- A traversal that knows whether it has been moved. -/
structure MemoCursor where
  memo : Nat
  position : Nat
  /-- An item or the end has been seen. -/
  started : Bool
  /-- The end has been seen. -/
  atEnd : Bool

namespace MemoIter

/-- A traversal at the start of a memo. -/
def start (memo : Nat) : MemoIter := ⟨memo, 0, false⟩

/-- The next item. -/
def next : Act (MemoIter × MemoStore α) (Option α) := fun (it, s) =>
  if it.finished then .ok none (it, s)
  else
    match s.force it.memo it.position with
    | .ok (some a) s => .ok (some a) ({ it with position := it.position + 1 }, s)
    | .ok none s => .ok none ({ it with finished := true }, s)
    | .error e s => .error e (it, s)

/-- The traversal as a record. -/
def debug (it : MemoIter) : String := Text.record "Iter" [("finished", Text.truth it.finished)]

end MemoIter

namespace MemoCursor

/-- A traversal at the start of a memo. -/
def start (memo : Nat) : MemoCursor := ⟨memo, 0, false, false⟩

/-- The next item. -/
def next : Act (MemoCursor × MemoStore α) (Option α) := fun (c, s) =>
  if c.atEnd then .ok none (c, s)
  else
    match s.force c.memo c.position with
    | .ok (some a) s => .ok (some a) ({ c with position := c.position + 1, started := true }, s)
    | .ok none s => .ok none ({ c with started := true, atEnd := true }, s)
    | .error e s => .error e (c, s)

/-- The traversal as a record. -/
def debug (c : MemoCursor) : String := Text.record "Cursor" [("started", Text.truth c.started)]

end MemoCursor

namespace MemoStore

/-- Runs a fresh traversal of a memo, which is dropped afterwards. -/
def traverse {β : Type} (memo : Nat) (act : Act (MemoIter × MemoStore α) β) :
    Act (MemoStore α) β := fun s =>
  match act (.start memo, s) with
  | .ok b (_, s) => .ok b s
  | .error e (_, s) => .error e s

end MemoStore

end Streamkit
