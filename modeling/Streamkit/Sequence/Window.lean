import Streamkit.Sequence.Walk
import Streamkit.Text.Record

/-!
# Windows

A window on a sequence skips some items and then passes on at most a number of them. It is a value:
every traversal starts at the beginning of the sequence. `Window.take` and `Window.drop` narrow a
window in place; a window may also look at another window, and a `Nest` is a list of windows, the
outermost first. `Nest.next` is one step of a traversal through all of them: a window first skips
its items one at a time, stopping at the end of what it looks at, and a window that has passed on
its last item asks for no more.
-/

namespace Streamkit

/-- How many items to skip, and how many to pass on at most. Both are sizes. -/
structure Window where
  /-- The items to skip. -/
  skip : Nat
  /-- The most items to pass on. -/
  limit : Nat
  deriving DecidableEq

namespace Window

/-- The first `n` items. -/
def ofTake (n : Nat) : Window := ⟨0, n⟩

/-- All items after the first `n`; no sequence is longer than the largest size. -/
def ofDrop (n : Nat) : Window := ⟨n, maxSize⟩

/-- The first `n` items of the window. -/
def take (n : Nat) (w : Window) : Window := { w with limit := min w.limit n }

/-- The items of the window after its first `n`; the skip stops at the largest size. -/
def drop (n : Nat) (w : Window) : Window := ⟨min (w.skip + n) maxSize, w.limit - n⟩

/-- The hint of a traversal, from the hint of what the window looks at. -/
def hint (w : Window) (inner : Hint) : Hint :=
  if w.limit = 0 then .exactly 0
  else
    ⟨min (inner.low - w.skip) w.limit,
      some ((inner.high.map (fun high => min (high - w.skip) w.limit)).getD w.limit)⟩

/-- The window as a record, given the text of what it looks at. -/
def debug (w : Window) (inner : String) : String :=
  Text.record "Window" [("skip", w.skip.repr), ("limit", w.limit.repr), ("source", inner)]

end Window

/-! ## Traversals -/

/-- Where a traversal stands in a window: the items still to skip, and those still to pass on. -/
structure Passage where
  /-- The items still to skip. -/
  skip : Nat
  /-- The items still to pass on at most. -/
  left : Nat

namespace Passage

variable {α τ : Type}

/-- The passage at the start of a window. -/
def ofWindow (w : Window) : Passage := ⟨w.skip, w.limit⟩

/-- The next item that the window lets pass; `inner` asks what it looks at. -/
def next (inner : Act τ (Option α)) : Act (Passage × τ) (Option α) := fun (p, t) =>
  match p.left with
  | 0 => .ok none (p, t)
  | left + 1 =>
    match nth inner p.skip t with
    | .ok x t => .ok x (⟨0, left⟩, t)
    | .error e t => .error e (⟨0, left⟩, t)

end Passage

/-- Windows that look at each other, the outermost first. -/
abbrev Nest := List Window

namespace Nest

variable {α σ : Type}

/-- The state of a traversal: a passage for each window, over the state of the sequence. -/
def Traversal (σ : Type) : Nest → Type
  | [] => σ
  | _ :: inner => Passage × Traversal σ inner

/-- A traversal at its start. -/
def start (s : σ) : (ws : Nest) → Traversal σ ws
  | [] => s
  | w :: inner => (.ofWindow w, start s inner)

/-- The state of the sequence in a traversal. -/
def base : (ws : Nest) → Traversal σ ws → σ
  | [], s => s
  | _ :: inner, (_, t) => base inner t

/-- The next item of a traversal; `next` asks the sequence. -/
def next (ask : Act σ (Option α)) : (ws : Nest) → Act (Traversal σ ws) (Option α)
  | [] => ask
  | _ :: inner => Passage.next (next ask inner)

/-- Traverses the sequence afresh through the windows, up to `n` items. -/
def pull (ask : Act σ (Option α)) (ws : Nest) (n : Nat) : Act σ (Pulled α) := fun s =>
  match Streamkit.pull (next ask ws) n (start s ws) with
  | .ok p t => .ok p (base ws t)
  | .error e t => .error e (base ws t)

/-- The hint of a fresh traversal, from the hint of the sequence. -/
def hint (sequence : Hint) : Nest → Hint
  | [] => sequence
  | w :: inner => w.hint (hint sequence inner)

/-- The windows as nested records around the text of the sequence. -/
def debug (sequence : String) : Nest → String
  | [] => sequence
  | w :: inner => w.debug (debug sequence inner)

end Nest

end Streamkit
