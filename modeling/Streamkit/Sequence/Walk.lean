import Streamkit.Sequence.Source

/-!
# Walking through a sequence

`walk` asks for items one at a time and shows each to a visitor, until the sequence ends, the
visitor has seen enough, or a limit on the number of items is reached. Pulling a number of items
(`pull`), skipping to an item (`nth`) and the searches and collections of the other modules are
such walks. A sequence is given by the action `next` that asks for its next item.
-/

namespace Streamkit

variable {σ α β : Type}

/-- Why a walk came to its end. -/
inductive WalkEnd where
  /-- The limit on the number of items was reached. -/
  | limit
  | finished
  /-- The visitor had seen enough. -/
  | enough
  deriving DecidableEq

/-- What a visitor says after an item. -/
inductive Visit (β : Type) where
  | continue (b : β)
  | enough (b : β)

/-- Shows at most `limit` items to the visitor, which accumulates a result. -/
def walk (next : Act σ (Option α)) (visit : β → α → Act σ (Visit β)) :
    (limit : Nat) → β → σ → EStateM.Result Fault σ (β × WalkEnd)
  | 0, b, s => .ok (b, .limit) s
  | limit + 1, b, s =>
    match next s with
    | .error e s => .error e s
    | .ok none s => .ok (b, .finished) s
    | .ok (some a) s =>
      match visit b a s with
      | .error e s => .error e s
      | .ok (.enough b) s => .ok (b, .enough) s
      | .ok (.continue b) s => walk next visit limit b s

/-- The items that were pulled, and whether the end was seen. -/
structure Pulled (α : Type) where
  items : Array α
  /-- The sequence was seen to end. -/
  done : Bool

/-- Asks for items until `n` have come or the sequence ends. -/
def pull (next : Act σ (Option α)) (n : Nat) : Act σ (Pulled α) := do
  let (items, ending) ← walk next (fun items a => pure (.continue (items.push a))) n #[]
  return ⟨items, ending == .finished⟩

/-- Counts the items, up to `n`. -/
def countUpTo (next : Act σ (Option α)) (n : Nat) : Act σ Nat := do
  return (← walk next (fun count _ => pure (.continue (count + 1))) n 0).1

/-- Skips `n` items and gives the one after them; stops at the end of the sequence. -/
def nth (next : Act σ (Option α)) : (n : Nat) → σ → EStateM.Result Fault σ (Option α)
  | 0, s => next s
  | n + 1, s =>
    match next s with
    | .error e s => .error e s
    | .ok none s => .ok none s
    | .ok (some _) s => nth next n s

end Streamkit
