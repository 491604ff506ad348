import Streamkit.Fault

/-!
# Sources

A source is what it answers to its successive polls: an item, the end, or a fault. Nothing makes a
source go on ending once it has ended, or go on failing once it has failed. `Counted` is a source
together with the number of polls it has received, which is also its position; `Counted.poll` asks
for the next answer, and counts the poll whatever the answer is.
-/

namespace Streamkit

/-- The largest size: sizes are 64-bit numbers. -/
def maxSize : Nat := 18446744073709551615

/-- Bounds on the number of items still to come; no upper bound may be known. -/
structure Hint where
  /-- At least so many items are still to come. -/
  low : Nat
  /-- At most so many items are still to come. -/
  high : Option Nat

/-- The hint of a source whose number of remaining items is known. -/
def Hint.exactly (n : Nat) : Hint := ⟨n, some n⟩

/-- The answer of a source to a poll: an item, the end, or a fault. -/
abbrev Answer (α : Type) := Except Fault (Option α)

/-- A source, given by its answers to the polls 0, 1, 2, ... -/
structure Source (α : Type) where
  /-- The answer to the poll after `k` polls. -/
  answer : Nat → Answer α
  /-- The size hint after `k` polls. -/
  hint : Nat → Hint

/-- An entry of a script. -/
inductive ScriptEntry (α : Type) where
  | item (a : α)
  | stop
  | fail (message : String)

/-- The answer that an entry scripts. -/
def ScriptEntry.answer {α : Type} : ScriptEntry α → Answer α
  | item a => .ok (some a)
  | stop => .ok none
  | fail message => .error (.raised message)

namespace Source

variable {α : Type}

/-- The items of a list, then the end for ever. -/
def ofList (items : List α) : Source α :=
  let stored := items.toArray
  { answer := fun k => .ok stored[k]?
    hint := fun k => .exactly (stored.size - k) }

/-- One entry for each poll, then the end for ever. -/
def ofScript (entries : List (ScriptEntry α)) : Source α :=
  let stored := entries.toArray
  { answer := fun k =>
      match stored[k]? with
      | some entry => entry.answer
      | none => .ok none
    hint := fun _ => ⟨0, none⟩ }

/-- An arithmetic progression of 64-bit integers, endless or of `count` items. -/
def progression (start step : Int64) (count : Option Nat) : Source Int64 where
  answer k :=
    if count.all (k < ·) then .ok (some (start + Int64.ofNat k * step)) else .ok none
  hint k :=
    match count with
    | some n => .exactly (n - k)
    | none => ⟨maxSize, none⟩

/-- The source with its items mapped. -/
def map {β : Type} (f : α → β) (s : Source α) : Source β where
  answer k := (s.answer k).map (Option.map f)
  hint := s.hint

/-- The source with a constant hint. -/
def withHint (h : Hint) (s : Source α) : Source α := { s with hint := fun _ => h }

end Source

/-- A source and the number of polls it has received. -/
structure Counted (α : Type) where
  source : Source α
  /-- The polls it has received. -/
  polls : Nat

namespace Counted

variable {α : Type}

/-- A source that has not been polled. -/
def ofSource (source : Source α) : Counted α := ⟨source, 0⟩

/-- Asks for the next answer. -/
def poll : Act (Counted α) (Option α) := fun c =>
  match c.source.answer c.polls with
  | .ok x => .ok x { c with polls := c.polls + 1 }
  | .error e => .error e { c with polls := c.polls + 1 }

/-- The source's hint at its position. -/
def hint (c : Counted α) : Hint := c.source.hint c.polls

/-- Polls one of several sources; a source that is not there has ended. -/
def pollAt (i : Nat) : Act (Array (Counted α)) (Option α) := fun cs =>
  if h : i < cs.size then
    match cs[i].source.answer cs[i].polls with
    | .ok x => .ok x (cs.modify i fun c => { c with polls := c.polls + 1 })
    | .error e => .error e (cs.modify i fun c => { c with polls := c.polls + 1 })
  else .ok none cs

end Counted

end Streamkit
