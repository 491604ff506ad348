import Streamkit.Sequence.Walk

/-!
# Counting the polls of a source

A counting traversal passes the polls on to a source and counts them. A copy of a traversal has a
position of its own and shares the count. `Counting` holds all copies of one traversal, by handle.
-/

namespace Streamkit

/-- The copies of a counting traversal: one shared count, and a position for each copy. -/
structure Counting (α : Type) where
  /-- The source that all copies read. -/
  source : Source α
  /-- The polls that all copies have received. -/
  polls : Nat
  /-- The position of each copy. -/
  positions : Array Nat

/-- What a copy is asked to do. -/
inductive CountingRequest where
  | next (handle : Nat)
  | hint (handle : Nat)
  | clone (handle : Nat)
  /-- A copy is traversed, up to a number of items, under a count of its own. -/
  | recount (handle limit : Nat)

/-- The answer of a copy. -/
inductive CountingReply (α : Type) where
  | item (a : Option α)
  | hint (h : Hint)
  | handle (h : Nat)
  | recounted (pulled : Pulled α) (polls : Nat)

namespace Counting

variable {α : Type}

/-- One traversal, at the start of the source. -/
def start (source : Source α) : Counting α := ⟨source, 0, #[0]⟩

/-- The position of a copy. -/
def position (c : Counting α) (handle : Nat) : Nat := c.positions.getD handle 0

/-- Polls the source through a copy. -/
def next (handle : Nat) : Act (Counting α) (Option α) := fun c =>
  let c' := { c with polls := c.polls + 1, positions := c.positions.modify handle (· + 1) }
  match c.source.answer (c.position handle) with
  | .ok x => .ok x c'
  | .error e => .error e c'

/-- Traverses a copy under a count of its own; the shared count counts too. -/
def recount (handle limit : Nat) : Act (Counting α) (Pulled α × Nat) := fun c =>
  let copy : Counted α := ⟨c.source, c.position handle⟩
  match pull Counted.poll limit copy with
  | .ok pulled copy' =>
    let polls := copy'.polls - copy.polls
    .ok (pulled, polls) { c with polls := c.polls + polls }
  | .error e copy' => .error e { c with polls := c.polls + (copy'.polls - copy.polls) }

/-- Does what a copy is asked to do. -/
def perform : CountingRequest → Act (Counting α) (CountingReply α)
  | .next handle => do return .item (← next handle)
  | .hint handle => do
    let c ← get
    return .hint (c.source.hint (c.position handle))
  | .clone handle => do
    let c ← get
    set { c with positions := c.positions.push (c.position handle) }
    return .handle c.positions.size
  | .recount handle limit => do
    let (pulled, polls) ← recount handle limit
    return .recounted pulled polls

end Counting

end Streamkit
