import Streamkit.Sequence.Source

/-!
# Memos

A memo reads a source at most once and keeps its items, so that they can be replayed any number of
times. A `Store` holds memos by number. A memo reads a source, or it reads an earlier memo from the
start and maps the items. `Store.force` gives the item of a memo at a position: an item that was
read is replayed, and the position after the last one is read from the source, unless the source
has ended (it is never polled again) or has given up (the position gives up for ever, without
another poll). Reading through several memos settles each of them on the way back.

The trace records the mapping calls and the ends of the sources, in order.
-/

namespace Streamkit

variable {α : Type}

/-- How far a memo has got with its source. -/
inductive MemoStatus where
  /-- The source has given items only. -/
  | reading
  | ended
  /-- The source has given up. -/
  | failed
  deriving DecidableEq

/-- Where a memo's items come from. -/
inductive MemoOrigin (α : Type) where
  | source (s : Source α)
  /-- From the memo numbered `parent`, mapped by `f`. -/
  | mapped (parent : Nat) (f : α → Except Fault α)

/-- A memo: its origin, the items read so far, and what it knows about the rest. -/
structure Memo (α : Type) where
  origin : MemoOrigin α
  items : Array α
  status : MemoStatus
  polls : Nat

namespace Memo

/-- A memo that has not read anything. -/
def ofOrigin (origin : MemoOrigin α) : Memo α := ⟨origin, #[], .reading, 0⟩

/-- The number of items read so far. -/
def evaluated (m : Memo α) : Nat := m.items.size

/-- The source has reported its end. -/
def isExhausted (m : Memo α) : Bool := m.status == .ended

end Memo

/-- Something that happened to a store. -/
inductive MemoEvent (α : Type) where
  /-- The mapping function of a memo was called on an item. -/
  | mapping (memo : Nat) (item : α)
  /-- The source of a memo reported its end. -/
  | exhausted (memo : Nat)
  /-- A search tested an item. -/
  | tested (item : α)

/-- Memos by number, and what happened to them. -/
structure MemoStore (α : Type) where
  memos : Array (Memo α)
  /-- What happened, in order. -/
  trace : Array (MemoEvent α)

namespace MemoStore

/-- Adds a memo; its number is the number of memos before. -/
def add (origin : MemoOrigin α) (s : MemoStore α) : MemoStore α :=
  { s with memos := s.memos.push (.ofOrigin origin) }

/-- Changes a memo. -/
def adjust (i : Nat) (f : Memo α → Memo α) (s : MemoStore α) : MemoStore α :=
  { s with memos := s.memos.modify i f }

/-- Records an event. -/
def note (e : MemoEvent α) (s : MemoStore α) : MemoStore α :=
  { s with trace := s.trace.push e }

/-- Counts a poll of a memo. -/
def countPoll (i : Nat) (s : MemoStore α) : MemoStore α :=
  s.adjust i fun m => { m with polls := m.polls + 1 }

/-- Keeps what a poll of memo `i` has given: an item, the end, or a fault. -/
def settle (i : Nat) :
    EStateM.Result Fault (MemoStore α) (Option α) → EStateM.Result Fault (MemoStore α) (Option α)
  | .ok (some a) s => .ok (some a) (s.adjust i fun m => { m with items := m.items.push a })
  | .ok none s => .ok none ((s.adjust i fun m => { m with status := .ended }).note (.exhausted i))
  | .error e s => .error e (s.adjust i fun m => { m with status := .failed })

/-- A result that leaves the store as it is. -/
def answer {β : Type} (s : MemoStore α) : Except Fault β → EStateM.Result Fault (MemoStore α) β
  | .ok b => .ok b s
  | .error e => .error e s

/-- The item of memo `i` at position `k`, which is at most one past the items read so far. A memo
reads earlier memos only. -/
def force (i k : Nat) (s : MemoStore α) : EStateM.Result Fault (MemoStore α) (Option α) :=
  match s.memos[i]? with
  | none => .ok none s
  | some m =>
    if h : k < m.items.size then .ok (some m.items[k]) s
    else
      match m.status with
      | .ended => .ok none s
      | .failed => .error .memoFailed s
      | .reading =>
        match m.origin with
        | .source source => settle i (answer (s.countPoll i) (source.answer m.polls))
        | .mapped parent f =>
          -- the parent is read by a cursor that stands after the items read so far
          if parent < i then
            match force parent m.items.size (s.countPoll i) with
            | .ok (some a) s => settle i (answer (s.note (.mapping i a)) ((f a).map some))
            | .ok none s => settle i (.ok none s)
            | .error e s => settle i (.error e s)
          else settle i (.ok none (s.countPoll i))
termination_by i

end MemoStore

end Streamkit
