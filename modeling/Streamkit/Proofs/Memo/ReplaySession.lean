import Streamkit.Proofs.Memo.Reading
import Streamkit.Sequence.Memo.Session

/-!
# Sessions on fixed sequences

A replay session performs the operations of a session on a shelf. Nothing in it is read lazily and
nothing is kept from one operation to the next but the demands and the calls: what is at position
`k` of a sequence is read off the sequence, and what is known of it is what its demand makes known.
-/

namespace Streamkit

variable {α β : Type}

/-- A shelf, and the handles and readings on it. -/
structure ReplaySession (α : Type) where
  shelf : Shelf α
  handles : Array (Option Nat)
  iters : Array Reading
  cursors : Array (Option Reading)

namespace ReplaySession

/-- The sequence of each source, with a handle for each. -/
def start (sources : List (Source α)) : ReplaySession α where
  shelf := (sources.map fun s => ⟨.source s, s, 0⟩).toArray
  handles := (Array.range sources.length).map some
  iters := #[]
  cursors := #[]

/-! ## Reaching the parts of a session -/

/-- Runs on the shelf. -/
def onShelf (act : Act (Shelf α) β) : Act (ReplaySession α) β := fun r =>
  match act r.shelf with
  | .ok b shelf => .ok b { r with shelf }
  | .error e shelf => .error e { r with shelf }

/-- The sequence of a handle. -/
def memo? (r : ReplaySession α) (handle : Nat) : Option Nat := (r.handles[handle]?).join

/-- Goes on with the sequence of a handle. -/
def withMemo (handle : Nat) (act : Nat → Act (ReplaySession α) (MemoReply α)) :
    Act (ReplaySession α) (MemoReply α) := fun r =>
  match r.memo? handle with
  | none => .ok .noHandle r
  | some i => act i r

/-- What the demand on a sequence makes known. -/
def inspect (memo : Nat) (look : Replayed α → MemoReply α) :
    Act (ReplaySession α) (MemoReply α) := fun r =>
  match r.shelf[memo]? with
  | none => .ok .noHandle r
  | some replayed => .ok (look replayed) r

/-- Runs on an iterator, and keeps its calls. -/
def withIter (iter : Nat) (act : Act (Reading × Shelf α) (MemoReply α)) :
    Act (ReplaySession α) (MemoReply α) := fun r =>
  match r.iters[iter]? with
  | none => .ok .noHandle r
  | some rd =>
    match act (rd, r.shelf) with
    | .ok b (rd, shelf) => .ok b { r with shelf, iters := r.iters.setIfInBounds iter rd }
    | .error e (rd, shelf) => .error e { r with shelf, iters := r.iters.setIfInBounds iter rd }

/-- Runs on a cursor, and keeps its calls. -/
def withCursor (cursor : Nat) (act : Act (Reading × Shelf α) (MemoReply α)) :
    Act (ReplaySession α) (MemoReply α) := fun r =>
  match (r.cursors[cursor]?).join with
  | none => .ok .noHandle r
  | some rd =>
    match act (rd, r.shelf) with
    | .ok b (rd, shelf) =>
      .ok b { r with shelf, cursors := r.cursors.setIfInBounds cursor (some rd) }
    | .error e (rd, shelf) =>
      .error e { r with shelf, cursors := r.cursors.setIfInBounds cursor (some rd) }

def addHandle (memo : Nat) : Act (ReplaySession α) (MemoReply α) := fun r =>
  .ok (.handle r.handles.size) { r with handles := r.handles.push (some memo) }

def dropHandle (handle : Nat) (r : ReplaySession α) : ReplaySession α :=
  { r with handles := r.handles.setIfInBounds handle none }

def addIter (rd : Reading) : Act (ReplaySession α) (MemoReply α) := fun r =>
  .ok (.handle r.iters.size) { r with iters := r.iters.push rd }

def addCursor (rd : Reading) : Act (ReplaySession α) (MemoReply α) := fun r =>
  .ok (.handle r.cursors.size) { r with cursors := r.cursors.push (some rd) }

/-- Adds the mapped sequence of another one, with a handle on it. -/
def derive (parent : Nat) (f : α → Except Fault α) : Act (ReplaySession α) (MemoReply α) :=
  fun r =>
    match r.shelf[parent]? with
    | none => .ok .noHandle r
    | some replayed =>
      addHandle r.shelf.size
        { r with shelf := r.shelf.push ⟨.mapped parent f, replayed.source.through f, 0⟩ }

/-! ## Reading -/

/-- Readings as the sources of a merge. -/
def mergeInputs (order : α → α → Except Fault Ordering) :
    MergeInputs α (Array Reading × Shelf α) where
  poll j := fun (readings, shelf) =>
    match readings[j]? with
    | none => .ok none (readings, shelf)
    | some rd =>
      match Reading.next (rd, shelf) with
      | .ok x (rd, shelf) => .ok x (readings.setIfInBounds j rd, shelf)
      | .error e (rd, shelf) => .error e (readings.setIfInBounds j rd, shelf)
  order a b := Act.ofExcept (order a b)

/-- Pulls items from a merge of fresh readings. -/
def mergeMemos (order : α → α → Except Fault Ordering) (memos : List Nat) (limit : Nat) :
    Act (Shelf α) (Pulled α) := fun shelf =>
  let inputs := mergeInputs order
  let merged : Act (Merge α (Array Reading × Shelf α)) (Pulled α) := do
    Merge.openAll inputs memos.length
    pull (Merge.next inputs) limit
  match merged (.ofWorld ((memos.map Reading.start).toArray, shelf)) with
  | .ok p m => .ok p m.world.2
  | .error e m => .error e m.world.2

/-- The reading has seen the end. -/
def finished (rd : Reading) (w : Shelf α) : Bool :=
  match w[rd.memo]? with
  | none => false
  | some r => r.source.statusWithin rd.calls == .ended

/-- The reading has given an item or seen the end. -/
def started (rd : Reading) (w : Shelf α) : Bool :=
  match w[rd.memo]? with
  | none => false
  | some r => decide (0 < r.source.itemsWithin rd.calls) || finished rd w

/-- An iterator as a record. -/
def iterRecord : Act (Reading × Shelf α) (MemoReply α) := fun (rd, w) =>
  .ok (.text (Text.record "Iter" [("finished", Text.truth (finished rd w))])) (rd, w)

def cursorRecord : Act (Reading × Shelf α) (MemoReply α) := fun (rd, w) =>
  .ok (.text (Text.record "Cursor" [("started", Text.truth (started rd w))])) (rd, w)

def perform : MemoOp α → Act (ReplaySession α) (MemoReply α)
  | .head m => withMemo m fun i => onShelf (.item <$> Maybe.ofOption <$> Shelf.read i 0)
  | .get m k => withMemo m fun i => onShelf ((fun x => .item (.ofOption x)) <$> Shelf.read i k)
  | .evaluated m => withMemo m fun i => inspect i fun r =>
    .number (r.source.itemsWithin r.demand)
  | .isExhausted m => withMemo m fun i => inspect i fun r =>
    .truth (r.source.statusWithin r.demand == .ended)
  | .debug m => withMemo m fun i => inspect i fun r =>
    .text (Text.openRecord "Memoized" [("evaluated", (r.source.itemsWithin r.demand).repr)])
  | .findFirst m test => withMemo m fun i =>
    onShelf (.item <$> Shelf.traverse i
      (findFirst Reading.next (fun a => Act.ofExcept (test a)) maxSize))
  | .all m n => withMemo m fun i =>
    onShelf (.pulled <$> Shelf.traverse i (pull Reading.next n))
  | .count m n => withMemo m fun i =>
    onShelf (.number <$> Shelf.traverse i (countUpTo Reading.next n))
  | .clone m => withMemo m addHandle
  | .drop m => withMemo m fun _ r => .ok .nothing (r.dropHandle m)
  | .iter m => withMemo m fun i => addIter (.start i)
  | .cursor m => withMemo m fun i => addCursor (.start i)
  | .intoCursor m => withMemo m fun i r => addCursor (.start i) (r.dropHandle m)
  | .window m w n => withMemo m fun i =>
    onShelf (.windowed w <$> Shelf.traverse i (Nest.pull Reading.next [w] n))
  | .derive m f => withMemo m fun i => derive i f
  | .traversals m k => withMemo m fun i =>
    let traversal := Shelf.traverse i (pull Reading.next maxSize)
    onShelf (.traversals <$> (List.replicate k ()).mapM fun _ => traversal)
  | .merge ms order n => fun r =>
    match ms.mapM r.memo? with
    | none => .ok .noHandle r
    | some memos => onShelf (.pulled <$> mergeMemos order memos n) r
  | .iterNext i => withIter i do return .item (.ofOption (← Reading.next))
  | .iterPull i n => withIter i do return .pulled (← pull Reading.next n)
  | .iterCount i n => withIter i do return .number (← countUpTo Reading.next n)
  | .iterClone i => fun r =>
    match r.iters[i]? with
    | none => .ok .noHandle r
    | some rd => addIter rd r
  | .iterDebug i => withIter i iterRecord
  | .cursorNext c => withCursor c do return .item (.ofOption (← Reading.next))
  | .cursorPull c n => withCursor c do return .pulled (← pull Reading.next n)
  | .cursorCount c n => withCursor c do return .number (← countUpTo Reading.next n)
  | .cursorClone c => fun r =>
    match (r.cursors[c]?).join with
    | none => .ok .noHandle r
    | some rd => addCursor rd r
  | .cursorDrop c => fun r =>
    .ok .nothing { r with cursors := r.cursors.setIfInBounds c none }
  | .cursorDebug c => withCursor c cursorRecord

end ReplaySession

end Streamkit
