import Streamkit.Sequence.Memo.Traversal
import Streamkit.Sequence.Merge
import Streamkit.Sequence.Search
import Streamkit.Sequence.Window

/-!
# Sessions with memos

A session holds handles on memos and on traversals of them, and performs operations on the handles:
reading through a memo, through a traversal, through a window or through a merge of memos, making
and dropping handles, and deriving memos from memos. A `MemoReport` tells the answer to an
operation, what happened during it, and the state of every memo after it.
-/

namespace Streamkit

variable {α : Type}

/-- An operation on the handles of a session. Memo handles, iterators and cursors are numbered
separately, in the order in which they were made. -/
inductive MemoOp (α : Type) where
  | head (memo : Nat)
  | get (memo position : Nat)
  /-- The number of items read so far. -/
  | evaluated (memo : Nat)
  /-- The source has reported its end. -/
  | isExhausted (memo : Nat)
  | debug (memo : Nat)
  /-- The first item that passes a test. -/
  | findFirst (memo : Nat) (test : α → Except Fault Bool)
  /-- The items of a fresh traversal, up to a number. -/
  | all (memo limit : Nat)
  /-- The number of items of a fresh traversal, up to a number. -/
  | count (memo limit : Nat)
  | clone (memo : Nat)
  | drop (memo : Nat)
  /-- An iterator at the start of the memo. -/
  | iter (memo : Nat)
  /-- A cursor at the start of the memo. -/
  | cursor (memo : Nat)
  /-- A cursor in exchange for the handle. -/
  | intoCursor (memo : Nat)
  /-- The items of a window on the memo, up to a number. -/
  | window (memo : Nat) (w : Window) (limit : Nat)
  /-- A memo of the mapped items of this one. -/
  | derive (memo : Nat) (f : α → Except Fault α)
  /-- Full traversals, one after the other. -/
  | traversals (memo count : Nat)
  /-- The merged items of several memos, up to a number. -/
  | merge (memos : List Nat) (order : α → α → Except Fault Ordering) (limit : Nat)
  | iterNext (iter : Nat)
  | iterPull (iter limit : Nat)
  | iterCount (iter limit : Nat)
  | iterClone (iter : Nat)
  | iterDebug (iter : Nat)
  | cursorNext (cursor : Nat)
  | cursorPull (cursor limit : Nat)
  | cursorCount (cursor limit : Nat)
  | cursorClone (cursor : Nat)
  | cursorDrop (cursor : Nat)
  | cursorDebug (cursor : Nat)

/-- The answer to an operation. -/
inductive MemoReply (α : Type) where
  | nothing
  | item (a : Maybe α)
  | number (n : Nat)
  | truth (b : Bool)
  | text (s : String)
  | handle (n : Nat)
  | pulled (p : Pulled α)
  | windowed (w : Window) (p : Pulled α)
  | traversals (ps : List (Pulled α))
  /-- The operation names a handle that is not in use. -/
  | noHandle

/-- A store of memos and the handles on it. -/
structure MemoSession (α : Type) where
  store : MemoStore α
  /-- The number of the memo of each handle that is in use. -/
  handles : Array (Option Nat)
  iters : Array MemoIter
  /-- The cursors that are in use. -/
  cursors : Array (Option MemoCursor)

namespace MemoSession

variable {β : Type}

/-- One memo for each source, with a handle for each memo. -/
def start (sources : List (Source α)) : MemoSession α where
  store := ⟨(sources.map fun s => .ofOrigin (.source s)).toArray, #[]⟩
  handles := (Array.range sources.length).map some
  iters := #[]
  cursors := #[]

/-! ## Reaching the parts of a session -/

/-- Runs on the store. -/
def onStore (act : Act (MemoStore α) β) : Act (MemoSession α) β :=
  fun { store, handles, iters, cursors } =>
    match act store with
    | .ok b store => .ok b { store, handles, iters, cursors }
    | .error e store => .error e { store, handles, iters, cursors }

/-- The memo of a handle. -/
def memo? (s : MemoSession α) (handle : Nat) : Option Nat := (s.handles[handle]?).join

/-- Goes on with the memo of a handle. -/
def withMemo (handle : Nat) (act : Nat → Act (MemoSession α) (MemoReply α)) :
    Act (MemoSession α) (MemoReply α) := do
  match (← get).memo? handle with
  | none => return .noHandle
  | some i => act i

/-- Runs on an iterator and the store, and keeps the iterator where it got to. -/
def withIter (iter : Nat) (act : Act (MemoIter × MemoStore α) (MemoReply α)) :
    Act (MemoSession α) (MemoReply α) :=
  fun { store, handles, iters, cursors } =>
    match iters[iter]? with
    | none => .ok .noHandle { store, handles, iters, cursors }
    | some it =>
      match act (it, store) with
      | .ok b (it, store) =>
        .ok b { store, handles, iters := iters.setIfInBounds iter it, cursors }
      | .error e (it, store) =>
        .error e { store, handles, iters := iters.setIfInBounds iter it, cursors }

/-- Runs on a cursor and the store, and keeps the cursor where it got to. -/
def withCursor (cursor : Nat) (act : Act (MemoCursor × MemoStore α) (MemoReply α)) :
    Act (MemoSession α) (MemoReply α) :=
  fun { store, handles, iters, cursors } =>
    match (cursors[cursor]?).join with
    | none => .ok .noHandle { store, handles, iters, cursors }
    | some c =>
      match act (c, store) with
      | .ok b (c, store) =>
        .ok b { store, handles, iters, cursors := cursors.setIfInBounds cursor (some c) }
      | .error e (c, store) =>
        .error e { store, handles, iters, cursors := cursors.setIfInBounds cursor (some c) }

/-- Adds a handle on a memo. -/
def addHandle (memo : Nat) : Act (MemoSession α) (MemoReply α) := fun s =>
  .ok (.handle s.handles.size) { s with handles := s.handles.push (some memo) }

/-- Gives up a handle on a memo. -/
def dropHandle (handle : Nat) : Act (MemoSession α) Unit :=
  modify fun s => { s with handles := s.handles.setIfInBounds handle none }

/-- Adds an iterator. -/
def addIter (it : MemoIter) : Act (MemoSession α) (MemoReply α) := fun s =>
  .ok (.handle s.iters.size) { s with iters := s.iters.push it }

/-- Adds a cursor. -/
def addCursor (c : MemoCursor) : Act (MemoSession α) (MemoReply α) := fun s =>
  .ok (.handle s.cursors.size) { s with cursors := s.cursors.push (some c) }

/-! ## Reading -/

/-- Adds a memo with a handle on it. -/
def derive (parent : Nat) (f : α → Except Fault α) : Act (MemoSession α) (MemoReply α) := fun s =>
  addHandle s.store.memos.size { s with store := s.store.add (.mapped parent f) }

/-- Notes each item before it is tested. -/
def noteTest (test : α → Except Fault Bool) (a : α) : Act (MemoIter × MemoStore α) Bool := do
  Act.onSnd (modify (·.note (.tested a)))
  Act.ofExcept (test a)

/-- The iterators of a merge as its sources. -/
def mergeInputs (order : α → α → Except Fault Ordering) :
    MergeInputs α (Array MemoIter × MemoStore α) where
  poll j := fun (iters, store) =>
    match iters[j]? with
    | none => .ok none (iters, store)
    | some it =>
      match MemoIter.next (it, store) with
      | .ok x (it, store) => .ok x (iters.setIfInBounds j it, store)
      | .error e (it, store) => .error e (iters.setIfInBounds j it, store)
  order a b := Act.ofExcept (order a b)

/-- Pulls items from a merge of fresh traversals of memos. -/
def mergeMemos (order : α → α → Except Fault Ordering) (memos : List Nat) (limit : Nat) :
    Act (MemoStore α) (Pulled α) := fun store =>
  let inputs := mergeInputs order
  let merged : Act (Merge α (Array MemoIter × MemoStore α)) (Pulled α) := do
    Merge.openAll inputs memos.length
    pull (Merge.next inputs) limit
  match merged (.ofWorld ((memos.map MemoIter.start).toArray, store)) with
  | .ok p m => .ok p m.world.2
  | .error e m => .error e m.world.2

/-- A fact about a memo that is known without reading. -/
def inspect (memo : Nat) (look : Memo α → MemoReply α) : Act (MemoSession α) (MemoReply α) := do
  match (← get).store.memos[memo]? with
  | none => return .noHandle
  | some m => return look m

/-- Performs an operation. -/
def perform : MemoOp α → Act (MemoSession α) (MemoReply α)
  | .head m => withMemo m fun i =>
    onStore (.item <$> MemoStore.traverse i (first MemoIter.next))
  | .get m k => withMemo m fun i =>
    onStore ((fun x => .item (.ofOption x)) <$> MemoStore.traverse i (nth MemoIter.next k))
  | .evaluated m => withMemo m fun i => inspect i fun memo => .number memo.evaluated
  | .isExhausted m => withMemo m fun i => inspect i fun memo => .truth memo.isExhausted
  | .debug m => withMemo m fun i => inspect i fun memo =>
    .text (Text.openRecord "Memoized" [("evaluated", memo.evaluated.repr)])
  | .findFirst m test => withMemo m fun i =>
    onStore (.item <$> MemoStore.traverse i (findFirst MemoIter.next (noteTest test) maxSize))
  | .all m n => withMemo m fun i =>
    onStore (.pulled <$> MemoStore.traverse i (pull MemoIter.next n))
  | .count m n => withMemo m fun i =>
    onStore (.number <$> MemoStore.traverse i (countUpTo MemoIter.next n))
  | .clone m => withMemo m addHandle
  | .drop m => withMemo m fun _ => do
    dropHandle m
    return .nothing
  | .iter m => withMemo m fun i => addIter (.start i)
  | .cursor m => withMemo m fun i => addCursor (.start i)
  | .intoCursor m => withMemo m fun i => do
    dropHandle m
    addCursor (.start i)
  | .window m w n => withMemo m fun i =>
    onStore (.windowed w <$> MemoStore.traverse i (Nest.pull MemoIter.next [w] n))
  | .derive m f => withMemo m fun i => derive i f
  | .traversals m k => withMemo m fun i =>
    let traversal := MemoStore.traverse i (pull MemoIter.next maxSize)
    onStore (.traversals <$> (List.replicate k ()).mapM fun _ => traversal)
  | .merge ms order n => do
    let s ← get
    match ms.mapM s.memo? with
    | none => return .noHandle
    | some memos => onStore (.pulled <$> mergeMemos order memos n)
  | .iterNext i => withIter i do return .item (.ofOption (← MemoIter.next))
  | .iterPull i n => withIter i do return .pulled (← pull MemoIter.next n)
  | .iterCount i n => withIter i do return .number (← countUpTo MemoIter.next n)
  | .iterClone i => do
    match (← get).iters[i]? with
    | none => return .noHandle
    | some it => addIter it
  | .iterDebug i => withIter i do return .text (← get).1.debug
  | .cursorNext c => withCursor c do return .item (.ofOption (← MemoCursor.next))
  | .cursorPull c n => withCursor c do return .pulled (← pull MemoCursor.next n)
  | .cursorCount c n => withCursor c do return .number (← countUpTo MemoCursor.next n)
  | .cursorClone c => do
    match ((← get).cursors[c]?).join with
    | none => return .noHandle
    | some cursor => addCursor cursor
  | .cursorDrop c => do
    modify fun s => { s with cursors := s.cursors.setIfInBounds c none }
    return .nothing
  | .cursorDebug c => withCursor c do return .text (← get).1.debug

end MemoSession

/-! ## Reports -/

/-- The answer to an operation and the state it leaves. -/
structure MemoReport (α : Type) where
  /-- The answer, or the fault the operation ended in. -/
  reply : Except Fault (MemoReply α)
  /-- What happened during the operation. -/
  events : Array (MemoEvent α)
  /-- For each handle in use, the items read and whether the source has ended. -/
  memos : Array (Option (Nat × Bool))
  /-- The polls of each memo's source. -/
  polls : Array Nat

namespace MemoSession

/-- What is known about the memo of a handle. -/
def progress (s : MemoSession α) (handle : Option Nat) : Option (Nat × Bool) := do
  let m ← s.store.memos[← handle]?
  return (m.evaluated, m.isExhausted)

/-- Performs operations one after the other. -/
def run : List (MemoOp α) → MemoSession α → List (MemoReport α)
  | [], _ => []
  | op :: ops, s =>
    let before := s.store.trace.size
    let (reply, s) := (perform op).attempt s
    ⟨reply, s.store.trace.extract before, s.handles.map s.progress,
      s.store.memos.map (·.polls)⟩ :: run ops s

end MemoSession

end Streamkit
