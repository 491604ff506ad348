import Streamkit.Sequence.Window

/-!
# Sessions with windows

A session builds windows on one source, step by step, and traverses them. Every traversal reads the
source from its start, and all polls are counted together.
-/

namespace Streamkit

/-- A step of a session. -/
inductive WindowRequest where
  /-- The first items of what there is so far, as a window of its own. -/
  | ofTake (n : Nat)
  /-- All but the first items of what there is so far, as a window of its own. -/
  | ofDrop (n : Nat)
  /-- Narrows the outermost window to its first items. -/
  | take (n : Nat)
  /-- Narrows the outermost window to all but its first items. -/
  | drop (n : Nat)
  /-- Removes the outermost window. -/
  | peel
  /-- Pulls items from a fresh traversal. -/
  | traverse (n : Nat)
  | hint
  | debug

/-- The answer to a step. -/
inductive WindowReply (α : Type) where
  | nothing
  | text (s : String)
  | hint (h : Hint)
  | pulled (p : Pulled α)

/-- The windows built so far, on a source whose polls are counted. -/
structure WindowSession (α : Type) where
  source : Source α
  /-- The windows, the outermost first. -/
  windows : Nest
  /-- The polls of all traversals. -/
  polls : Nat

namespace WindowSession

variable {α : Type}

/-- The name by which texts refer to the source. -/
def sourceName : String := "src"

/-- No window, and a source that has not been read. -/
def start (source : Source α) : WindowSession α := ⟨source, [], 0⟩

/-- The outermost window. -/
def window? (s : WindowSession α) : Option Window := s.windows.head?

/-- Changes the outermost window. -/
def adjust (f : Window → Window) (s : WindowSession α) : WindowSession α :=
  { s with windows := s.windows.modifyHead f }

/-- Pulls items from a fresh traversal of the source. -/
def traverse (n : Nat) : Act (WindowSession α) (Pulled α) := fun s =>
  match s.windows.pull Counted.poll n (.ofSource s.source) with
  | .ok p c => .ok p { s with polls := s.polls + c.polls }
  | .error e c => .error e { s with polls := s.polls + c.polls }

/-- Performs a step. -/
def perform : WindowRequest → Act (WindowSession α) (WindowReply α)
  | .ofTake n => do
    modify fun s => { s with windows := .ofTake n :: s.windows }
    return .nothing
  | .ofDrop n => do
    modify fun s => { s with windows := .ofDrop n :: s.windows }
    return .nothing
  | .take n => do
    modify (adjust (·.take n))
    return .nothing
  | .drop n => do
    modify (adjust (·.drop n))
    return .nothing
  | .peel => do
    modify fun s => { s with windows := s.windows.tail }
    return if (← get).windows.isEmpty then .text sourceName else .nothing
  | .traverse n => do return .pulled (← traverse n)
  | .hint => do
    let s ← get
    return .hint (s.windows.hint (s.source.hint 0))
  | .debug => do return .text ((← get).windows.debug sourceName)

end WindowSession

end Streamkit
