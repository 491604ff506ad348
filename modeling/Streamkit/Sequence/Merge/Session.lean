import Streamkit.Sequence.Merge

/-!
# Sessions with a merge

A session merges counted sources under a comparator whose calls are noted, and performs requests
one after the other. Each `MergeReport` tells the answer, the comparator calls made for it, the
number of open sources and the polls of every source so far.
-/

namespace Streamkit

/-- Counted sources, and the pairs that were compared so far. -/
abbrev MergeWorld (α : Type) := Array (Counted α) × Array (α × α)

/-- What a merge is asked. -/
inductive MergeRequest where
  | next
  | pull (n : Nat)
  | hint
  | debug

/-- What a merge answers. -/
inductive MergeReply (α : Type) where
  | item (a : Option α)
  | pulled (p : Pulled α)
  | hint (h : Hint)
  | text (s : String)

/-- The answer to a request and the state it leaves. -/
structure MergeReport (α : Type) where
  /-- The answer, or the fault the request ended in; nothing for the construction. -/
  reply : Except Fault (Option (MergeReply α))
  /-- The pairs compared for this request. -/
  compared : Array (α × α)
  openSources : Nat
  polls : Array Nat

namespace MergeSession

variable {α : Type}

/-- A comparator that notes each pair before it is compared. -/
def noted (order : α → α → Except Fault Ordering) : Comparator α (Array (α × α)) := fun a b => do
  modify (·.push (a, b))
  Act.ofExcept (order a b)

/-- Counted sources and the noted comparator. -/
def inputs (order : α → α → Except Fault Ordering) : MergeInputs α (MergeWorld α) :=
  .ofCounted (noted order)

/-- The hint of a source at its position. -/
def hintOf (w : MergeWorld α) (i : Nat) : Hint := (w.1[i]?.map Counted.hint).getD (.exactly 0)

/-- Answers a request. -/
def answer (order : α → α → Except Fault Ordering) :
    MergeRequest → Act (Merge α (MergeWorld α)) (MergeReply α)
  | .next => do return .item (← Merge.next (inputs order))
  | .pull n => do return .pulled (← Streamkit.pull (Merge.next (inputs order)) n)
  | .hint => do
    let m ← get
    return .hint (m.sizeHint (hintOf m.world))
  | .debug => do return .text (← get).debug

/-- The report on a merge after `compared` earlier comparisons. -/
def report (reply : Except Fault (Option (MergeReply α))) (compared : Nat)
    (m : Merge α (MergeWorld α)) : MergeReport α where
  reply
  compared := m.world.2.extract compared
  openSources := m.openSources
  polls := m.world.1.map (·.polls)

/-- Answers requests one after the other. -/
def perform (order : α → α → Except Fault Ordering) :
    List MergeRequest → Merge α (MergeWorld α) → List (MergeReport α)
  | [], _ => []
  | request :: requests, m =>
    let (reply, m') := (answer order request).attempt m
    report (reply.map some) m.world.2.size m' :: perform order requests m'

/-- Opens the sources and answers the requests; the first report is on the opened merge. -/
def run (order : α → α → Except Fault Ordering) (sources : List (Source α))
    (requests : List MergeRequest) : Except Fault (List (MergeReport α)) :=
  let world : MergeWorld α := ((sources.map Counted.ofSource).toArray, #[])
  match Merge.openAll (inputs order) sources.length (Merge.ofWorld world) with
  | .error e _ => .error e
  | .ok () m => .ok (report (.ok none) 0 m :: perform order requests m)

end MergeSession

end Streamkit
