import Streamkit.Sequence.Walk
import Streamkit.Either

/-!
# Collecting a sequence

`collectPresent` gathers the payloads of a sequence of maybes, and stops at the first one without
payload. `partitionSides` gathers the payloads of a sequence of eithers by side; `nextLeft` and
`nextRight` give those of one side one at a time, asking for no more items than it takes. Each walk
asks for at most `limit` items.
-/

namespace Streamkit

variable {σ α β : Type}

/-- All payloads, or nothing as soon as one item has none. -/
def collectPresent (next : Act σ (Option (Maybe α))) (limit : Nat) :
    Act σ (Maybe (Array α)) := do
  let visit := fun payloads item =>
    match item with
    | .absent => pure (.enough payloads)
    | .present a => pure (.continue (payloads.push a))
  let (payloads, ending) ← walk next visit limit #[]
  return if ending = .enough then .absent else .present payloads

/-- The left payloads and the right payloads, each in order. -/
def partitionSides (next : Act σ (Option (Either α β))) (limit : Nat) :
    Act σ (Array α × Array β) := do
  let visit := fun (lefts, rights) item =>
    match item with
    | .left a => pure (.continue (lefts.push a, rights))
    | .right b => pure (.continue (lefts, rights.push b))
  return (← walk next visit limit (#[], #[])).1

/-- The next chosen payload: asks for items until `choose` finds one. -/
def nextChosen (choose : α → Maybe β) (next : Act σ (Option α)) (limit : Nat) :
    Act σ (Option β) := do
  let visit := fun _ item =>
    match choose item with
    | .absent => pure (.continue none)
    | .present b => pure (.enough (some b))
  return (← walk next visit limit none).1

/-- The next left payload. -/
def nextLeft (next : Act σ (Option (Either α β))) (limit : Nat) : Act σ (Option α) :=
  nextChosen Either.left? next limit

/-- The next right payload. -/
def nextRight (next : Act σ (Option (Either α β))) (limit : Nat) : Act σ (Option β) :=
  nextChosen Either.right? next limit

end Streamkit
