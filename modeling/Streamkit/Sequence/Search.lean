import Streamkit.Sequence.Walk
import Streamkit.Maybe

/-!
# Searching a sequence

`first` asks for one item, `findFirst` for items until one passes a test. A search asks for at most
`limit` items; `maxSize` is a limit that no search on a sequence of countable length reaches.
-/

namespace Streamkit

variable {σ α : Type}

/-- The first item, if there is one. -/
def first (next : Act σ (Option α)) : Act σ (Maybe α) := do
  return .ofOption (← next)

/-- The first item that passes the test, if there is one. -/
def findFirst (next : Act σ (Option α)) (test : α → Act σ Bool) (limit : Nat) :
    Act σ (Maybe α) := do
  let visit := fun _ a => do
    if ← test a then return .enough (.present a) else return .continue .absent
  return (← walk next visit limit Maybe.absent).1

end Streamkit
