import Mathlib.Tactic.Ring
import Streamkit.Proofs.Outcome
import Streamkit.Sequence.Merge.Heap

/-!
# The rounds of moving up and down

`Heap.siftUpWithin` and `Heap.siftDownWithin` move a source as `Heap.siftUp` and `Heap.siftDown` do,
but in a limited number of rounds, they look every position up, and they compare no source with
itself. They have an outcome only if the rounds suffice, every position is there, and the positions
that are compared are different ones. Moving up from `pos` halves `pos + 1` in each round, and
moving down doubles it. So an added source moves up within as many rounds as the logarithm of the
new size, and a source moves down within as many as the logarithm of the size, whatever the
comparator answers: `Heap.insert_within` and `Heap.siftDown_within`.
-/

namespace Streamkit.Heap

open Act

variable {α σ : Type}

/-- Whether the source at `i` comes before the one at `j`, if these are two positions that are
there. -/
def precedesAt (order : Comparator α σ) (heap : Heap α) (i j : Nat) (s : σ) :
    Option (EStateM.Result Fault σ Bool) :=
  if i = j then none else do return (← heap[i]?).precedes order (← heap[j]?) s

/-- Moves the source at `pos` up, in a limited number of rounds. -/
def siftUpWithin (order : Comparator α σ) :
    (rounds : Nat) → Heap α → Nat → σ → Option (EStateM.Result Fault (Heap α × σ) Unit)
  | 0, heap, pos, s => if 0 < pos then none else some (.ok () (heap, s))
  | rounds + 1, heap, pos, s =>
    if 0 < pos then do
      match ← heap.precedesAt order pos (parent pos) s with
      | .error e s => some (.error e (heap, s))
      | .ok false s => some (.ok () (heap, s))
      | .ok true s =>
        siftUpWithin order rounds (heap.swapIfInBounds pos (parent pos)) (parent pos) s
    else some (.ok () (heap, s))

/-- The child of `pos` to change places with, which is there. -/
def smallerChildAt (order : Comparator α σ) (heap : Heap α) (pos : Nat) (s : σ) :
    Option (EStateM.Result Fault σ Nat) :=
  if 2 * pos + 2 < heap.size then do
    match ← heap.precedesAt order (2 * pos + 2) (2 * pos + 1) s with
    | .error e s => some (.error e s)
    | .ok right s => some (.ok (if right then 2 * pos + 2 else 2 * pos + 1) s)
  else some (.ok (2 * pos + 1) s)

/-- Moves the source at `pos` down, in a limited number of rounds. -/
def siftDownWithin (order : Comparator α σ) :
    (rounds : Nat) → Heap α → Nat → σ → Option (EStateM.Result Fault (Heap α × σ) Unit)
  | 0, heap, pos, s => if 2 * pos + 1 < heap.size then none else some (.ok () (heap, s))
  | rounds + 1, heap, pos, s =>
    if 2 * pos + 1 < heap.size then do
      match ← heap.smallerChildAt order pos s with
      | .error e s => some (.error e (heap, s))
      | .ok child s =>
        match ← heap.precedesAt order child pos s with
        | .error e s => some (.error e (heap, s))
        | .ok false s => some (.ok () (heap, s))
        | .ok true s => siftDownWithin order rounds (heap.swapIfInBounds pos child) child s
    else some (.ok () (heap, s))

variable {order : Comparator α σ} {heap : Heap α}

theorem precedesAt_eq {i j : Nat} (hne : i ≠ j) (hi : i < heap.size) (hj : j < heap.size) (s : σ) :
    heap.precedesAt order i j s = some ((heap[i]).precedes order heap[j] s) := by
  simp only [precedesAt, if_neg hne, Array.getElem?_eq_getElem hi, Array.getElem?_eq_getElem hj]
  rfl

theorem swapIfInBounds_eq {i j : Nat} (hi : i < heap.size) (hj : j < heap.size) :
    heap.swapIfInBounds i j = heap.swap i j := by
  rw [Array.swapIfInBounds_def, dif_pos hi, dif_pos hj]

/-! ## Moving up -/

theorem siftUpWithin_eq (rounds : Nat) : ∀ (heap : Heap α) (pos : Nat) (s : σ), pos < heap.size →
    pos + 1 < 2 ^ (rounds + 1) →
    siftUpWithin order rounds heap pos s = some (heap.siftUp order pos s) := by
  induction rounds with
  | zero =>
    intro heap pos s hpos hrounds
    obtain rfl : pos = 0 := by omega
    unfold siftUp
    rfl
  | succ rounds ih =>
    intro heap pos s hpos hrounds
    unfold siftUp siftUpWithin
    by_cases h : 0 < pos
    · have hup : parent pos < pos := by unfold parent; omega
      rw [if_pos h, dif_pos ⟨h, hpos⟩, precedesAt_eq (Nat.ne_of_gt hup) hpos (by omega)]
      dsimp only [Option.bind_eq_bind, Option.bind_some]
      cases (heap[pos]).precedes order heap[parent pos] s with
      | error e s => rfl
      | ok up s =>
        cases up with
        | false => rfl
        | true =>
          have hhalf : parent pos + 1 < 2 ^ (rounds + 1) := by
            rw [Nat.pow_succ] at hrounds
            unfold parent
            omega
          rw [swapIfInBounds_eq hpos (by omega)]
          exact ih _ _ s (by rw [Array.size_swap]; omega) hhalf
    · rw [if_neg h, dif_neg fun h' => h h'.1]

/-- An added source moves up within the logarithm of the new size, every position is there, and no
source is compared with itself. -/
theorem insert_within (order : Comparator α σ) (heap : Heap α) (entry : OpenSource α) (s : σ) :
    siftUpWithin order (heap.size + 1).log2 (heap.push entry) heap.size s =
      some (heap.insert order entry s) :=
  siftUpWithin_eq _ _ _ s (by rw [Array.size_push]; omega) Nat.lt_log2_self

/-! ## Moving down -/

theorem smallerChildAt_eq {pos : Nat} (h : 2 * pos + 1 < heap.size) (s : σ) :
    heap.smallerChildAt order pos s =
      some ((Subtype.val <$> heap.smallerChild order pos h) s) := by
  unfold smallerChildAt smallerChild
  by_cases hr : 2 * pos + 2 < heap.size
  · rw [if_pos hr, dif_pos hr, precedesAt_eq (Nat.succ_ne_self _) hr h]
    simp only [Option.bind_some, Functor.map, Bind.bind, EStateM.map, EStateM.bind]
    cases (heap[2 * pos + 2]).precedes order heap[2 * pos + 1] s with
    | error e s => rfl
    | ok right s => cases right <;> rfl
  · rw [if_neg hr, dif_neg hr]
    rfl

/-- The child is one of the two below `pos`. -/
theorem le_smallerChild {pos : Nat} (h : 2 * pos + 1 < heap.size) (s : σ) :
    Leaves (fun child _ => 2 * pos + 1 ≤ child.val) (fun _ _ => True)
      (heap.smallerChild order pos h s) := by
  unfold smallerChild
  split
  · have hcall : Leaves (fun _ _ => True) (fun _ _ => True)
        ((heap[2 * pos + 2]).precedes order heap[2 * pos + 1] s) := by
      cases (heap[2 * pos + 2]).precedes order heap[2 * pos + 1] s <;> trivial
    refine hcall.bind fun right s _ => ?_
    cases right
    · exact Nat.le_refl _
    · exact Nat.le_succ _
  · exact Nat.le_refl _

theorem siftDownWithin_eq (rounds : Nat) : ∀ (heap : Heap α) (pos : Nat) (s : σ),
    heap.size < (pos + 1) * 2 ^ (rounds + 1) →
    siftDownWithin order rounds heap pos s = some (heap.siftDown order pos s) := by
  induction rounds with
  | zero =>
    intro heap pos s hrounds
    have h : ¬ 2 * pos + 1 < heap.size := by omega
    unfold siftDown siftDownWithin
    rw [if_neg h, dif_neg h]
  | succ rounds ih =>
    intro heap pos s hrounds
    unfold siftDown siftDownWithin
    by_cases h : 2 * pos + 1 < heap.size
    · rw [if_pos h, dif_pos h, smallerChildAt_eq h]
      simp only [Option.bind_eq_bind, Option.bind_some, Functor.map, EStateM.map]
      refine (le_smallerChild h s).elim (fun child s hdouble => ?_) (fun _ _ _ => rfl)
      obtain ⟨child, hc⟩ := child
      dsimp only
      rw [precedesAt_eq (Nat.ne_of_gt hc.1) hc.2 (by omega)]
      dsimp only [Option.bind_some]
      cases (heap[child]).precedes order heap[pos] s with
      | error e s => rfl
      | ok down s =>
        cases down with
        | false => rfl
        | true =>
          have hleft : heap.size < (child + 1) * 2 ^ (rounds + 1) := by
            calc heap.size < (pos + 1) * 2 ^ (rounds + 1 + 1) := hrounds
              _ = (2 * pos + 1 + 1) * 2 ^ (rounds + 1) := by ring
              _ ≤ (child + 1) * 2 ^ (rounds + 1) :=
                Nat.mul_le_mul_right _ (Nat.succ_le_succ hdouble)
          rw [swapIfInBounds_eq (by omega) hc.2]
          exact ih _ _ s (by rwa [Array.size_swap])
    · rw [if_neg h, dif_neg h]

/-- A source moves down within the logarithm of the size, every position is there, and no source is
compared with itself. -/
theorem siftDown_within (order : Comparator α σ) (heap : Heap α) (pos : Nat) (s : σ) :
    siftDownWithin order heap.size.log2 heap pos s = some (heap.siftDown order pos s) :=
  siftDownWithin_eq _ _ _ s
    (Nat.lt_of_lt_of_le Nat.lt_log2_self (Nat.le_mul_of_pos_left _ (Nat.succ_pos pos)))

end Streamkit.Heap
