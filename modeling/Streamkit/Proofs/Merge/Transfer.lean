import Streamkit.Proofs.Refinement
import Streamkit.Sequence.Merge

/-!
# Merges over related inputs

A merge reaches its sources and its comparator only through its inputs. Merges over inputs that are
coupled are therefore coupled step by step, and keep the same heap: `Merge.coupled_openAll` and
`Merge.coupled_next`. Inputs that refine each other are the case in which the worlds are related in
the same way after a value and after a fault: `Merge.refines_openAll` and `Merge.refines_next`.
-/

namespace Streamkit

variable {α σ ρ : Type} {values : σ → ρ → Prop} {faults : Fault → Fault → σ → ρ → Prop}

/-- Comparisons are coupled. -/
def Comparator.Coupled (values : σ → ρ → Prop) (faults : Fault → Fault → σ → ρ → Prop)
    (order : Comparator α σ) (order' : Comparator α ρ) : Prop :=
  ∀ a b, Act.Coupled values faults (order a b) (order' a b)

/-- Polls and comparisons are coupled. -/
structure MergeInputs.Coupled (values : σ → ρ → Prop) (faults : Fault → Fault → σ → ρ → Prop)
    (inputs : MergeInputs α σ) (inputs' : MergeInputs α ρ) : Prop where
  poll : ∀ i, Act.Coupled values faults (inputs.poll i) (inputs'.poll i)
  order : inputs.order.Coupled values faults inputs'.order

/-- Comparisons refine each other. -/
def Comparator.Refines (faults : Fault → Fault → Prop) (states : σ → ρ → Prop)
    (order : Comparator α σ) (order' : Comparator α ρ) : Prop :=
  ∀ a b, Act.Refines faults states (order a b) (order' a b)

/-- Polls and comparisons refine each other. -/
structure MergeInputs.Refines (faults : Fault → Fault → Prop) (states : σ → ρ → Prop)
    (inputs : MergeInputs α σ) (inputs' : MergeInputs α ρ) : Prop where
  poll : ∀ i, Act.Refines faults states (inputs.poll i) (inputs'.poll i)
  order : inputs.order.Refines faults states inputs'.order

/-! ## The heap -/

namespace Heap

variable {order : Comparator α σ} {order' : Comparator α ρ}

theorem coupled_precedes (ho : order.Coupled values faults order') (a b : OpenSource α) :
    Act.Coupled values faults (a.precedes order b) (a.precedes order' b) :=
  (ho _ _).bind fun _ => Act.coupled_pure _

theorem meet_siftUp (ho : order.Coupled values faults order') (pos : Nat) :
    ∀ (heap : Heap α) (s : σ) (r : ρ), values s r →
      Act.Meet (Act.Beside values) (fun e f => Act.Beside (faults e f)) (heap.siftUp order pos s)
        (heap.siftUp order' pos r) := by
  induction pos using Nat.strongRecOn with
  | ind pos ih =>
    intro heap s r hs
    unfold siftUp
    by_cases h : 0 < pos ∧ pos < heap.size
    · rw [dif_pos h, dif_pos h]
      dsimp only
      refine (coupled_precedes ho _ _ s r hs).elim (fun up s r hs => ?_)
        (fun _ _ _ _ hs => ⟨rfl, hs⟩)
      cases up with
      | false => exact ⟨rfl, rfl, hs⟩
      | true => exact ih (parent pos) (by unfold parent; omega) _ s r hs
    · rw [dif_neg h, dif_neg h]
      exact ⟨rfl, rfl, hs⟩

theorem coupled_smallerChild (ho : order.Coupled values faults order') (heap : Heap α) (pos : Nat)
    (h : 2 * pos + 1 < heap.size) :
    Act.Coupled values faults (heap.smallerChild order pos h)
      (heap.smallerChild order' pos h) := by
  unfold smallerChild
  split
  · refine (coupled_precedes ho _ _).bind fun right => ?_
    cases right <;> exact Act.coupled_pure _
  · exact Act.coupled_pure _

theorem meet_siftDown (ho : order.Coupled values faults order') (n : Nat) :
    ∀ (heap : Heap α) (pos : Nat) (s : σ) (r : ρ), heap.size - pos = n → values s r →
      Act.Meet (Act.Beside values) (fun e f => Act.Beside (faults e f))
        (heap.siftDown order pos s) (heap.siftDown order' pos r) := by
  induction n using Nat.strongRecOn with
  | ind n ih =>
    intro heap pos s r hn hs
    unfold siftDown
    by_cases h : 2 * pos + 1 < heap.size
    · rw [dif_pos h, dif_pos h]
      refine (coupled_smallerChild ho heap pos h s r hs).elim (fun child s r hs => ?_)
        (fun _ _ _ _ hs => ⟨rfl, hs⟩)
      obtain ⟨child, hc⟩ := child
      dsimp only
      refine (coupled_precedes ho _ _ s r hs).elim (fun down s r hs => ?_)
        (fun _ _ _ _ hs => ⟨rfl, hs⟩)
      cases down with
      | false => exact ⟨rfl, rfl, hs⟩
      | true => exact ih (heap.size - child) (by omega) _ child s r (by simp) hs
    · rw [dif_neg h, dif_neg h]
      exact ⟨rfl, rfl, hs⟩

end Heap

/-! ## The merge -/

namespace Merge

/-- Merges with the same heap, in related worlds. -/
def Beside (states : σ → ρ → Prop) (m : Merge α σ) (m' : Merge α ρ) : Prop :=
  m.heap = m'.heap ∧ states m.world m'.world

section Coupled

variable {inputs : MergeInputs α σ} {inputs' : MergeInputs α ρ}

theorem meet_settle {β : Type} (b : β) {o : EStateM.Result Fault (Heap α × σ) Unit}
    {p : EStateM.Result Fault (Heap α × ρ) Unit}
    (h : Act.Meet (Act.Beside values) (fun e f => Act.Beside (faults e f)) o p) :
    Act.Meet (Beside values) (fun e f => Beside (faults e f)) (settle b o) (settle b p) :=
  h.elim (fun _ _ _ h => ⟨rfl, h.1, h.2⟩) (fun _ _ _ _ h => ⟨h.1, h.2⟩)

theorem coupled_openSource (hi : inputs.Coupled values faults inputs') (source : Nat) :
    Act.Coupled (Beside values) (fun e f => Beside (faults e f)) (openSource inputs source)
      (openSource inputs' source) := by
  rintro ⟨heap, s⟩ ⟨heap', r⟩ ⟨rfl, hs⟩
  simp only [openSource]
  refine (hi.poll source s r hs).elim (fun x s r hs => ?_) (fun _ _ _ _ hs => ⟨rfl, hs⟩)
  cases x with
  | none => exact ⟨rfl, rfl, hs⟩
  | some head => exact meet_settle () (Heap.meet_siftUp hi.order _ _ s r hs)

theorem coupled_openAll (hi : inputs.Coupled values faults inputs') (count : Nat) :
    Act.Coupled (Beside values) (fun e f => Beside (faults e f)) (openAll inputs count)
      (openAll inputs' count) :=
  Act.coupled_forM (coupled_openSource hi) _

theorem coupled_next (hi : inputs.Coupled values faults inputs') :
    Act.Coupled (Beside values) (fun e f => Beside (faults e f)) (next inputs) (next inputs') := by
  rintro ⟨heap, s⟩ ⟨heap', r⟩ ⟨rfl, hs⟩
  simp only [next]
  cases heap[0]? with
  | none => exact ⟨rfl, rfl, hs⟩
  | some root =>
    dsimp only
    refine (hi.poll root.source s r hs).elim (fun x s r hs => ?_) (fun _ _ _ _ hs => ⟨rfl, hs⟩)
    cases x with
    | none => exact meet_settle _ (Heap.meet_siftDown hi.order _ _ 0 s r rfl hs)
    | some head => exact meet_settle _ (Heap.meet_siftDown hi.order _ _ 0 s r rfl hs)

end Coupled

/-! ## Refinement -/

section Refines

variable {inputs : MergeInputs α σ} {inputs' : MergeInputs α ρ} {faults : Fault → Fault → Prop}
  {states : σ → ρ → Prop}

theorem coupled_of_refines (hi : inputs.Refines faults states inputs') :
    inputs.Coupled states (fun e f s r => faults e f ∧ states s r) inputs' :=
  ⟨hi.poll, hi.order⟩

theorem refines_of_coupled {β : Type} {x : Act (Merge α σ) β} {y : Act (Merge α ρ) β}
    (h : Act.Coupled (Beside states)
      (fun e f => Beside fun s r => faults e f ∧ states s r) x y) :
    Act.Refines faults (Beside states) x y :=
  h.imp fun _ _ _ _ hs => ⟨hs.2.1, hs.1, hs.2.2⟩

theorem refines_openAll (hi : inputs.Refines faults states inputs') (count : Nat) :
    Act.Refines faults (Beside states) (openAll inputs count) (openAll inputs' count) :=
  refines_of_coupled (coupled_openAll (coupled_of_refines hi) count)

theorem refines_next (hi : inputs.Refines faults states inputs') :
    Act.Refines faults (Beside states) (next inputs) (next inputs') :=
  refines_of_coupled (coupled_next (coupled_of_refines hi))

end Refines

end Merge

end Streamkit
