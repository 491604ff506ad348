import Streamkit.Proofs.Merge.HeapOrder
import Streamkit.Proofs.Outcome
import Streamkit.Sequence.Merge

/-!
# The heap under any comparator

Whatever a comparator answers, and even if it gives up, the heap operations do no more than exchange
entries: `Heap.siftUp_shuffles` and `Heap.siftDown_shuffles`. So a step of a merge gives the head of
its root, and leaves the other entries and what the polled source has answered, in some order:
`Merge.next_shuffles`.
-/

namespace Streamkit

open Act

variable {α σ : Type} {inv : σ → Prop} {fault : Fault → σ → Prop}

/-- Comparisons keep an invariant, unless they give up. -/
def Comparator.Keeps (inv : σ → Prop) (fault : Fault → σ → Prop) (order : Comparator α σ) : Prop :=
  ∀ a b, Act.Keeps inv fault (order a b)

namespace Heap

/-- An outcome with the same entries in some order, in a state that is as `inv` or `fault` say. -/
def Shuffles (inv : σ → Prop) (fault : Fault → σ → Prop) (entries : List (OpenSource α)) :
    EStateM.Result Fault (Heap α × σ) Unit → Prop :=
  Leaves (fun _ (heap, s) => heap.toList.Perm entries ∧ inv s)
    (fun e (heap, s) => heap.toList.Perm entries ∧ fault e s)

variable {order : Comparator α σ} (ho : order.Keeps inv fault)

theorem Shuffles.perm {entries entries' : List (OpenSource α)}
    {o : EStateM.Result Fault (Heap α × σ) Unit} (h : Shuffles inv fault entries o)
    (hperm : entries.Perm entries') : Shuffles inv fault entries' o :=
  Leaves.elim h (fun _ _ h => ⟨h.1.trans hperm, h.2⟩) (fun _ _ h => ⟨h.1.trans hperm, h.2⟩)

theorem perm_toList_swap (heap : Heap α) {i j : Nat} (hi : i < heap.size) (hj : j < heap.size) :
    (heap.swap i j).toList.Perm heap.toList := (Array.swap_perm hi hj).toList

include ho in
theorem keeps_precedes (a b : OpenSource α) : Act.Keeps inv fault (a.precedes order b) :=
  (ho _ _).bind fun _ => keeps_pure _

include ho in
theorem keeps_smallerChild (heap : Heap α) (pos : Nat) (h : 2 * pos + 1 < heap.size) :
    Act.Keeps inv fault (heap.smallerChild order pos h) := by
  unfold smallerChild
  split
  · refine (keeps_precedes ho _ _).bind fun right => ?_
    cases right <;> exact keeps_pure _
  · exact keeps_pure _

include ho in
theorem siftUp_shuffles (pos : Nat) : ∀ (heap : Heap α) (s : σ), inv s →
    Shuffles inv fault heap.toList (heap.siftUp order pos s) := by
  induction pos using Nat.strongRecOn with
  | ind pos ih =>
    intro heap s hs
    unfold siftUp
    by_cases h : 0 < pos ∧ pos < heap.size
    · have hup : parent pos < pos := by unfold parent; omega
      rw [dif_pos h]
      dsimp only
      refine (keeps_precedes ho _ _ s hs).elim (fun up s hs => ?_) (fun e s he => ⟨.refl _, he⟩)
      cases up with
      | false => exact ⟨.refl _, hs⟩
      | true => exact (ih (parent pos) hup _ s hs).perm (perm_toList_swap heap h.2 (by omega))
    · rw [dif_neg h]
      exact ⟨.refl _, hs⟩

include ho in
theorem siftDown_shuffles (n : Nat) : ∀ (heap : Heap α) (pos : Nat) (s : σ), heap.size - pos = n →
    inv s → Shuffles inv fault heap.toList (heap.siftDown order pos s) := by
  induction n using Nat.strongRecOn with
  | ind n ih =>
    intro heap pos s hn hs
    unfold siftDown
    by_cases h : 2 * pos + 1 < heap.size
    · rw [dif_pos h]
      refine (keeps_smallerChild ho heap pos h s hs).elim (fun child s hs => ?_)
        (fun e s he => ⟨.refl _, he⟩)
      obtain ⟨child, hc⟩ := child
      dsimp only
      refine (keeps_precedes ho _ _ s hs).elim (fun down s hs => ?_) (fun e s he => ⟨.refl _, he⟩)
      cases down with
      | false => exact ⟨.refl _, hs⟩
      | true =>
        have hrest := ih (heap.size - child) (by omega) (heap.swap pos child) child s
          (by rw [Array.size_swap]) hs
        exact hrest.perm (perm_toList_swap heap (by omega) hc.2)
    · rw [dif_neg h]
      exact ⟨.refl _, hs⟩

end Heap

namespace Merge

variable {inputs : MergeInputs α σ}

/-- The outcome of a step that gives `b` and leaves the entries, in some order. -/
def Shuffles {β : Type} (inv : σ → Prop) (fault : Fault → σ → Prop) (b : β)
    (entries : List (OpenSource α)) : EStateM.Result Fault (Merge α σ) β → Prop :=
  Leaves (fun c m => c = b ∧ m.heap.toList.Perm entries ∧ inv m.world)
    (fun e m => m.heap.toList.Perm entries ∧ fault e m.world)

theorem Shuffles.exists_ok {β : Type} {b : β} {entries : List (OpenSource α)}
    {o : EStateM.Result Fault (Merge α σ) β} (h : Shuffles inv never b entries o) :
    ∃ m, o = .ok b m ∧ m.heap.toList.Perm entries ∧ inv m.world := by
  cases o with
  | ok c m =>
    obtain ⟨rfl, h⟩ := h
    exact ⟨m, rfl, h⟩
  | error e m => exact h.2.elim

theorem settle_shuffles {β : Type} (b : β) {entries : List (OpenSource α)}
    {o : EStateM.Result Fault (Heap α × σ) Unit} (h : Heap.Shuffles inv fault entries o) :
    Shuffles inv fault b entries (settle b o) :=
  Leaves.elim h (fun _ _ h => ⟨rfl, h⟩) (fun _ _ h => h)

theorem next_of_nil {m : Merge α σ} (hheap : m.heap.toList = []) :
    next inputs m = .ok none m := by
  have hroot : m.heap[0]? = none := by rw [← Array.getElem?_toList, hheap]; rfl
  simp only [next, hroot]

theorem toList_of_root {m : Merge α σ} {root : OpenSource α} (hroot : m.heap[0]? = some root) :
    m.heap.toList = root :: m.heap.toList.tail := by
  rw [← Array.getElem?_toList] at hroot
  cases hheap : m.heap.toList with
  | nil =>
    rw [hheap] at hroot
    cases hroot
  | cons a rest =>
    rw [hheap] at hroot
    exact congrArg (· :: rest) (Option.some.inj hroot)

variable (ho : inputs.order.Keeps inv fault)

include ho in
theorem openSource_shuffles {m : Merge α σ} {source : Nat} {x : Option α} {s : σ}
    (hpoll : inputs.poll source m.world = .ok x s) (hs : inv s) :
    Shuffles inv fault () (m.heap.toList ++ x.toList.map (⟨·, source⟩))
      (openSource inputs source m) := by
  simp only [openSource, hpoll]
  cases x with
  | none => exact ⟨rfl, .of_eq (List.append_nil _).symm, hs⟩
  | some head =>
    have hinsert := Heap.siftUp_shuffles ho m.heap.size (m.heap.push ⟨head, source⟩) s hs
    rw [Array.toList_push] at hinsert
    exact settle_shuffles () hinsert

include ho in
theorem next_shuffles {m : Merge α σ} {root : OpenSource α} {rest : List (OpenSource α)}
    (hheap : m.heap.toList = root :: rest) {x : Option α} {s : σ}
    (hpoll : inputs.poll root.source m.world = .ok x s) (hs : inv s) :
    Shuffles inv fault (some root.head) (x.toList.map (⟨·, root.source⟩) ++ rest)
      (next inputs m) := by
  have hroot : m.heap[0]? = some root := by rw [← Array.getElem?_toList, hheap]; rfl
  simp only [next, hroot, hpoll]
  cases x with
  | none =>
    have hremove := Heap.siftDown_shuffles ho _ (m.heap.swapIfInBounds 0 (m.heap.size - 1)).pop 0 s
      rfl hs
    exact settle_shuffles _ (hremove.perm (Heap.toList_pop_swap_root hheap))
  | some head =>
    have hreplace := Heap.siftDown_shuffles ho _ (m.heap.modify 0 fun root => { root with head }) 0
      s rfl hs
    refine settle_shuffles _ (hreplace.perm (.of_eq ?_))
    rw [Array.toList_modify, hheap]
    rfl

end Merge

end Streamkit
