import Streamkit.Proofs.Merge.Scan

/-!
# The invariant of the heap

Under a comparator that answers by a total preorder no source of a heap comes before its parent,
`Heap.Settled`. This is said in terms of the comparisons that the comparator itself makes, and comes
to the order by the heap key: `Heap.settled_iff`. Adding a source keeps it, and moving a source down
restores it below a position that may be out of order with its children, `Heap.SettledBelow`. In
every state that a merge comes to, whether its sources answer or give up, the heap is settled, its
root comes before every other source, and no source is in it twice: `heap_stays_sound`.
-/

open Std

namespace Streamkit

open Act

variable {α τ : Type} {cmp : α → α → Ordering} {order : Comparator α τ} {heap : Heap α} {pos : Nat}

/-- The comparator returns in whatever state it is, and tells whether the one source comes before
the other. -/
def OpenSource.Tells (order : Comparator α τ) (a b : OpenSource α) (before : Bool) : Prop :=
  ∀ t, ∃ t', a.precedes order b t = .ok before t'

namespace Heap

open OpenSource

/-- No source comes before its parent. -/
def Settled (order : Comparator α τ) (heap : Heap α) : Prop :=
  ∀ c p (hc : c < heap.size) (hp : p < heap.size), IsChild c p → Tells order heap[c] heap[p] false

/-- No source comes before its parent, but for the children of a position; these do not come before
the parent of the position. -/
structure SettledBelow (order : Comparator α τ) (heap : Heap α) (pos : Nat) : Prop where
  apart : ∀ c p (hc : c < heap.size) (hp : p < heap.size),
    IsChild c p → p ≠ pos → Tells order heap[c] heap[p] false
  across : ∀ c p (hc : c < heap.size) (hp : p < heap.size),
    IsChild c pos → IsChild pos p → Tells order heap[c] heap[p] false

/-- No source comes before its parent, the root comes before every other source, and the sources
are different ones. -/
structure Sound (order : Comparator α τ) (heap : Heap α) : Prop where
  settled : heap.Settled order
  root_first : ∀ i (_ : 0 < i) (hi : i < heap.size), Tells order heap[0] heap[i] true
  distinct : (heap.toList.map OpenSource.source).Nodup

end Heap

/-! ## What the comparator tells -/

namespace OpenSource

variable {a b : OpenSource α}

theorem tells_compareBy (horder : order.Answers cmp) (a b : OpenSource α) :
    Tells order a b (a.compareBy cmp b == .lt) := by
  intro t
  obtain ⟨t', ht⟩ := horder a.head b.head t
  exact ⟨t', by simp only [precedes, Bind.bind, EStateM.bind, ht]; rfl⟩

/-- In some state the comparator can be asked. -/
theorem tells_iff [Nonempty τ] (horder : order.Answers cmp) {before : Bool} :
    Tells order a b before ↔ (a.compareBy cmp b == .lt) = before := by
  constructor
  · intro h
    obtain ⟨t⟩ := ‹Nonempty τ›
    obtain ⟨t₁, h₁⟩ := h t
    obtain ⟨t₂, h₂⟩ := tells_compareBy horder a b t
    rw [h₁] at h₂
    exact (EStateM.Result.ok.inj h₂).1.symm
  · rintro rfl
    exact tells_compareBy horder a b

variable [TransCmp cmp]

theorem tells_false_iff [Nonempty τ] (horder : order.Answers cmp) :
    Tells order b a false ↔ Le cmp a b := by
  rw [tells_iff horder, beq_eq_false_iff_ne]
  refine ⟨Le.of_not_lt, fun hle hlt => ?_⟩
  rw [Le, OrientedCmp.gt_of_lt hlt] at hle
  cases hle

end OpenSource

namespace Heap

open OpenSource

variable [TransCmp cmp]

theorem settled_iff [Nonempty τ] (horder : order.Answers cmp) :
    heap.Settled order ↔ Ordered cmp heap := by
  unfold Settled Ordered
  simp only [tells_false_iff horder]

theorem SettledBelow.downOrdered [Nonempty τ] (horder : order.Answers cmp)
    (h : SettledBelow order heap pos) : DownOrdered cmp heap pos where
  apart c p hc hp hcp hne := (tells_false_iff horder).1 (h.apart c p hc hp hcp hne)
  across c p hc hp hcpos hpos := (tells_false_iff horder).1 (h.across c p hc hp hcpos hpos)

/-! ## The operations under a comparator with a state of its own -/

omit [TransCmp cmp] in
theorem coupled_ofCompare (horder : order.Answers cmp) :
    order.Coupled (fun _ _ => True) (fun _ _ _ _ => False)
      (.ofCompare cmp : Comparator α Unit) := by
  intro a b t _ _
  obtain ⟨t', ht⟩ := horder a b t
  rw [ht]
  exact ⟨rfl, trivial⟩

/-- The outcome is as the comparator without a state has it, but for the state. -/
theorem exists_ok_of_meet {o : EStateM.Result Fault (Heap α × τ) Unit} {heap' : Heap α}
    (h : Meet (Beside fun _ _ => True) (fun _ _ => Beside fun _ _ => False) o
      (.ok () (heap', ()))) : ∃ t', o = .ok () (heap', t') := by
  obtain ⟨⟨heap'', t'⟩, rfl, rfl, -⟩ := h.exists_ok
  exact ⟨t', rfl⟩

theorem insert_settled (horder : order.Answers cmp) (h : heap.Settled order)
    (entry : OpenSource α) (t : τ) : ∃ heap' t',
      heap.insert order entry t = .ok () (heap', t') ∧ heap'.Perm (heap.push entry) ∧
        heap'.Settled order := by
  have : Nonempty τ := ⟨t⟩
  obtain ⟨heap', hrun, hperm, hord⟩ := insert_spec ((settled_iff horder).1 h) entry ()
  have hmeet : Meet _ _ (heap.insert order entry t) (heap.insert (.ofCompare cmp) entry ()) :=
    meet_siftUp (coupled_ofCompare horder) heap.size (heap.push entry) t () trivial
  rw [hrun] at hmeet
  obtain ⟨t', hrun'⟩ := exists_ok_of_meet hmeet
  exact ⟨heap', t', hrun', Array.perm_iff_toList_perm.2 (by simpa using hperm),
    (settled_iff horder).2 hord⟩

theorem siftDown_settled (horder : order.Answers cmp) (h : heap.SettledBelow order pos) (t : τ) :
    ∃ heap' t', heap.siftDown order pos t = .ok () (heap', t') ∧ heap'.Perm heap ∧
      heap'.Settled order := by
  have : Nonempty τ := ⟨t⟩
  obtain ⟨heap', hrun, hperm, hord⟩ := siftDown_spec () _ heap pos rfl (h.downOrdered horder)
  have hmeet := meet_siftDown (coupled_ofCompare horder) _ heap pos t () rfl trivial
  rw [hrun] at hmeet
  obtain ⟨t', hrun'⟩ := exists_ok_of_meet hmeet
  exact ⟨heap', t', hrun', hperm, (settled_iff horder).2 hord⟩

/-- An ordered heap of different sources is sound. -/
theorem sound_of_ordered (horder : order.Answers cmp) (hord : Ordered cmp heap)
    (hdistinct : (heap.toList.map OpenSource.source).Nodup) : heap.Sound order where
  settled c p hc hp hcp t := by
    have : Nonempty τ := ⟨t⟩
    exact (tells_false_iff horder).2 (hord c p hc hp hcp) t
  root_first i hpos hi := by
    have hne : (heap[0]).source ≠ heap[i].source := fun e =>
      Nat.ne_of_lt hpos (index_eq_of_source_eq hdistinct (by simp) (by simp [hi]) e)
    have hlt := (hord.root_le i hi).lt hne
    have htells := tells_compareBy horder heap[0] heap[i]
    rw [hlt] at htells
    exact htells
  distinct := hdistinct

end Heap

/-! ## The states of a merge -/

theorem Merge.Simulates.sound [TransCmp cmp] {σ : Type} (horder : order.Answers cmp)
    {m : Merge α (σ × τ)} {l : ScanMerge α σ} (h : Merge.Simulates cmp m l) :
    m.heap.Sound order := by
  obtain ⟨m₁, ⟨hheap, -⟩, htracks⟩ := h
  rw [hheap]
  exact Heap.sound_of_ordered horder htracks.ordered
    ((htracks.perm.map OpenSource.source).nodup_iff.2 htracks.distinct)

/-- The heap of a merge is sound in every state that the merge comes to; adding a source and moving
one down restore the order of the heap, and only permute it. -/
theorem heap_stays_sound [TransCmp cmp] {order : Comparator α τ} (horder : order.Answers cmp) :
    (∀ {σ : Type} (poll : Nat → Act σ (Option α)) (count n : Nat) (s : σ) (t : τ),
      EndsIn (fun m => m.heap.Sound order)
        (attemptAfter (Merge.openAll (.apart poll order) count)
          (Merge.next (.apart poll order)) n (.ofWorld (s, t)))) ∧
    (∀ heap : Heap α, heap.Settled order → ∀ entry t, ∃ heap' t',
      heap.insert order entry t = .ok () (heap', t') ∧ heap'.Perm (heap.push entry) ∧
        heap'.Settled order) ∧
    ∀ (heap : Heap α) (pos : Nat), heap.SettledBelow order pos → ∀ t, ∃ heap' t',
      heap.siftDown order pos t = .ok () (heap', t') ∧ heap'.Perm heap ∧ heap'.Settled order := by
  refine ⟨fun poll count n s t => ?_, fun heap h => Heap.insert_settled horder h,
    fun heap pos h => Heap.siftDown_settled horder h⟩
  have hopen := Merge.simulates_openAll horder poll count s t
  have hrun := agree_attemptAfter hopen (Merge.simulates_next horder poll) n
  exact hrun.elim (fun _ _ _ h => h.sound horder) (fun _ _ _ _ _ h => h.sound horder)

open MergeSession in
theorem heap_stays_sound_by_half :
    let byHalf : Nat → Nat → Ordering := compareOn (· / 2)
    let order : Comparator Nat (Array (Nat × Nat)) := noted fun a b => .ok (byHalf a b)
    let sources := #[.ofSource (.ofScript [.item 3, .fail "jammed", .item 1]),
      .ofSource (.ofList [2, 5, 2]), .ofSource (.ofList [])]
    let settled : Heap Nat := #[⟨2, 1⟩, ⟨6, 0⟩, ⟨3, 2⟩]
    let below : Heap Nat := #[⟨2, 0⟩, ⟨9, 1⟩, ⟨4, 2⟩, ⟨5, 3⟩, ⟨3, 4⟩]
    order.Answers byHalf ∧
    EndsIn (fun m => m.heap.Sound order)
      (attemptAfter (Merge.openAll (.apart Counted.pollAt order) 3)
        (Merge.next (.apart Counted.pollAt order)) 9 (.ofWorld (sources, #[]))) ∧
    settled.Settled order ∧
    (∃ heap' t', settled.insert order ⟨1, 3⟩ #[] = .ok () (heap', t') ∧
      heap'.Perm (settled.push ⟨1, 3⟩) ∧ heap'.Settled order) ∧
    below.SettledBelow order 1 ∧
    ∃ heap' t', below.siftDown order 1 #[] = .ok () (heap', t') ∧ heap'.Perm below ∧
      heap'.Settled order := by
  intro byHalf order sources settled below
  have horder : order.Answers byHalf := answers_noted byHalf
  obtain ⟨hstates, hinsert, hdown⟩ := heap_stays_sound horder
  have hsettled : settled.Settled order := by
    have hkeys : ∀ c (hc : c < settled.size) (hp : Heap.parent c < settled.size), 0 < c →
        (settled[c].compareBy byHalf settled[Heap.parent c] == .lt) = false := by decide
    rintro c _ hc hp ⟨hpos, rfl⟩
    exact (OpenSource.tells_iff horder).2 (hkeys c hc hp hpos)
  have hbelow : below.SettledBelow order 1 := by
    have hkeys : ∀ c (hc : c < below.size) (hp : Heap.parent c < below.size), 0 < c →
        Heap.parent c ≠ 1 →
        (below[c].compareBy byHalf below[Heap.parent c] == .lt) = false := by decide
    have hacross : ∀ c (hc : c < below.size), Heap.parent c = 1 →
        (below[c].compareBy byHalf below[0] == .lt) = false := by decide
    constructor
    · rintro c _ hc hp ⟨hpos, rfl⟩ hne
      exact (OpenSource.tells_iff horder).2 (hkeys c hc hp hpos hne)
    · rintro c _ hc - ⟨-, hchild⟩ ⟨-, rfl⟩
      exact (OpenSource.tells_iff horder).2 (hacross c hc hchild)
  exact ⟨horder, hstates Counted.pollAt 3 9 sources #[], hsettled,
    hinsert settled hsettled ⟨1, 3⟩ #[], hbelow, hdown below 1 hbelow #[]⟩

end Streamkit
