import Streamkit.Sequence.Merge.Heap

/-!
# The order of the heap

Under a comparator that answers by a total preorder `cmp`, the heap key `OpenSource.compareBy cmp`
is a total preorder too, and no two sources with different numbers compare as equal. A heap is
`Heap.Ordered` when no source comes before its parent. Moving up restores the order of a heap that
has it but for one position and its parent (`Heap.siftUp_spec`), moving down that of a heap that has
it but for one position and its children (`Heap.siftDown_spec`); both only permute the heap. So the
root of an ordered heap comes first: `Heap.Ordered.root_first`.
-/

open Std

namespace Streamkit

variable {α σ : Type} {cmp : α → α → Ordering}

/-- The comparator that answers by `cmp` and does nothing else. -/
def Comparator.ofCompare (cmp : α → α → Ordering) : Comparator α σ := fun a b => pure (cmp a b)

namespace OpenSource

/-- The heap key: by the heads, then by the numbers of the sources. -/
def compareBy (cmp : α → α → Ordering) : OpenSource α → OpenSource α → Ordering :=
  compareLex (fun a b => cmp a.head b.head) (compareOn source)

/-- The one source is not after the other. -/
def Le (cmp : α → α → Ordering) (a b : OpenSource α) : Prop := (a.compareBy cmp b).isLE

theorem precedes_ofCompare (a b : OpenSource α) (s : σ) :
    a.precedes (.ofCompare cmp) b s = .ok (a.compareBy cmp b == .lt) s := rfl

theorem Le.of_lt {a b : OpenSource α} (h : a.compareBy cmp b = .lt) : Le cmp a b :=
  Ordering.isLE_of_eq_lt h

theorem source_eq_of_compareBy {a b : OpenSource α} (h : a.compareBy cmp b = .eq) :
    a.source = b.source := by
  simp only [compareBy, compareLex, Ordering.then_eq_eq] at h
  exact LawfulEqCmp.eq_of_compare h.2

/-- Of sources with different numbers, one comes strictly before the other. -/
theorem Le.lt {a b : OpenSource α} (h : Le cmp a b) (hne : a.source ≠ b.source) :
    a.compareBy cmp b = .lt := by
  rcases Ordering.isLE_iff_eq_lt_or_eq_eq.1 h with h | h
  · exact h
  · exact absurd (source_eq_of_compareBy h) hne

variable [TransCmp cmp]

instance : TransCmp (compareBy cmp) :=
  have : TransCmp fun a b : OpenSource α => cmp a.head b.head :=
    { eq_swap := OrientedCmp.eq_swap, isLE_trans := TransCmp.isLE_trans }
  inferInstanceAs (TransCmp (compareLex _ _))

theorem Le.refl (a : OpenSource α) : Le cmp a a := ReflCmp.isLE_rfl

theorem Le.trans {a b c : OpenSource α} (hab : Le cmp a b) (hbc : Le cmp b c) : Le cmp a c :=
  TransCmp.isLE_trans hab hbc

theorem Le.of_not_lt {a b : OpenSource α} (h : b.compareBy cmp a ≠ .lt) : Le cmp a b := by
  unfold Le
  rw [Ordering.isLE_iff_ne_gt]
  exact fun hgt => h (OrientedCmp.gt_iff_lt.1 hgt)

/-- Entries of one source are at one position, if the sources are different ones. -/
theorem index_eq_of_source_eq {entries : List (OpenSource α)}
    (hnodup : (entries.map source).Nodup) {i j : Nat} {a b : OpenSource α}
    (ha : entries[i]? = some a) (hb : entries[j]? = some b) (hsource : a.source = b.source) :
    i = j := by
  have hi : i < (entries.map source).length := by
    rw [List.length_map]
    exact (List.getElem?_eq_some_iff.1 ha).1
  refine (List.getElem?_inj hi hnodup).1 ?_
  rw [List.getElem?_map, List.getElem?_map, ha, hb, Option.map_some, Option.map_some, hsource]

end OpenSource

namespace Heap

open OpenSource

/-- The position `c` is a child of the position `p`. -/
def IsChild (c p : Nat) : Prop := 0 < c ∧ parent c = p

theorem isChild_iff {c p : Nat} : IsChild c p ↔ c = 2 * p + 1 ∨ c = 2 * p + 2 := by
  unfold IsChild parent
  omega

/-- No source comes before its parent. -/
def Ordered (cmp : α → α → Ordering) (heap : Heap α) : Prop :=
  ∀ c p (hc : c < heap.size) (hp : p < heap.size), IsChild c p → Le cmp heap[p] heap[c]

theorem ordered_empty : Ordered cmp #[] := fun c _ hc => absurd hc (Nat.not_lt_zero c)

/-- The order holds but for a position and its parent, and across the position. -/
structure UpOrdered (cmp : α → α → Ordering) (heap : Heap α) (pos : Nat) : Prop where
  apart : ∀ c p (hc : c < heap.size) (hp : p < heap.size),
    IsChild c p → c ≠ pos → Le cmp heap[p] heap[c]
  across : ∀ c p (hc : c < heap.size) (hp : p < heap.size),
    IsChild c pos → IsChild pos p → Le cmp heap[p] heap[c]

/-- The order holds but for a position and its children, and across the position. -/
structure DownOrdered (cmp : α → α → Ordering) (heap : Heap α) (pos : Nat) : Prop where
  apart : ∀ c p (hc : c < heap.size) (hp : p < heap.size),
    IsChild c p → p ≠ pos → Le cmp heap[p] heap[c]
  across : ∀ c p (hc : c < heap.size) (hp : p < heap.size),
    IsChild c pos → IsChild pos p → Le cmp heap[p] heap[c]

variable {heap : Heap α} {pos : Nat}

theorem isChild_unique {c p q : Nat} (hp : IsChild c p) (hq : IsChild c q) : p = q :=
  hp.2.symm.trans hq.2

theorem IsChild.lt {c p : Nat} (h : IsChild c p) : p < c := by
  unfold IsChild parent at h
  omega

theorem UpOrdered.finish (h : UpOrdered cmp heap pos)
    (hle : ∀ up (hup : up < heap.size) (hpos : pos < heap.size),
      IsChild pos up → Le cmp heap[up] heap[pos]) : Ordered cmp heap := by
  intro c p hc hp hcp
  by_cases hcpos : c = pos
  · subst hcpos
    exact hle p hp hc hcp
  · exact h.apart c p hc hp hcp hcpos

theorem DownOrdered.finish (h : DownOrdered cmp heap pos)
    (hle : ∀ c (hc : c < heap.size) (hpos : pos < heap.size),
      IsChild c pos → Le cmp heap[pos] heap[c]) : Ordered cmp heap := by
  intro c p hc hp hcp
  by_cases hppos : p = pos
  · subst hppos
    exact hle c hc hp hcp
  · exact h.apart c p hc hp hcp hppos

variable [TransCmp cmp]

theorem Ordered.root_le (h : Ordered cmp heap) (i : Nat) :
    ∀ hi : i < heap.size, Le cmp (heap[0]) heap[i] := by
  induction i using Nat.strongRecOn with
  | ind i ih =>
    intro hi
    by_cases h0 : i = 0
    · subst h0
      exact Le.refl _
    · have hlt : parent i < i := by unfold parent; omega
      exact (ih (parent i) hlt (by omega)).trans (h i (parent i) hi (by omega) ⟨by omega, rfl⟩)

theorem Ordered.root_first (h : Ordered cmp heap) {root : OpenSource α}
    {rest : List (OpenSource α)} (hroot : heap.toList = root :: rest) {a : OpenSource α}
    (ha : a ∈ heap.toList) : Le cmp root a := by
  obtain ⟨i, hi, rfl⟩ := List.getElem_of_mem ha
  have hle := h.root_le i (by simpa using hi)
  simp only [← Array.getElem_toList, hroot, List.getElem_cons_zero] at hle
  simpa [hroot] using hle

/-! ## Moving up -/

theorem UpOrdered.move (h : UpOrdered cmp heap pos) (hpos : pos < heap.size) {up : Nat}
    (hup : up < heap.size) (hchild : IsChild pos up)
    (hlt : heap[pos].compareBy cmp heap[up] = .lt) : UpOrdered cmp (heap.swap pos up) up := by
  have hne : up ≠ pos := Nat.ne_of_lt hchild.lt
  constructor
  · intro c p hc hp hcp hcup
    have hc' : c < heap.size := by simpa using hc
    have hp' : p < heap.size := by simpa using hp
    by_cases hcpos : c = pos
    · subst hcpos
      obtain rfl := isChild_unique hcp hchild
      rw [Array.getElem_swap_left, Array.getElem_swap_right]
      exact .of_lt hlt
    rw [Array.getElem_swap_of_ne hcpos hcup]
    by_cases hppos : p = pos
    · subst hppos
      rw [Array.getElem_swap_left]
      exact h.across c up hc' hup hcp hchild
    by_cases hpup : p = up
    · subst hpup
      rw [Array.getElem_swap_right]
      exact (Le.of_lt hlt).trans (h.apart c p hc' hp' hcp hcpos)
    · rw [Array.getElem_swap_of_ne hppos hpup]
      exact h.apart c p hc' hp' hcp hcpos
  · intro c p hc hp hcup hupp
    have hc' : c < heap.size := by simpa using hc
    have hp' : p < heap.size := by simpa using hp
    have hlt_up : p < up := hupp.lt
    have hlt_pos : up < pos := hchild.lt
    rw [Array.getElem_swap_of_ne (by omega) (by omega)]
    have hup_p : Le cmp heap[p] heap[up] := h.apart up p hup hp' hupp hne
    by_cases hcpos : c = pos
    · subst hcpos
      rw [Array.getElem_swap_left]
      exact hup_p
    · rw [Array.getElem_swap_of_ne hcpos (Nat.ne_of_gt hcup.lt)]
      exact hup_p.trans (h.apart c up hc' hup hcup hcpos)

theorem siftUp_spec (s : σ) (pos : Nat) :
    ∀ heap : Heap α, UpOrdered cmp heap pos → ∃ heap',
      heap.siftUp (.ofCompare cmp) pos s = .ok () (heap', s) ∧ heap'.Perm heap ∧
        Ordered cmp heap' := by
  induction pos using Nat.strongRecOn with
  | ind pos ih =>
    intro heap h
    unfold siftUp
    by_cases hpos : 0 < pos ∧ pos < heap.size
    · have hup : parent pos < pos := by unfold parent; omega
      rw [dif_pos hpos]
      simp only [precedes_ofCompare]
      by_cases hlt : heap[pos].compareBy cmp heap[parent pos] = .lt
      · rw [hlt]
        obtain ⟨heap', hrun, hperm, hord⟩ :=
          ih (parent pos) hup _ (h.move hpos.2 (by omega) ⟨hpos.1, rfl⟩ hlt)
        exact ⟨heap', hrun, hperm.trans (Array.swap_perm ..), hord⟩
      · rw [beq_false_of_ne hlt]
        refine ⟨heap, rfl, .refl _, h.finish fun up _ _ hchild => ?_⟩
        obtain rfl := hchild.2
        exact .of_not_lt hlt
    · rw [dif_neg hpos]
      refine ⟨heap, rfl, .refl _, h.finish fun up _ hlt hchild => ?_⟩
      exact absurd ⟨hchild.1, hlt⟩ hpos

/-! ## Moving down -/

omit [TransCmp cmp] in
theorem DownOrdered.move (h : DownOrdered cmp heap pos) (hpos : pos < heap.size) {down : Nat}
    (hdown : down < heap.size) (hchild : IsChild down pos)
    (hmin : ∀ c (hc : c < heap.size), IsChild c pos → Le cmp heap[down] heap[c])
    (hlt : heap[down].compareBy cmp heap[pos] = .lt) :
    DownOrdered cmp (heap.swap pos down) down := by
  have hlt' : pos < down := hchild.lt
  constructor
  · intro c p hc hp hcp hpdown
    have hc' : c < heap.size := by simpa using hc
    have hp' : p < heap.size := by simpa using hp
    by_cases hppos : p = pos
    · subst hppos
      rw [Array.getElem_swap_left]
      by_cases hcdown : c = down
      · subst hcdown
        rw [Array.getElem_swap_right]
        exact .of_lt hlt
      · rw [Array.getElem_swap_of_ne (Nat.ne_of_gt hcp.lt) hcdown]
        exact hmin c hc' hcp
    rw [Array.getElem_swap_of_ne hppos hpdown]
    by_cases hcpos : c = pos
    · subst hcpos
      rw [Array.getElem_swap_left]
      exact h.across down p hdown hp' hchild hcp
    · have hcdown : c ≠ down := fun e => hppos (isChild_unique hcp (e ▸ hchild))
      rw [Array.getElem_swap_of_ne hcpos hcdown]
      exact h.apart c p hc' hp' hcp hppos
  · intro c p hc hp hcdown hpdown
    have hc' : c < heap.size := by simpa using hc
    have hp' : p < heap.size := by simpa using hp
    obtain rfl := isChild_unique hpdown hchild
    have hlt_c : down < c := hcdown.lt
    rw [Array.getElem_swap_left, Array.getElem_swap_of_ne (by omega) (by omega)]
    exact h.apart c down hc' hdown hcdown (Nat.ne_of_gt hlt')

variable (cmp) in
/-- The child to change places with is a child, and no other child comes before it. -/
theorem smallerChild_spec (s : σ) (h : 2 * pos + 1 < heap.size) :
    ∃ (child : Nat) (hc : pos < child ∧ child < heap.size),
      heap.smallerChild (.ofCompare cmp) pos h s = .ok ⟨child, hc⟩ s ∧ IsChild child pos ∧
        ∀ c (hc : c < heap.size), IsChild c pos → Le cmp heap[child] heap[c] := by
  unfold smallerChild
  by_cases hr : 2 * pos + 2 < heap.size
  · rw [dif_pos hr]
    simp only [Bind.bind, EStateM.bind, precedes_ofCompare]
    by_cases hlt : heap[2 * pos + 2].compareBy cmp heap[2 * pos + 1] = .lt
    · rw [hlt]
      refine ⟨2 * pos + 2, ⟨by omega, hr⟩, rfl, isChild_iff.2 (.inr rfl), fun c hc hchild => ?_⟩
      rcases isChild_iff.1 hchild with rfl | rfl
      · exact .of_lt hlt
      · exact .refl _
    · rw [beq_false_of_ne hlt]
      refine ⟨2 * pos + 1, ⟨by omega, h⟩, rfl, isChild_iff.2 (.inl rfl), fun c hc hchild => ?_⟩
      rcases isChild_iff.1 hchild with rfl | rfl
      · exact .refl _
      · exact .of_not_lt hlt
  · rw [dif_neg hr]
    refine ⟨2 * pos + 1, ⟨by omega, h⟩, rfl, isChild_iff.2 (.inl rfl), fun c hc hchild => ?_⟩
    rcases isChild_iff.1 hchild with rfl | rfl
    · exact .refl _
    · exact absurd hc hr

theorem siftDown_spec (s : σ) (n : Nat) :
    ∀ (heap : Heap α) (pos : Nat), heap.size - pos = n → DownOrdered cmp heap pos → ∃ heap',
      heap.siftDown (.ofCompare cmp) pos s = .ok () (heap', s) ∧ heap'.Perm heap ∧
        Ordered cmp heap' := by
  induction n using Nat.strongRecOn with
  | ind n ih =>
    intro heap pos hn h
    unfold siftDown
    by_cases hleft : 2 * pos + 1 < heap.size
    · obtain ⟨child, hc, hrun, hchild, hmin⟩ := smallerChild_spec cmp s hleft
      rw [dif_pos hleft, hrun]
      simp only [precedes_ofCompare]
      by_cases hlt : heap[child].compareBy cmp heap[pos] = .lt
      · rw [hlt]
        obtain ⟨heap', hrun, hperm, hord⟩ := ih (heap.size - child) (by omega) _ child
          (by rw [Array.size_swap]) (h.move (by omega) hc.2 hchild hmin hlt)
        exact ⟨heap', hrun, hperm.trans (Array.swap_perm ..), hord⟩
      · rw [beq_false_of_ne hlt]
        refine ⟨heap, rfl, .refl _, h.finish fun c hc _ hcpos => ?_⟩
        exact (Le.of_not_lt hlt).trans (hmin c hc hcpos)
    · rw [dif_neg hleft]
      refine ⟨heap, rfl, .refl _, h.finish fun c hc _ hcpos => ?_⟩
      rcases isChild_iff.1 hcpos with rfl | rfl <;> omega

/-! ## The operations -/

theorem insert_spec (h : Ordered cmp heap) (entry : OpenSource α) (s : σ) : ∃ heap',
    heap.insert (.ofCompare cmp) entry s = .ok () (heap', s) ∧
      heap'.toList.Perm (heap.toList ++ [entry]) ∧ Ordered cmp heap' := by
  have hup : UpOrdered cmp (heap.push entry) heap.size := by
    constructor
    · intro c p hc hp hcp hne
      have hc' : c < heap.size := by rw [Array.size_push] at hc; omega
      have hp' : p < heap.size := Nat.lt_trans hcp.lt hc'
      rw [Array.getElem_push_lt hc', Array.getElem_push_lt hp']
      exact h c p hc' hp' hcp
    · intro c p hc _ hcsize _
      rw [Array.size_push] at hc
      exact absurd hcsize.lt (by omega)
  obtain ⟨heap', hrun, hperm, hord⟩ := siftUp_spec s heap.size _ hup
  exact ⟨heap', hrun, by simpa using hperm.toList, hord⟩

section Root

variable {root : OpenSource α} {rest : List (OpenSource α)}

theorem replaceRoot_spec (h : Ordered cmp heap) (hroot : heap.toList = root :: rest) (head : α)
    (s : σ) : ∃ heap',
    heap.replaceRoot (.ofCompare cmp) head s = .ok () (heap', s) ∧
      heap'.toList.Perm ({ root with head } :: rest) ∧ Ordered cmp heap' := by
  have hdown : DownOrdered cmp (heap.modify 0 fun root => { root with head }) 0 := by
    constructor
    · intro c p hc hp hcp hne
      rw [Array.size_modify] at hc hp
      simp only [Array.getElem_modify]
      rw [if_neg (Ne.symm hne), if_neg (Nat.ne_of_lt hcp.1)]
      exact h c p hc hp hcp
    · intro c p _ _ _ hp
      exact absurd hp.1 (Nat.lt_irrefl 0)
  obtain ⟨heap', hrun, hperm, hord⟩ := siftDown_spec s _ _ 0 rfl hdown
  refine ⟨heap', hrun, ?_, hord⟩
  simpa [hroot] using hperm.toList

theorem toList_pop_swap_root (hroot : heap.toList = root :: rest) :
    (heap.swapIfInBounds 0 (heap.size - 1)).pop.toList.Perm rest := by
  have hsize : heap.size = rest.length + 1 := by
    rw [← Array.length_toList, hroot, List.length_cons]
  have hfirst : heap[0] = root := by
    simp only [← Array.getElem_toList, hroot, List.getElem_cons_zero]
  have hswap : heap.swapIfInBounds 0 (heap.size - 1) =
      heap.swap 0 (heap.size - 1) (by omega) (by omega) := by
    simp [Array.swapIfInBounds_def, hsize]
  -- the swap brings the root to the end, where `pop` takes it away
  have hlast : (heap.swap 0 (heap.size - 1) (by omega) (by omega)).back? = some root := by
    rw [Array.back?_eq_getElem?, Array.getElem?_eq_getElem (by simp; omega)]
    simp only [Array.size_swap, Array.getElem_swap_right, hfirst]
  obtain ⟨others, hothers⟩ := Array.back?_eq_some_iff.1 hlast
  have hperm : (others.push root).toList.Perm (root :: rest) := by
    rw [← hothers, ← hroot]
    exact (Array.swap_perm ..).toList
  rw [hswap, hothers, Array.pop_push]
  rw [Array.toList_push] at hperm
  exact (List.perm_cons root).1 ((List.perm_append_singleton _ _).symm.trans hperm)

theorem removeRoot_spec (h : Ordered cmp heap) (hroot : heap.toList = root :: rest) (s : σ) :
    ∃ heap', heap.removeRoot (.ofCompare cmp) s = .ok () (heap', s) ∧
      heap'.toList.Perm rest ∧ Ordered cmp heap' := by
  have hdown : DownOrdered cmp (heap.swapIfInBounds 0 (heap.size - 1)).pop 0 := by
    constructor
    · intro c p hc hp hcp hne
      rw [Array.size_pop, Array.size_swapIfInBounds] at hc hp
      have hlt := hcp.lt
      rw [Array.getElem_pop, Array.getElem_pop,
        Array.getElem_swapIfInBounds_of_ne_of_ne hne (by omega),
        Array.getElem_swapIfInBounds_of_ne_of_ne (by omega) (by omega)]
      exact h c p (by omega) (by omega) hcp
    · intro c p _ _ _ hp
      exact absurd hp.1 (Nat.lt_irrefl 0)
  obtain ⟨heap', hrun, hperm, hord⟩ := siftDown_spec s _ _ 0 rfl hdown
  exact ⟨heap', hrun, hperm.toList.trans (toList_pop_swap_root hroot), hord⟩

end Root

end Heap

end Streamkit
