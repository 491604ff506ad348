import Mathlib.Order.Basic
import Streamkit.Proofs.Memo.Replay

/-!
# Shelves of fixed sequences

A shelf is a store of memos without the laziness: every memo is the fixed sequence that it replays,
with the largest demand on it so far. Reading position `k` of a memo is a demand of `k + 1`
(`Shelf.raise`); a memo that maps another one demands of it what it polls, which keeps the shelf
`Shelf.Sound`. Only the largest demand counts: `Shelf.raise_of_le`, `Shelf.raise_raise`.
-/

namespace Streamkit

variable {α : Type}

/-- The items of a replay mapped, as a source. -/
def Source.through (f : α → Except Fault α) (s : Source α) : Source α where
  answer k :=
    match s.replay k with
    | .ok (some a) => (f a).map some
    | .ok none => .ok none
    | .error e => .error e
  hint := s.hint

/-- The sequence that a memo replays, and the largest demand on it so far. -/
structure Replayed (α : Type) where
  origin : MemoOrigin α
  source : Source α
  demand : Nat

/-- Replayed sequences, by the numbers of their memos. -/
abbrev Shelf (α : Type) := Array (Replayed α)

theorem getElem?_push_of_some {γ : Type} {xs : Array γ} {i : Nat} {x : γ} (h : xs[i]? = some x)
    (y : γ) : (xs.push y)[i]? = some x := by
  obtain ⟨hi, -⟩ := Array.getElem?_eq_some_iff.1 h
  rw [Array.getElem?_push, if_neg (Nat.ne_of_lt hi), h]

section Modify

variable {γ : Type} {i : Nat}

theorem modify_modify (xs : Array γ) (i : Nat) (f g : γ → γ) :
    (xs.modify i f).modify i g = xs.modify i fun x => g (f x) := by
  refine Array.ext_getElem? fun j => ?_
  simp only [Array.getElem?_modify]
  split
  · rw [Option.map_map]
    rfl
  · rfl

theorem modify_modify_of_ne {j : Nat} (h : i ≠ j) (f g : γ → γ) (xs : Array γ) :
    (xs.modify j g).modify i f = (xs.modify i f).modify j g := by
  refine Array.ext_getElem? fun k => ?_
  simp only [Array.getElem?_modify]
  by_cases hi : i = k
  · rw [if_pos hi, if_pos hi, if_neg fun hj => h (hi.trans hj.symm),
      if_neg fun hj => h (hi.trans hj.symm)]
  · rw [if_neg hi, if_neg hi]

theorem modify_of_fixed {xs : Array γ} {x : γ} (hx : xs[i]? = some x) {f : γ → γ} (hf : f x = x) :
    xs.modify i f = xs := by
  refine Array.ext_getElem? fun j => ?_
  rw [Array.getElem?_modify]
  split
  · rename_i hij
    rw [← hij, hx, Option.map_some, hf]
  · rfl

theorem modify_push {xs : Array γ} (hi : i < xs.size) (f : γ → γ) (x : γ) :
    (xs.push x).modify i f = (xs.modify i f).push x := by
  refine Array.ext_getElem? fun j => ?_
  simp only [Array.getElem?_modify, Array.getElem?_push, Array.size_modify]
  by_cases hij : i = j
  · rw [if_pos hij, if_pos hij, if_neg (by omega), if_neg (by omega)]
  · rw [if_neg hij, if_neg hij]

end Modify

/-- A demand on a sequence. -/
def Replayed.raise (d : Nat) (r : Replayed α) : Replayed α := { r with demand := max r.demand d }

theorem Replayed.raise_raise {d d' : Nat} (h : d ≤ d') (r : Replayed α) :
    (r.raise d).raise d' = r.raise d' := by
  simp only [raise, Nat.max_assoc, Nat.max_eq_right h]

namespace Shelf

/-- A demand of `d` positions on sequence `i`; a mapped sequence passes on what it polls. -/
def raise (i d : Nat) (w : Shelf α) : Shelf α :=
  match w[i]? with
  | none => w
  | some r =>
    match r.origin with
    | .source _ => w.modify i (·.raise d)
    | .mapped parent _ =>
      if parent < i then
        (raise parent (r.source.pollsWithin (max r.demand d)) w).modify i (·.raise d)
      else w.modify i (·.raise d)
termination_by i

/-- What is at position `k` of sequence `i`, which is a demand of `k + 1` positions. -/
def read (i k : Nat) : Act (Shelf α) (Option α) := fun w =>
  match w[i]? with
  | none => .ok none w
  | some r => Act.ofExcept (r.source.replay k) (w.raise i (k + 1))

/-- Every mapped sequence maps an earlier one, of which it has demanded what it has polled. -/
def Sound (w : Shelf α) : Prop :=
  ∀ (i : Nat) (r : Replayed α), w[i]? = some r →
    match r.origin with
    | .source s => r.source = s
    | .mapped parent f => parent < i ∧ ∃ q, w[parent]? = some q ∧ r.source = q.source.through f ∧
        r.source.pollsWithin r.demand ≤ q.demand

/-- The same sequences, under demands at least as large. -/
def Grows (w w' : Shelf α) : Prop :=
  ∀ (i : Nat) (r : Replayed α), w[i]? = some r →
    ∃ d, r.demand ≤ d ∧ w'[i]? = some { r with demand := d }

/-! ## Demands -/

variable {w : Shelf α} {i d : Nat}

theorem read_eq {r : Replayed α} (hr : w[i]? = some r) (k : Nat) :
    read i k w = Act.ofExcept (r.source.replay k) (w.raise i (k + 1)) := by
  simp only [read, hr]

theorem Grows.refl (w : Shelf α) : Grows w w := fun _ r h => ⟨r.demand, Nat.le_refl _, h⟩

theorem Grows.trans {w₁ w₂ w₃ : Shelf α} (h : Grows w₁ w₂) (h' : Grows w₂ w₃) : Grows w₁ w₃ := by
  intro i r hr
  obtain ⟨d, hd, hr⟩ := h i r hr
  obtain ⟨d', hd', hr⟩ := h' i _ hr
  exact ⟨d', hd.trans hd', hr⟩

theorem Grows.lt_size {w w' : Shelf α} (h : Grows w w') {i : Nat} (hi : i < w.size) :
    i < w'.size := by
  obtain ⟨d, -, hr⟩ := h i w[i] (Array.getElem?_eq_getElem hi)
  exact (Array.getElem?_eq_some_iff.1 hr).1

theorem grows_modify (w : Shelf α) (i d : Nat) : Grows w (w.modify i (·.raise d)) := by
  intro j r hr
  by_cases h : i = j
  · exact ⟨max r.demand d, Nat.le_max_left _ _, by rw [Array.getElem?_modify, if_pos h, hr]; rfl⟩
  · exact ⟨r.demand, Nat.le_refl _, by rw [Array.getElem?_modify, if_neg h, hr]⟩

theorem grows_push (w : Shelf α) (r : Replayed α) : Grows w (w.push r) :=
  fun _ q hq => ⟨q.demand, Nat.le_refl _, getElem?_push_of_some hq r⟩

theorem grows_raise (w : Shelf α) (i d : Nat) : Grows w (w.raise i d) := by
  fun_induction raise i d w with
  | case1 => exact Grows.refl _
  | case2 => exact grows_modify _ _ _
  | case3 _ _ _ _ _ _ _ _ ih => exact ih.trans (grows_modify _ _ _)
  | case4 => exact grows_modify _ _ _

theorem getElem?_raise_of_lt {j : Nat} (h : i < j) : (w.raise i d)[j]? = w[j]? := by
  fun_induction raise i d w with
  | case1 => rfl
  | case2 i => rw [Array.getElem?_modify, if_neg (Nat.ne_of_lt h)]
  | case3 _ _ _ _ _ _ _ hlt ih =>
    rw [Array.getElem?_modify, if_neg (Nat.ne_of_lt h), ih (hlt.trans h)]
  | case4 i => rw [Array.getElem?_modify, if_neg (Nat.ne_of_lt h)]

theorem getElem?_raise_self : (w.raise i d)[i]? = w[i]?.map (·.raise d) := by
  unfold raise
  cases hr : w[i]? with
  | none => simp [hr]
  | some r =>
    dsimp only
    split
    · rw [Array.getElem?_modify, if_pos rfl, hr]
    · split
      · rename_i hlt
        rw [Array.getElem?_modify, if_pos rfl, getElem?_raise_of_lt hlt, hr]
      · rw [Array.getElem?_modify, if_pos rfl, hr]

theorem raise_none (hr : w[i]? = none) (d : Nat) : w.raise i d = w := by
  unfold raise
  rw [hr]

theorem raise_source {r : Replayed α} (hr : w[i]? = some r) {s : Source α}
    (ho : r.origin = .source s) (d : Nat) : w.raise i d = w.modify i (·.raise d) := by
  unfold raise
  simp only [hr, ho]

theorem raise_mapped {r : Replayed α} (hr : w[i]? = some r) {parent : Nat} {f : α → Except Fault α}
    (ho : r.origin = .mapped parent f) (hlt : parent < i) (d : Nat) :
    w.raise i d =
      (w.raise parent (r.source.pollsWithin (max r.demand d))).modify i (·.raise d) := by
  rw [raise]
  simp only [hr, ho, if_pos hlt]

theorem modify_of_le {r : Replayed α} (hr : w[i]? = some r) (hd : d ≤ r.demand) :
    w.modify i (·.raise d) = w :=
  modify_of_fixed hr (by rw [Replayed.raise, Nat.max_eq_left hd])

theorem raise_of_le (hw : w.Sound) : ∀ {i d : Nat} {r : Replayed α}, w[i]? = some r →
    d ≤ r.demand → w.raise i d = w := by
  intro i
  induction i using Nat.strongRecOn with
  | ind i ih =>
    intro d r hr hd
    have hsound := hw i r hr
    cases ho : r.origin with
    | source s => rw [raise_source hr ho, modify_of_le hr hd]
    | mapped parent f =>
      rw [ho] at hsound
      obtain ⟨hlt, q, hq, -, hpolls⟩ := hsound
      rw [raise_mapped hr ho hlt, Nat.max_eq_left hd, ih parent hlt hq hpolls, modify_of_le hr hd]

/-- A demand beyond the known end of a sequence is not passed on. -/
theorem raise_of_stopped (hw : w.Sound) {r : Replayed α} (hr : w[i]? = some r)
    (hstop : r.source.itemsWithin r.demand < r.demand) (d : Nat) :
    w.raise i d = w.modify i (·.raise d) := by
  have hsound := hw i r hr
  cases ho : r.origin with
  | source s => exact raise_source hr ho d
  | mapped parent f =>
    rw [ho] at hsound
    obtain ⟨hlt, q, hq, -, hpolls⟩ := hsound
    have hsame := r.source.pollsWithin_of_stopped hstop (Nat.le_max_left _ d)
    rw [raise_mapped hr ho hlt, hsame, raise_of_le hw hq hpolls]

theorem Sound.modify (hw : w.Sound) {r : Replayed α} (hr : w[i]? = some r)
    (hparent : ∀ parent f, r.origin = .mapped parent f →
      ∃ q, w[parent]? = some q ∧ r.source.pollsWithin (max r.demand d) ≤ q.demand) :
    Sound (w.modify i (·.raise d)) := by
  have hgrows := grows_modify w i d
  have hkeep : ∀ {p : Nat} {q : Replayed α} {s : Source α} {f : α → Except Fault α} {n : Nat},
      w[p]? = some q → s = q.source.through f → n ≤ q.demand →
      ∃ q', (w.modify i (·.raise d))[p]? = some q' ∧ s = q'.source.through f ∧ n ≤ q'.demand := by
    intro p q s f n hq hsource hn
    obtain ⟨d', hd', hq'⟩ := hgrows p q hq
    exact ⟨_, hq', hsource, hn.trans hd'⟩
  intro j r' hr'
  by_cases hij : i = j
  · subst hij
    have hsound := hw i r hr
    rw [Array.getElem?_modify, if_pos rfl, hr] at hr'
    obtain rfl := Option.some.inj hr'
    simp only [Replayed.raise]
    cases ho : r.origin with
    | source s => simpa [ho] using hsound
    | mapped parent f =>
      rw [ho] at hsound
      obtain ⟨hlt, q, hq, hsource, -⟩ := hsound
      obtain ⟨q', hq', hpolls⟩ := hparent parent f ho
      obtain rfl := Option.some.inj (hq.symm.trans hq')
      exact ⟨hlt, hkeep hq hsource hpolls⟩
  · rw [Array.getElem?_modify, if_neg hij] at hr'
    have hsound := hw j r' hr'
    cases ho : r'.origin with
    | source s => simpa [ho] using hsound
    | mapped parent f =>
      rw [ho] at hsound
      obtain ⟨hlt, q, hq, hsource, hpolls⟩ := hsound
      exact ⟨hlt, hkeep hq hsource hpolls⟩

theorem Sound.push (hw : w.Sound) {parent : Nat} {q : Replayed α} (hq : w[parent]? = some q)
    (f : α → Except Fault α) :
    Sound (w.push ⟨.mapped parent f, q.source.through f, 0⟩) := by
  obtain ⟨hparent, -⟩ := Array.getElem?_eq_some_iff.1 hq
  intro i r hr
  rw [Array.getElem?_push] at hr
  split at hr
  · rename_i hi
    cases hr
    exact ⟨hi ▸ hparent, q, getElem?_push_of_some hq _, rfl, Nat.zero_le _⟩
  · have hsound := hw i r hr
    cases ho : r.origin with
    | source s => simpa [ho] using hsound
    | mapped p g =>
      rw [ho] at hsound
      obtain ⟨hlt, x, hx, hsource, hpolls⟩ := hsound
      exact ⟨hlt, x, getElem?_push_of_some hx _, hsource, hpolls⟩

theorem Sound.raise (hw : w.Sound) : ∀ i d, Sound (w.raise i d) := by
  intro i
  induction i using Nat.strongRecOn with
  | ind i ih =>
    intro d
    cases hr : w[i]? with
    | none => rwa [raise_none hr]
    | some r =>
      have hsound := hw i r hr
      cases ho : r.origin with
      | source s =>
        rw [raise_source hr ho]
        exact hw.modify hr fun parent f h => by rw [ho] at h; cases h
      | mapped parent f =>
        rw [ho] at hsound
        obtain ⟨hlt, q, hq, -, -⟩ := hsound
        rw [raise_mapped hr ho hlt]
        have hr' : (w.raise parent (r.source.pollsWithin (max r.demand d)))[i]? = some r := by
          rw [getElem?_raise_of_lt hlt, hr]
        refine (ih parent hlt _).modify hr' fun parent' f' h => ?_
        rw [ho] at h
        cases h
        exact ⟨_, by rw [getElem?_raise_self, hq]; rfl, Nat.le_max_right _ _⟩

theorem raise_modify (hw : w.Sound) {j d' : Nat} : ∀ {i d : Nat}, i < j →
    Shelf.raise i d (w.modify j (·.raise d')) = (w.raise i d).modify j (·.raise d') := by
  intro i
  induction i using Nat.strongRecOn with
  | ind i ih =>
    intro d h
    have hne : i ≠ j := Nat.ne_of_lt h
    have hsame : (w.modify j (·.raise d'))[i]? = w[i]? := by
      rw [Array.getElem?_modify, if_neg hne.symm]
    cases hr : w[i]? with
    | none => rw [raise_none hr, raise_none (hsame.trans hr)]
    | some r =>
      have hsound := hw i r hr
      rw [hr] at hsame
      cases ho : r.origin with
      | source s => rw [raise_source hr ho, raise_source hsame ho, modify_modify_of_ne hne]
      | mapped parent f =>
        rw [ho] at hsound
        have hlt := hsound.1
        rw [raise_mapped hr ho hlt, raise_mapped hsame ho hlt, ih parent hlt (hlt.trans h),
          modify_modify_of_ne hne]

theorem modify_raise_raise {d' : Nat} (hd : d ≤ d') (w : Shelf α) :
    (w.modify i (·.raise d)).modify i (·.raise d') = w.modify i (·.raise d') := by
  simp only [modify_modify, Replayed.raise_raise hd]

theorem raise_raise (hw : w.Sound) : ∀ {i d d' : Nat}, d ≤ d' →
    (w.raise i d).raise i d' = w.raise i d' := by
  intro i
  induction i using Nat.strongRecOn with
  | ind i ih =>
    intro d d' hd
    cases hr : w[i]? with
    | none => rw [raise_none hr, raise_none hr]
    | some r =>
      have hr' : (w.raise i d)[i]? = some (r.raise d) := by rw [getElem?_raise_self, hr]; rfl
      have hsound := hw i r hr
      cases ho : r.origin with
      | source s =>
        rw [raise_source hr' ho, raise_source hr ho, raise_source hr ho, modify_raise_raise hd]
      | mapped parent f =>
        rw [ho] at hsound
        have hlt := hsound.1
        have hpolls := r.source.pollsWithin_mono (max_le_max_left r.demand hd)
        have hmax : max (r.raise d).demand d' = max r.demand d' :=
          congrArg Replayed.demand (r.raise_raise hd)
        rw [raise_mapped hr' ho hlt, hmax, raise_mapped hr ho hlt, raise_mapped hr ho hlt,
          raise_modify (hw.raise _ _) hlt, modify_raise_raise hd]
        exact congrArg (fun w : Shelf α => w.modify i (·.raise d')) (ih parent hlt hpolls)

end Shelf

end Streamkit
