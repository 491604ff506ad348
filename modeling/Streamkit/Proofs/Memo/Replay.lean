import Mathlib.Data.ENat.Lattice
import Mathlib.Order.CompletePartialOrder
import Streamkit.Sequence.Memo

/-!
# Replaying a source

What a memo can know of a source is the items that it gives before its first end or its first fault,
and which of the two came then. `Source.replay` is that sequence, as what a traversal gets at each
position. A demand of `d` positions finds `Source.itemsWithin d` items, at the cost of
`Source.pollsWithin d` polls; in terms of the number of items of the sequence, which may be
infinite, these are `min length d` and `min (length + 1) d`.
-/

namespace Streamkit.Source

variable {α : Type}

/-- What is at position `k`: an item if the source gives items up to there, else what has stopped
it. -/
def replay (s : Source α) : Nat → Answer α
  | 0 => s.answer 0
  | k + 1 =>
    match s.replay k with
    | .ok (some _) => s.answer (k + 1)
    | stop => stop

/-- The number of items at positions below `d`. -/
def itemsWithin (s : Source α) : Nat → Nat
  | 0 => 0
  | d + 1 =>
    match s.replay d with
    | .ok (some _) => d + 1
    | _ => itemsWithin s d

/-- What is known of the source once the positions below `d` are known. -/
def statusWithin (s : Source α) : Nat → MemoStatus
  | 0 => .reading
  | d + 1 =>
    match s.replay d with
    | .ok (some _) => .reading
    | .ok none => .ended
    | .error _ => .failed

/-- The polls that make the positions below `d` known. -/
def pollsWithin (s : Source α) (d : Nat) : Nat := min d (s.itemsWithin d + 1)

/-- The number of items that the source gives before its first end or fault. -/
noncomputable def length (s : Source α) : ℕ∞ :=
  ⨆ d : { d : Nat // ∀ k < d, ∃ a, s.answer k = .ok (some a) }, (d.1 : ℕ∞)

variable (s : Source α)

/-! ## Items and stops -/

theorem replay_succ_of_item {k : Nat} {a : α} (h : s.replay k = .ok (some a)) :
    s.replay (k + 1) = s.answer (k + 1) := by
  rw [replay, h]

theorem replay_eq_of_le {k n : Nat} (hk : ∀ a, s.replay k ≠ .ok (some a)) (hn : k ≤ n) :
    s.replay n = s.replay k := by
  induction n, hn using Nat.le_induction with
  | base => rfl
  | succ n _ ih =>
    rw [replay]
    split
    · rename_i a h
      exact absurd (ih ▸ h) (hk a)
    · exact ih

theorem replay_ne_error (h : ∀ k e, s.answer k ≠ .error e) (k : Nat) (e : Fault) :
    s.replay k ≠ .error e := by
  induction k with
  | zero => exact h 0 e
  | succ k ih =>
    rw [replay]
    split
    · exact h (k + 1) e
    · exact ih

theorem itemsWithin_le (d : Nat) : s.itemsWithin d ≤ d := by
  induction d with
  | zero => exact Nat.le_refl 0
  | succ d ih =>
    rw [itemsWithin]
    split
    · exact Nat.le_refl _
    · exact Nat.le_succ_of_le ih

theorem exists_item {d k : Nat} (hk : k < s.itemsWithin d) : ∃ a, s.replay k = .ok (some a) := by
  by_contra hstop
  have hstop : ∀ a, s.replay k ≠ .ok (some a) := not_exists.1 hstop
  induction d with
  | zero => exact absurd hk (Nat.not_lt_zero k)
  | succ d ih =>
    rw [itemsWithin] at hk
    split at hk
    · rename_i a h
      rw [s.replay_eq_of_le hstop (Nat.le_of_lt_succ hk)] at h
      exact hstop a h
    · exact ih hk

theorem le_itemsWithin {n d : Nat} (hn : n ≤ d) (h : ∀ k < n, ∃ a, s.replay k = .ok (some a)) :
    n ≤ s.itemsWithin d := by
  induction d, hn using Nat.le_induction with
  | base =>
    cases n with
    | zero => exact Nat.zero_le _
    | succ n =>
      obtain ⟨a, ha⟩ := h n (Nat.lt_succ_self n)
      rw [itemsWithin, ha]
  | succ d hd ih =>
    rw [itemsWithin]
    split
    · exact Nat.le_succ_of_le hd
    · exact ih

theorem itemsWithin_mono {d d' : Nat} (h : d ≤ d') : s.itemsWithin d ≤ s.itemsWithin d' :=
  s.le_itemsWithin ((s.itemsWithin_le d).trans h) fun _ hk => s.exists_item hk

theorem itemsWithin_max (d d' : Nat) :
    s.itemsWithin (max d d') = max (s.itemsWithin d) (s.itemsWithin d') := by
  have hmono : Monotone s.itemsWithin := fun _ _ => s.itemsWithin_mono
  exact hmono.map_max

/-- Below the demand there is nothing after the last item. -/
theorem not_item {d : Nat} (h : s.itemsWithin d < d) (a : α) :
    s.replay (s.itemsWithin d) ≠ .ok (some a) := by
  intro ha
  have hle : s.itemsWithin d + 1 ≤ s.itemsWithin d := by
    refine s.le_itemsWithin h fun k hk => ?_
    rcases Nat.lt_succ_iff_lt_or_eq.1 hk with hk | rfl
    · exact s.exists_item hk
    · exact ⟨a, ha⟩
  omega

theorem replay_of_stopped {d k : Nat} (h : s.itemsWithin d < d) (hk : s.itemsWithin d ≤ k) :
    s.replay k = s.replay (s.itemsWithin d) :=
  s.replay_eq_of_le (s.not_item h) hk

theorem itemsWithin_of_stopped {d d' : Nat} (h : s.itemsWithin d < d) (hd : d ≤ d') :
    s.itemsWithin d' = s.itemsWithin d := by
  refine Nat.le_antisymm (Nat.le_of_not_lt fun hlt => ?_) (s.itemsWithin_mono hd)
  obtain ⟨a, ha⟩ := s.exists_item hlt
  exact s.not_item h a ha

theorem replay_eq_answer {d k : Nat} (hk : k ≤ s.itemsWithin d) : s.replay k = s.answer k := by
  cases k with
  | zero => rfl
  | succ k =>
    obtain ⟨a, ha⟩ := s.exists_item hk
    exact s.replay_succ_of_item ha

/-! ## What is known -/

/-- Either all positions that were asked for have items, or what comes after the items is known. -/
theorem statusWithin_cases (d : Nat) :
    s.statusWithin d = .reading ∧ s.itemsWithin d = d ∨
    s.statusWithin d = .ended ∧ s.itemsWithin d < d ∧ s.replay (s.itemsWithin d) = .ok none ∨
    s.statusWithin d = .failed ∧ s.itemsWithin d < d ∧
      ∃ e, s.replay (s.itemsWithin d) = .error e := by
  cases d with
  | zero => exact .inl ⟨rfl, rfl⟩
  | succ d =>
    have hle := s.itemsWithin_le d
    cases h : s.replay d with
    | error e =>
      have hitems : s.itemsWithin (d + 1) = s.itemsWithin d := by rw [itemsWithin, h]
      have hreplay := s.replay_of_stopped (d := d + 1) (k := d) (by omega) (by omega)
      exact .inr (.inr ⟨by rw [statusWithin, h], by omega, e, by rw [← hreplay, h]⟩)
    | ok x =>
      cases x with
      | none =>
        have hitems : s.itemsWithin (d + 1) = s.itemsWithin d := by rw [itemsWithin, h]
        have hreplay := s.replay_of_stopped (d := d + 1) (k := d) (by omega) (by omega)
        exact .inr (.inl ⟨by rw [statusWithin, h], by omega, by rw [← hreplay, h]⟩)
      | some a => exact .inl ⟨by rw [statusWithin, h], by rw [itemsWithin, h]⟩

theorem statusWithin_eq_reading {d : Nat} :
    s.statusWithin d = .reading ↔ s.itemsWithin d = d := by
  rcases s.statusWithin_cases d with ⟨hs, h⟩ | ⟨hs, h, -⟩ | ⟨hs, h, -⟩
  · exact iff_of_true hs h
  · exact iff_of_false (by rw [hs]; nofun) (Nat.ne_of_lt h)
  · exact iff_of_false (by rw [hs]; nofun) (Nat.ne_of_lt h)

theorem statusWithin_of_stopped {d d' : Nat} (h : s.itemsWithin d < d) (hd : d ≤ d') :
    s.statusWithin d' = s.statusWithin d := by
  have hitems := s.itemsWithin_of_stopped h hd
  rcases s.statusWithin_cases d with ⟨-, h⟩ | ⟨hs, -, hr⟩ | ⟨hs, -, e, hr⟩
  · omega
  · rcases s.statusWithin_cases d' with ⟨-, h⟩ | ⟨hs', -, hr'⟩ | ⟨hs', -, e', hr'⟩
    · omega
    · rw [hs, hs']
    · rw [hitems, hr] at hr'
      cases hr'
  · rcases s.statusWithin_cases d' with ⟨-, h⟩ | ⟨hs', -, hr'⟩ | ⟨hs', -, e', hr'⟩
    · omega
    · rw [hitems, hr] at hr'
      cases hr'
    · rw [hs, hs']

theorem replay_of_ended {d k : Nat} (h : s.statusWithin d = .ended) (hk : s.itemsWithin d ≤ k) :
    s.itemsWithin d < d ∧ s.replay k = .ok none := by
  rcases s.statusWithin_cases d with ⟨hs, -⟩ | ⟨-, hlt, hr⟩ | ⟨hs, -⟩
  · rw [h] at hs
    cases hs
  · exact ⟨hlt, (s.replay_of_stopped hlt hk).trans hr⟩
  · rw [h] at hs
    cases hs

theorem itemsWithin_of_item {d : Nat} {a : α} (h : s.replay d = .ok (some a)) :
    s.itemsWithin d = d := by
  by_contra hne
  have hlt := Nat.lt_of_le_of_ne (s.itemsWithin_le d) hne
  rw [s.replay_of_stopped hlt (s.itemsWithin_le d)] at h
  exact s.not_item hlt a h

theorem itemsWithin_succ_of_stop {d : Nat} (h : ∀ a, s.replay d ≠ .ok (some a)) :
    s.itemsWithin (d + 1) = s.itemsWithin d := by
  rw [itemsWithin]
  split
  · rename_i a ha
    exact absurd ha (h a)
  · rfl

/-! ## One more position -/

theorem within_succ_of_item {d : Nat} {a : α} (h : s.replay d = .ok (some a)) :
    s.itemsWithin (d + 1) = s.itemsWithin d + 1 ∧ s.statusWithin (d + 1) = .reading := by
  rw [itemsWithin, statusWithin, h, s.itemsWithin_of_item h]
  exact ⟨rfl, rfl⟩

theorem within_succ_of_end {d : Nat} (h : s.replay d = .ok none) :
    s.itemsWithin (d + 1) = s.itemsWithin d ∧ s.statusWithin (d + 1) = .ended := by
  rw [itemsWithin, statusWithin, h]
  exact ⟨rfl, rfl⟩

theorem within_succ_of_fault {d : Nat} {e : Fault} (h : s.replay d = .error e) :
    s.itemsWithin (d + 1) = s.itemsWithin d ∧ s.statusWithin (d + 1) = .failed := by
  rw [itemsWithin, statusWithin, h]
  exact ⟨rfl, rfl⟩

/-! ## Polls -/

theorem pollsWithin_of_stopped {d d' : Nat} (h : s.itemsWithin d < d) (hd : d ≤ d') :
    s.pollsWithin d' = s.pollsWithin d := by
  have hitems := s.itemsWithin_of_stopped h hd
  unfold pollsWithin
  omega

theorem pollsWithin_mono {d d' : Nat} (h : d ≤ d') : s.pollsWithin d ≤ s.pollsWithin d' := by
  have hitems := s.itemsWithin_mono h
  unfold pollsWithin
  omega

theorem pollsWithin_of_reading {d : Nat} (h : s.itemsWithin d = d) : s.pollsWithin d = d := by
  unfold pollsWithin
  omega

theorem pollsWithin_succ_of_reading {d : Nat} (h : s.itemsWithin d = d) :
    s.pollsWithin (d + 1) = d + 1 := by
  have hle := s.itemsWithin_mono (Nat.le_add_right d 1)
  unfold pollsWithin
  omega

theorem pollsWithin_max (d d' : Nat) :
    s.pollsWithin (max d d') = max (s.pollsWithin d) (s.pollsWithin d') := by
  have hmono : Monotone s.pollsWithin := fun _ _ => s.pollsWithin_mono
  exact hmono.map_max

/-- As many positions as there are polls cost as many polls. -/
theorem pollsWithin_pollsWithin (d : Nat) : s.pollsWithin (s.pollsWithin d) = s.pollsWithin d := by
  have hle : s.itemsWithin d ≤ s.pollsWithin d := Nat.le_min.2 ⟨s.itemsWithin_le d, by omega⟩
  have hitems := s.le_itemsWithin hle fun _ hk => s.exists_item hk
  unfold pollsWithin at hitems ⊢
  omega

/-- The polls tell how much is known. -/
theorem within_of_pollsWithin {d d' : Nat} (h : s.pollsWithin d = s.pollsWithin d') :
    s.itemsWithin d = s.itemsWithin d' ∧ s.statusWithin d = s.statusWithin d' := by
  wlog hd : d ≤ d' generalizing d d'
  · obtain ⟨hitems, hstatus⟩ := this h.symm (Nat.le_of_not_le hd)
    exact ⟨hitems.symm, hstatus.symm⟩
  rcases Nat.lt_or_eq_of_le (s.itemsWithin_le d) with hlt | heq
  · exact ⟨(s.itemsWithin_of_stopped hlt hd).symm, (s.statusWithin_of_stopped hlt hd).symm⟩
  · have hle := s.itemsWithin_mono hd
    unfold pollsWithin at h
    obtain rfl : d = d' := by omega
    exact ⟨rfl, rfl⟩

/-- Positions from the first that has no item on are alike. -/
theorem alike_of_itemsWithin {calls k : Nat} (h : s.itemsWithin calls = k) :
    s.replay calls = s.replay k ∧ s.pollsWithin (calls + 1) = s.pollsWithin (k + 1) := by
  subst h
  rcases Nat.lt_or_eq_of_le (s.itemsWithin_le calls) with hlt | heq
  · have hitems := s.itemsWithin_mono (Nat.succ_le_of_lt hlt)
    exact ⟨s.replay_of_stopped hlt (Nat.le_of_lt hlt),
      s.pollsWithin_of_stopped (Nat.lt_succ_of_le hitems) (by omega)⟩
  · rw [heq]
    exact ⟨rfl, rfl⟩

/-- The source has ended exactly when one of the polls was answered with the end. -/
theorem ended_iff_polled (d : Nat) :
    s.statusWithin d = .ended ↔ ∃ k < s.pollsWithin d, s.answer k = .ok none := by
  constructor
  · intro h
    rcases s.statusWithin_cases d with ⟨hs, -⟩ | ⟨-, hlt, hr⟩ | ⟨hs, -⟩
    · rw [h] at hs
      cases hs
    · refine ⟨s.itemsWithin d, ?_, ?_⟩
      · unfold pollsWithin
        omega
      · rw [← s.replay_eq_answer (Nat.le_refl _), hr]
    · rw [h] at hs
      cases hs
  · rintro ⟨k, hk, hanswer⟩
    have hle : k ≤ s.itemsWithin d := by
      unfold pollsWithin at hk
      omega
    rw [← s.replay_eq_answer hle] at hanswer
    rcases Nat.lt_or_eq_of_le hle with hlt | rfl
    · obtain ⟨a, ha⟩ := s.exists_item hlt
      rw [ha] at hanswer
      cases hanswer
    · rcases s.statusWithin_cases d with ⟨-, h⟩ | ⟨hs, -⟩ | ⟨-, -, e, hr⟩
      · unfold pollsWithin at hk
        omega
      · exact hs
      · rw [hr] at hanswer
        cases hanswer

/-! ## Closed forms -/

theorem coe_itemsWithin (d : Nat) : (s.itemsWithin d : ℕ∞) = min s.length d := by
  refine le_antisymm (le_min ?_ ?_) ?_
  · have hitems : ∀ k < s.itemsWithin d, ∃ a, s.answer k = .ok (some a) := by
      intro k hk
      rw [← s.replay_eq_answer (Nat.le_of_lt hk)]
      exact s.exists_item hk
    exact le_iSup (fun d : { d : Nat // ∀ k < d, ∃ a, s.answer k = .ok (some a) } => (d.1 : ℕ∞))
      ⟨s.itemsWithin d, hitems⟩
  · exact_mod_cast s.itemsWithin_le d
  · rcases Nat.lt_or_eq_of_le (s.itemsWithin_le d) with hlt | heq
    · refine (min_le_left _ _).trans (iSup_le fun ⟨n, hn⟩ => ?_)
      rw [Nat.cast_le]
      by_contra hgt
      obtain ⟨a, ha⟩ := hn (s.itemsWithin d) (Nat.lt_of_not_le hgt)
      rw [← s.replay_eq_answer (Nat.le_refl _)] at ha
      exact s.not_item hlt a ha
    · rw [heq]
      exact min_le_right _ _

theorem coe_pollsWithin (d : Nat) : (s.pollsWithin d : ℕ∞) = min (s.length + 1) d := by
  have hcast : (s.pollsWithin d : ℕ∞) = min (d : ℕ∞) ((s.itemsWithin d : ℕ∞) + 1) := by
    rw [pollsWithin, Monotone.map_min Nat.mono_cast, Nat.cast_add, Nat.cast_one]
  rw [hcast, coe_itemsWithin, ← min_add_add_right, min_left_comm, min_eq_left le_self_add]

end Streamkit.Source
