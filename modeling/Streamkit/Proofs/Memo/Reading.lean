import Streamkit.Proofs.Memo.Store
import Streamkit.Sequence.Memo.Traversal

/-!
# Traversals of fixed sequences

A reading of a sequence counts how often it was asked for its next item, and nothing else: asked for
the `k`-th time, counting from 0, it gives what is at position `k`. The iterators and cursors of a
memo place themselves by the items they were given and by the end they have seen, which is what the
count determines (`MemoIter.At`, `MemoCursor.At`). Step by step they give what a reading gives:
`MemoIter.refines_next`, `MemoCursor.refines_next`. So do the traversals that are made for one
request only.
-/

namespace Streamkit

variable {α : Type}

/-- A traversal of a sequence that was asked for its next item a number of times. -/
structure Reading where
  memo : Nat
  calls : Nat

namespace Reading

/-- A reading from the start. -/
def start (memo : Nat) : Reading := ⟨memo, 0⟩

/-- What is at the position of this call. -/
def next : Act (Reading × Shelf α) (Option α) := fun (rd, w) =>
  match Shelf.read rd.memo rd.calls w with
  | .ok x w => .ok x ({ rd with calls := rd.calls + 1 }, w)
  | .error e w => .error e ({ rd with calls := rd.calls + 1 }, w)

end Reading

/-- Runs a fresh reading. -/
def Shelf.traverse {β : Type} (memo : Nat) (act : Act (Reading × Shelf α) β) : Act (Shelf α) β :=
  fun w =>
    match act (.start memo, w) with
    | .ok b (_, w) => .ok b w
    | .error e (_, w) => .error e w

/-- Where `calls` calls lead: past the items they gave, and to the end if they saw it. -/
structure Source.Place (s : Source α) (calls position : Nat) (finished : Bool) : Prop where
  position : position = s.itemsWithin calls
  finished : finished = (s.statusWithin calls == .ended)

/-- The sequence of a reading, if it is there, with a demand for every call. -/
def Reading.Of (w : Shelf α) (rd : Reading) (r : Replayed α) : Prop :=
  w[rd.memo]? = some r ∧ rd.calls ≤ r.demand

/-- The iterator has been called as often as the reading. -/
structure MemoIter.At (w : Shelf α) (it : MemoIter) (rd : Reading) : Prop where
  memo : it.memo = rd.memo
  place : ∃ r, rd.Of w r ∧ r.source.Place rd.calls it.position it.finished

/-- The cursor has been called as often as the reading. -/
structure MemoCursor.At (w : Shelf α) (c : MemoCursor) (rd : Reading) : Prop where
  memo : c.memo = rd.memo
  place : ∃ r, rd.Of w r ∧ r.source.Place rd.calls c.position c.atEnd
  started : c.started = (decide (0 < c.position) || c.atEnd)

/-- Related traversals over a store that follows the shelf, which has grown out of `w₀`. -/
def Traverses {τ : Type} (at' : Shelf α → τ → Reading → Prop) (w₀ : Shelf α)
    (p : τ × MemoStore α) (q : Reading × Shelf α) : Prop :=
  p.2.Kept q.2 ∧ Shelf.Grows w₀ q.2 ∧ at' q.2 p.1 q.1

/-- The store follows the shelf, which has grown out of `w₀`. -/
def MemoStore.KeptSince (w₀ : Shelf α) (s : MemoStore α) (w : Shelf α) : Prop :=
  s.Kept w ∧ Shelf.Grows w₀ w

/-! ## One call -/

namespace Source.Place

variable {s : Source α} {calls position : Nat} {finished : Bool}

theorem start (s : Source α) : s.Place 0 0 false := ⟨rfl, rfl⟩

theorem not_ended (h : s.Place calls position false) : s.statusWithin calls ≠ .ended := by
  intro hended
  have hfinished := h.finished
  rw [hended] at hfinished
  cases hfinished

theorem ended (h : s.Place calls position true) : s.statusWithin calls = .ended :=
  beq_iff_eq.1 h.finished.symm

theorem of_item (h : s.Place calls position finished) {a : α}
    (ha : s.replay calls = .ok (some a)) : s.Place (calls + 1) (position + 1) false := by
  obtain ⟨hitems, hstatus⟩ := s.within_succ_of_item ha
  exact ⟨by rw [hitems, h.position], by rw [hstatus]; rfl⟩

theorem of_end (h : s.Place calls position finished) (hend : s.replay calls = .ok none) :
    s.Place (calls + 1) position true := by
  obtain ⟨hitems, hstatus⟩ := s.within_succ_of_end hend
  exact ⟨by rw [hitems, h.position], by rw [hstatus]; rfl⟩

theorem of_fault (h : s.Place calls position finished) {e : Fault}
    (he : s.replay calls = .error e) : s.Place (calls + 1) position false := by
  obtain ⟨hitems, hstatus⟩ := s.within_succ_of_fault he
  exact ⟨by rw [hitems, h.position], by rw [hstatus]; rfl⟩

theorem replay_of_finished (h : s.Place calls position true) : s.replay calls = .ok none :=
  (s.replay_of_ended h.ended (s.itemsWithin_le calls)).2

end Source.Place

namespace Reading

variable {rd : Reading} {w : Shelf α} {r : Replayed α}

/-- The reading after one more call. -/
def called (rd : Reading) : Reading := { rd with calls := rd.calls + 1 }

theorem next_eq (hr : rd.Of w r) :
    Reading.next (rd, w) = Act.ofExcept (r.source.replay rd.calls)
      (rd.called, w.raise rd.memo (rd.calls + 1)) := by
  simp only [Reading.next, Shelf.read, hr.1]
  cases r.source.replay rd.calls <;> rfl

theorem Of.called (hr : rd.Of w r) :
    rd.called.Of (w.raise rd.memo (rd.calls + 1)) (r.raise (rd.calls + 1)) :=
  ⟨by rw [Reading.called, Shelf.getElem?_raise_self, hr.1]; rfl, Nat.le_max_right _ _⟩

/-- Unless the end was seen before, forcing the position of a traversal gives what its call
gives. -/
theorem Of.agree_force (hr : rd.Of w r) {s : MemoStore α} (h : s.Kept w) {position : Nat}
    (hp : r.source.Place rd.calls position false) :
    Act.Agree Fault.Worded MemoStore.Kept (s.force rd.memo position)
      (Act.ofExcept (r.source.replay rd.calls) (w.raise rd.memo (rd.calls + 1))) := by
  obtain rfl := hp.position
  have hforce := h.agree_force hr.1 (r.source.itemsWithin_mono hr.2)
  rcases r.source.statusWithin_cases rd.calls with ⟨-, hn⟩ | ⟨hended, -⟩ | ⟨-, hlt, -⟩
  · rwa [hn] at hforce ⊢
  · exact absurd hended hp.not_ended
  -- the source gave up at an earlier call, at a position that the traversal has not left
  · have hcalls := hr.2
    have hitems := r.source.itemsWithin_of_stopped hlt hcalls
    have hraise : w.raise rd.memo (r.source.itemsWithin rd.calls + 1) = w :=
      Shelf.raise_of_le h.sound hr.1 (by omega)
    rw [hraise, ← r.source.replay_of_stopped hlt (Nat.le_of_lt hlt)] at hforce
    exact hforce.mono_ofExcept fun s' hs' => hs'.raise_of_stopped hr.1 (by omega) _

/-- What a traversal that has not seen the end finds at its position, and where that leads it. -/
theorem Of.force_cases (hr : rd.Of w r) {s : MemoStore α} (h : s.Kept w) {position : Nat}
    (hp : r.source.Place rd.calls position false) :
    (∃ e f s', s.force rd.memo position = .error e s' ∧ r.source.replay rd.calls = .error f ∧
      Fault.Worded e f ∧ s'.Kept (w.raise rd.memo (rd.calls + 1)) ∧
      r.source.Place (rd.calls + 1) position false) ∨
    (∃ s', s.force rd.memo position = .ok none s' ∧ r.source.replay rd.calls = .ok none ∧
      s'.Kept (w.raise rd.memo (rd.calls + 1)) ∧ r.source.Place (rd.calls + 1) position true) ∨
    ∃ a s', s.force rd.memo position = .ok (some a) s' ∧
      r.source.replay rd.calls = .ok (some a) ∧ s'.Kept (w.raise rd.memo (rd.calls + 1)) ∧
      r.source.Place (rd.calls + 1) (position + 1) false := by
  have hforce := hr.agree_force h hp
  revert hforce
  cases hreplay : r.source.replay rd.calls with
  | error f =>
    intro hforce
    obtain ⟨e, s', hrun, he, hkept⟩ := hforce.exists_error
    exact .inl ⟨e, f, s', hrun, rfl, he, hkept, hp.of_fault hreplay⟩
  | ok x =>
    intro hforce
    obtain ⟨s', hrun, hkept⟩ := hforce.exists_ok
    cases x with
    | none => exact .inr (.inl ⟨s', hrun, rfl, hkept, hp.of_end hreplay⟩)
    | some a => exact .inr (.inr ⟨a, s', hrun, rfl, hkept, hp.of_item hreplay⟩)

/-- Once the end was seen, further calls make nothing known. -/
theorem Of.kept_of_finished (hr : rd.Of w r) {s : MemoStore α} (h : s.Kept w) {position : Nat}
    (hp : r.source.Place rd.calls position true) (d : Nat) : s.Kept (w.raise rd.memo d) := by
  have hcalls := hr.2
  have hlt := (r.source.replay_of_ended hp.ended (Nat.le_refl _)).1
  have hitems := r.source.itemsWithin_of_stopped hlt hcalls
  exact h.raise_of_stopped hr.1 (by omega) d

/-- After a call that gave no item, larger demands make nothing known. -/
theorem Of.kept_of_stop (hr : rd.Of w r) (hw : w.Sound)
    (hstop : ∀ a, r.source.replay rd.calls ≠ .ok (some a))
    {s : MemoStore α} (h : s.Kept (w.raise rd.memo (rd.calls + 1))) {d : Nat}
    (hd : rd.calls + 1 ≤ d) : s.Kept (w.raise rd.memo d) := by
  have hitems := r.source.itemsWithin_succ_of_stop hstop
  have hle := r.source.itemsWithin_le rd.calls
  have hcalls : rd.calls + 1 ≤ (r.raise (rd.calls + 1)).demand := hr.called.2
  have hsame := r.source.itemsWithin_of_stopped (d := rd.calls + 1) (by omega) hcalls
  have hlt : r.source.itemsWithin (r.raise (rd.calls + 1)).demand <
      (r.raise (rd.calls + 1)).demand := by omega
  have hraise := h.raise_of_stopped hr.called.1 hlt d
  rwa [Reading.called, Shelf.raise_raise hw hd] at hraise

end Reading

/-! ## Iterators and cursors -/

theorem MemoIter.refines_next (w₀ : Shelf α) :
    Act.Refines Fault.Worded (Traverses MemoIter.At w₀) MemoIter.next Reading.next := by
  rintro ⟨⟨memo, position, finished⟩, s⟩ ⟨rd, w⟩ ⟨hkept, hgrows, rfl, r, hr, hp⟩
  dsimp only at hkept hgrows hr hp
  have hgrows' := hgrows.trans (Shelf.grows_raise w rd.memo (rd.calls + 1))
  rw [Reading.next_eq hr]
  simp only [MemoIter.next]
  cases finished with
  | true =>
    have hreplay := hp.replay_of_finished
    rw [hreplay]
    exact ⟨rfl, hr.kept_of_finished hkept hp _, hgrows', rfl, _, hr.called, hp.of_end hreplay⟩
  | false =>
    rw [if_neg Bool.false_ne_true]
    rcases hr.force_cases hkept hp with ⟨e, f, s', hrun, hreplay, he, hkept', hp'⟩ |
      ⟨s', hrun, hreplay, hkept', hp'⟩ | ⟨a, s', hrun, hreplay, hkept', hp'⟩
    · rw [hrun, hreplay]
      exact ⟨he, hkept', hgrows', rfl, _, hr.called, hp'⟩
    · rw [hrun, hreplay]
      exact ⟨rfl, hkept', hgrows', rfl, _, hr.called, hp'⟩
    · rw [hrun, hreplay]
      exact ⟨rfl, hkept', hgrows', rfl, _, hr.called, hp'⟩

theorem MemoCursor.refines_next (w₀ : Shelf α) :
    Act.Refines Fault.Worded (Traverses MemoCursor.At w₀) MemoCursor.next Reading.next := by
  rintro ⟨⟨memo, position, started, atEnd⟩, s⟩ ⟨rd, w⟩ ⟨hkept, hgrows, rfl, ⟨r, hr, hp⟩, hstarted⟩
  dsimp only at hkept hgrows hr hp hstarted
  have hgrows' := hgrows.trans (Shelf.grows_raise w rd.memo (rd.calls + 1))
  rw [Reading.next_eq hr]
  simp only [MemoCursor.next]
  cases atEnd with
  | true =>
    have hreplay := hp.replay_of_finished
    rw [hreplay]
    exact ⟨rfl, hr.kept_of_finished hkept hp _, hgrows', rfl,
      ⟨_, hr.called, hp.of_end hreplay⟩, hstarted⟩
  | false =>
    rw [if_neg Bool.false_ne_true]
    rcases hr.force_cases hkept hp with ⟨e, f, s', hrun, hreplay, he, hkept', hp'⟩ |
      ⟨s', hrun, hreplay, hkept', hp'⟩ | ⟨a, s', hrun, hreplay, hkept', hp'⟩
    · rw [hrun, hreplay]
      exact ⟨he, hkept', hgrows', rfl, ⟨_, hr.called, hp'⟩, hstarted⟩
    · rw [hrun, hreplay]
      exact ⟨rfl, hkept', hgrows', rfl, ⟨_, hr.called, hp'⟩, (Bool.or_true _).symm⟩
    · rw [hrun, hreplay]
      refine ⟨rfl, hkept', hgrows', rfl, ⟨_, hr.called, hp'⟩, ?_⟩
      simp

/-! ## Growing shelves -/

theorem Reading.Of.grows {w w' : Shelf α} {rd : Reading} {r : Replayed α} (hr : rd.Of w r)
    (hw : Shelf.Grows w w') : ∃ d, rd.Of w' { r with demand := d } := by
  obtain ⟨d, hd, hr'⟩ := hw rd.memo r hr.1
  exact ⟨d, hr', hr.2.trans hd⟩

theorem MemoIter.At.grows {w w' : Shelf α} {it : MemoIter} {rd : Reading} (h : it.At w rd)
    (hw : Shelf.Grows w w') : it.At w' rd := by
  obtain ⟨r, hr, hp⟩ := h.place
  obtain ⟨d, hr'⟩ := hr.grows hw
  exact ⟨h.memo, _, hr', hp⟩

theorem MemoCursor.At.grows {w w' : Shelf α} {c : MemoCursor} {rd : Reading} (h : c.At w rd)
    (hw : Shelf.Grows w w') : c.At w' rd := by
  obtain ⟨r, hr, hp⟩ := h.place
  obtain ⟨d, hr'⟩ := hr.grows hw
  exact ⟨h.memo, ⟨_, hr', hp⟩, h.started⟩

theorem MemoIter.at_start {w : Shelf α} {i : Nat} {r : Replayed α} (hr : w[i]? = some r) :
    (MemoIter.start i).At w (.start i) :=
  ⟨rfl, r, ⟨hr, Nat.zero_le _⟩, .start r.source⟩

theorem MemoCursor.at_start {w : Shelf α} {i : Nat} {r : Replayed α} (hr : w[i]? = some r) :
    (MemoCursor.start i).At w (.start i) :=
  ⟨rfl, ⟨r, ⟨hr, Nat.zero_le _⟩, .start r.source⟩, rfl⟩

/-! ## Traversals for one request -/

namespace MemoStore

theorem KeptSince.exists_replayed {w₀ w : Shelf α} {s : MemoStore α} (h : s.KeptSince w₀ w)
    {i : Nat} (hi : i < w₀.size) : ∃ r, w[i]? = some r := by
  obtain ⟨d, -, hr⟩ := h.2 i w₀[i] (Array.getElem?_eq_getElem hi)
  exact ⟨_, hr⟩

theorem refines_traverse {β : Type} {w₀ : Shelf α} {i : Nat} (hi : i < w₀.size)
    {act : Act (MemoIter × MemoStore α) β} {act' : Act (Reading × Shelf α) β}
    (hact : Act.Refines Fault.Worded (Traverses MemoIter.At w₀) act act') :
    Act.Refines Fault.Worded (KeptSince w₀) (traverse i act) (Shelf.traverse i act') := by
  intro s w h
  obtain ⟨r, hr⟩ := h.exists_replayed hi
  simp only [traverse, Shelf.traverse]
  refine (hact (.start i, s) (.start i, w) ⟨h.1, h.2, MemoIter.at_start hr⟩).elim ?_ ?_
  · rintro b ⟨it, s⟩ ⟨rd, w⟩ ⟨hkept, hgrows, -⟩
    exact ⟨rfl, hkept, hgrows⟩
  · rintro e f ⟨it, s⟩ ⟨rd, w⟩ he ⟨hkept, hgrows, -⟩
    exact ⟨he, hkept, hgrows⟩

/-- Skipping to a position reads it. -/
theorem agree_nth {w₀ : Shelf α} (n : Nat) :
    ∀ (it : MemoIter) (s : MemoStore α) (rd : Reading) (w : Shelf α),
      Traverses MemoIter.At w₀ (it, s) (rd, w) →
      Act.Agree Fault.Worded (fun p w' => KeptSince w₀ p.2 w') (nth MemoIter.next n (it, s))
        (Shelf.read rd.memo (rd.calls + n) w) := by
  induction n with
  | zero =>
    intro it s rd w h
    have hstep := MemoIter.refines_next w₀ _ _ h
    obtain ⟨-, -, -, r, hr, -⟩ := h
    rw [Reading.next_eq hr] at hstep
    rw [Shelf.read_eq hr.1]
    exact hstep.mono_ofExcept fun p hp => ⟨hp.1, hp.2.1⟩
  | succ n ih =>
    intro it s rd w h
    have hstep := MemoIter.refines_next w₀ _ _ h
    obtain ⟨hkept, hgrows, -, r, hr, -⟩ := h
    dsimp only at hkept hgrows hr
    have hgrows' := hgrows.trans (Shelf.grows_raise w rd.memo (rd.calls + (n + 1) + 1))
    have hle : rd.calls + 1 ≤ rd.calls + (n + 1) + 1 := by omega
    rw [Reading.next_eq hr] at hstep
    rw [Shelf.read_eq hr.1]
    by_cases hstop : ∀ a, r.source.replay rd.calls ≠ .ok (some a)
    · have hlast : ∀ a p, MemoIter.next (it, s) ≠ .ok (some a) p := by
        intro a p hrun
        rw [hrun] at hstep
        exact hstop a hstep.eq_ok
      rw [Act.nth_succ_of_last hlast, r.source.replay_eq_of_le hstop (Nat.le_add_right _ _)]
      exact hstep.mono_ofExcept fun p hp =>
        ⟨hr.kept_of_stop hkept.sound hstop hp.1 hle, hgrows'⟩
    · obtain ⟨a, ha⟩ : ∃ a, r.source.replay rd.calls = .ok (some a) := by
        simpa only [ne_eq, not_forall, not_not] using hstop
      rw [ha] at hstep
      obtain ⟨⟨it', s'⟩, hrun, hstep'⟩ := hstep.exists_ok
      have hrest := ih it' s' _ _ hstep'
      have hcalls : rd.called.calls + n = rd.calls + (n + 1) := Nat.add_right_comm _ _ _
      rw [Shelf.read_eq hr.called.1, hcalls, Reading.called, Shelf.raise_raise hkept.sound hle]
        at hrest
      simp only [nth, hrun]
      exact hrest

theorem refines_read {w₀ : Shelf α} {i : Nat} (hi : i < w₀.size) (k : Nat) :
    Act.Refines Fault.Worded (KeptSince w₀) (traverse i (nth MemoIter.next k))
      (Shelf.read i k) := by
  intro s w h
  obtain ⟨r, hr⟩ := h.exists_replayed hi
  have hnth := agree_nth k (.start i) s (.start i) w ⟨h.1, h.2, MemoIter.at_start hr⟩
  simp only [traverse, Reading.start, Nat.zero_add] at hnth ⊢
  refine hnth.elim (fun x p w' hp => ⟨rfl, hp⟩) (fun e f p w' he hp => ⟨he, hp⟩)

end MemoStore

end Streamkit
