import Streamkit.Proofs.Memo.Demand
import Streamkit.Proofs.Window.Polls

/-!
# Windows on memos

A window on a memo reads as far as its last item and no further: `Window.reach`. The items are those
of the sequence between the skip and there, and the memo is left as by one demand for as far as the
window reaches (`Shelf.window`), although the traversal that does it calls the memo once for each
position, and stops at the end of the sequence: `MemoStore.refines_window`. So windows share what
was read once with all other operations: `MemoSession.windows_share_reading`.
-/

namespace Streamkit

variable {α : Type}

/-- The items from position `k` on, `n` at most, or the fault that comes among them. -/
def Source.cut (s : Source α) (k : Nat) : (n : Nat) → Except Fault (List α)
  | 0 => .ok []
  | n + 1 =>
    match s.replay k with
    | .ok (some a) => (a :: ·) <$> s.cut (k + 1) n
    | .ok none => .ok []
    | .error e => .error e

/-- The items, when `n` were asked for. -/
def Pulled.ofItems (n : Nat) (items : List α) : Pulled α :=
  ⟨items.toArray, decide (items.length < n)⟩

/-- Pulls up to `n` items through a window on sequence `i`, which is one demand. -/
def Shelf.window (i : Nat) (w : Window) (n : Nat) : Act (Shelf α) (Pulled α) := fun shelf =>
  match shelf[i]? with
  | none => .ok (.ofItems n []) shelf
  | some r => Act.ofExcept (.ofItems n <$> r.source.cut w.skip (min n w.limit))
      (shelf.raise i (w.reach n))

/-- Performs an operation, with the demand of a window made at once. -/
def ReplaySession.performAtOnce : MemoOp α → Act (ReplaySession α) (MemoReply α)
  | .window m w n => withMemo m fun i => onShelf (.windowed w <$> Shelf.window i w n)
  | op => perform op

/-! ## Items of a window -/

namespace Source

variable {s : Source α}

theorem cut_of_stopped {k : Nat} (hk : s.replay k = .ok none) (n : Nat) : s.cut k n = .ok [] := by
  cases n with
  | zero => rfl
  | succ n => rw [cut, hk]

variable (hs : ∀ k e, s.answer k ≠ .error e)

include hs in
theorem cut_eq_itemsFrom (n : Nat) : ∀ {k : Nat}, s.replay k = s.answer k →
    s.cut k n = .ok (s.itemsFrom k n) := by
  induction n with
  | zero => exact fun _ => rfl
  | succ n ih =>
    intro k hk
    rw [cut, itemsFrom, hk]
    cases hanswer : s.answer k with
    | error e => exact absurd hanswer (hs k e)
    | ok x =>
      cases x with
      | none => rfl
      | some a =>
        have hnext := s.replay_succ_of_item (hk.trans hanswer)
        rw [ih hnext]
        rfl

include hs in
/-- The items after the first ones are what remains of the items to begin with. -/
theorem cut_eq_drop (skip n : Nat) : ∀ {k : Nat}, s.replay k = s.answer k →
    s.cut (k + skip) n = .ok ((s.itemsFrom k (skip + n)).drop skip) := by
  induction skip with
  | zero =>
    intro k hk
    rw [Nat.zero_add, Nat.add_zero, List.drop_zero]
    exact cut_eq_itemsFrom hs n hk
  | succ skip ih =>
    intro k hk
    rw [Nat.add_right_comm skip, itemsFrom]
    cases hanswer : s.answer k with
    | error e => exact absurd hanswer (hs k e)
    | ok x =>
      cases x with
      | none =>
        have hstop : ∀ a, s.replay k ≠ .ok (some a) := fun a h => by
          rw [hk, hanswer] at h
          cases h
        have hlater := s.replay_eq_of_le hstop (Nat.le_add_right k (skip + 1))
        rw [cut_of_stopped (hlater.trans (hk.trans hanswer)), List.drop_nil]
      | some a =>
        have hnext := s.replay_succ_of_item (hk.trans hanswer)
        rw [← Nat.add_assoc, Nat.add_right_comm, List.drop_succ_cons]
        exact ih hnext

end Source

/-! ## Reading through a window -/

/-- So many calls were made, up to `target` or until one of them was not answered with an item. -/
def Source.Reached (s : Source α) (target calls : Nat) : Prop :=
  calls = target ∨ calls ≤ target ∧ s.itemsWithin calls < calls

namespace Source

variable {s : Source α} {k calls : Nat}

theorem Reached.of_item (h : s.Reached (k + 1) calls) {a : α} (ha : s.replay k = .ok (some a)) :
    calls = k + 1 := by
  refine h.resolve_right fun ⟨hle, hstopped⟩ => ?_
  have hitems := s.itemsWithin_of_stopped hstopped hle
  have hk := (s.within_succ_of_item ha).1
  have hall := s.itemsWithin_of_item ha
  omega

theorem Reached.of_stop (h : s.Reached (k + 1) calls) (hstop : ∀ a, s.replay k ≠ .ok (some a))
    {target : Nat} (ht : k + 1 ≤ target) : s.Reached target calls := by
  rcases h with rfl | ⟨hle, hstopped⟩
  · have hitems := s.itemsWithin_succ_of_stop hstop
    have hk := s.itemsWithin_le k
    exact .inr ⟨ht, by omega⟩
  · exact .inr ⟨hle.trans ht, hstopped⟩

end Source

namespace Reading

variable {rd : Reading} {w : Shelf α} {r : Replayed α}

theorem raise_of_called (hw : w.Sound) (hr : rd.Of w r) : w.raise rd.memo rd.calls = w :=
  Shelf.raise_of_le hw hr.1 hr.2

/-- Skipping reads on to a position, or until there are no more items. -/
theorem nth_eq (n : Nat) : ∀ {rd : Reading} {w : Shelf α} {r : Replayed α}, w.Sound → rd.Of w r →
    ∃ calls, rd.calls < calls ∧ r.source.Reached (rd.calls + n + 1) calls ∧
      nth Reading.next n (rd, w) = Act.ofExcept (r.source.replay (rd.calls + n))
        (⟨rd.memo, calls⟩, w.raise rd.memo calls) := by
  induction n with
  | zero =>
    intro rd w r _ hr
    exact ⟨rd.calls + 1, Nat.lt_succ_self _, .inl rfl, next_eq hr⟩
  | succ n ih =>
    intro rd w r hw hr
    have hnext := next_eq hr
    by_cases hstop : ∀ a, r.source.replay rd.calls ≠ .ok (some a)
    · have hlast : ∀ a p, Reading.next (rd, w) ≠ .ok (some a) p := by
        intro a p hrun
        rw [hnext] at hrun
        exact hstop a (Act.ofExcept_eq_ok hrun).1
      have hitems := r.source.itemsWithin_succ_of_stop hstop
      have hle := r.source.itemsWithin_le rd.calls
      refine ⟨rd.calls + 1, Nat.lt_succ_self _, .inr ⟨by omega, by omega⟩, ?_⟩
      rw [Act.nth_succ_of_last hlast, hnext,
        r.source.replay_eq_of_le hstop (Nat.le_add_right rd.calls (n + 1))]
      rfl
    · obtain ⟨a, ha⟩ : ∃ a, r.source.replay rd.calls = .ok (some a) := by
        simpa only [ne_eq, not_forall, not_not] using hstop
      obtain ⟨calls, hlt, hreached, hrun⟩ := ih (hw.raise _ _) hr.called
      have hcalls : rd.called.calls + n = rd.calls + (n + 1) := Nat.add_right_comm _ _ _
      have hlt' : rd.calls + 1 < calls := hlt
      have hfirst : Reading.next (rd, w) =
          .ok (some a) (rd.called, w.raise rd.memo (rd.calls + 1)) := by
        rw [hnext, ha]
        rfl
      refine ⟨calls, by omega, hcalls ▸ hreached, ?_⟩
      rw [hcalls, called, Shelf.raise_raise hw (Nat.le_of_lt hlt')] at hrun
      simp only [nth, hfirst]
      exact hrun

/-- The items that a passage lets pass are those of the sequence after the skip, and no more calls
are made than for the last of them. -/
theorem walk_passage_eq (n : Nat) : ∀ (skip left : Nat) (seen : Array α) {rd : Reading}
    {w : Shelf α} {r : Replayed α}, w.Sound → rd.Of w r →
    ∃ p calls, rd.calls ≤ calls ∧
      r.source.Reached (rd.calls + Window.reach ⟨skip, left⟩ n) calls ∧
      walk (Passage.next Reading.next) (fun items a => pure (.continue (items.push a))) n seen
          (⟨skip, left⟩, (rd, w)) =
        Act.ofExcept
          ((fun items => (seen ++ items.toArray,
            if items.length < n then WalkEnd.finished else WalkEnd.limit)) <$>
              r.source.cut (rd.calls + skip) (min n left))
          (p, (⟨rd.memo, calls⟩, w.raise rd.memo calls)) := by
  induction n with
  | zero =>
    intro skip left seen rd w r hw hr
    refine ⟨⟨skip, left⟩, rd.calls, Nat.le_refl _, .inl ?_, ?_⟩
    · simp [Window.reach]
    · rw [raise_of_called hw hr, Nat.zero_min]
      simp [walk, Source.cut]
      rfl
  | succ n ih =>
    intro skip left seen rd w r hw hr
    cases left with
    | zero =>
      refine ⟨⟨skip, 0⟩, rd.calls, Nat.le_refl _, .inl ?_, ?_⟩
      · simp [Window.reach]
      · rw [raise_of_called hw hr, Nat.min_zero]
        simp [walk, Passage.next, Source.cut]
        rfl
    | succ left =>
      obtain ⟨calls, hlt, hreached, hrun⟩ := nth_eq skip hw hr
      have hmin : min (n + 1) (left + 1) = min n left + 1 := Nat.succ_min_succ n left
      have hreach : Window.reach ⟨skip, left + 1⟩ (n + 1) = skip + (min n left + 1) := by
        rw [Window.reach, hmin, if_neg (Nat.succ_ne_zero _)]
      rw [hreach, hmin, Source.cut]
      cases hreplay : r.source.replay (rd.calls + skip) with
      | error e =>
        have hstop : ∀ a, r.source.replay (rd.calls + skip) ≠ .ok (some a) :=
          fun a h => by cases hreplay.symm.trans h
        refine ⟨⟨0, left⟩, calls, Nat.le_of_lt hlt, hreached.of_stop hstop (by omega), ?_⟩
        simp only [walk, Passage.next, hrun, hreplay]
        rfl
      | ok x =>
        cases x with
        | none =>
          have hstop : ∀ a, r.source.replay (rd.calls + skip) ≠ .ok (some a) :=
            fun a h => by cases hreplay.symm.trans h
          refine ⟨⟨0, left⟩, calls, Nat.le_of_lt hlt, hreached.of_stop hstop (by omega), ?_⟩
          simp only [walk, Passage.next, hrun, hreplay]
          simp
          rfl
        | some a =>
          obtain rfl := hreached.of_item hreplay
          have hr' : Of (w.raise rd.memo (rd.calls + skip + 1)) ⟨rd.memo, rd.calls + skip + 1⟩
              (r.raise (rd.calls + skip + 1)) :=
            ⟨by rw [Shelf.getElem?_raise_self, hr.1]; rfl, Nat.le_max_right _ _⟩
          obtain ⟨p, calls, hle, hreached', hrest⟩ := ih 0 left (seen.push a) (hw.raise _ _) hr'
          have htarget : rd.calls + skip + 1 + Window.reach ⟨0, left⟩ n =
              rd.calls + (skip + (min n left + 1)) := by
            by_cases hm : min n left = 0 <;> simp [Window.reach, hm] <;> omega
          have hle' : rd.calls + skip + 1 ≤ calls := hle
          refine ⟨p, calls, by omega, htarget ▸ hreached', ?_⟩
          simp only [walk, Passage.next, hrun, hreplay]
          rw [Shelf.raise_raise hw hle', Nat.add_zero] at hrest
          refine hrest.trans (congrArg (fun x => Act.ofExcept x _) ?_)
          show _ <$> r.source.cut (rd.calls + skip + 1) (min n left) = _
          cases r.source.cut (rd.calls + skip + 1) (min n left) with
          | error e => rfl
          | ok items => simp [Functor.map, Except.map]

theorem pull_passage_eq (hw : w.Sound) (hr : rd.Of w r) (window : Window) (n : Nat) :
    ∃ p calls, r.source.Reached (rd.calls + window.reach n) calls ∧
      pull (Passage.next Reading.next) n (Passage.ofWindow window, (rd, w)) =
        Act.ofExcept (.ofItems n <$> r.source.cut (rd.calls + window.skip) (min n window.limit))
          (p, (⟨rd.memo, calls⟩, w.raise rd.memo calls)) := by
  obtain ⟨p, calls, -, hreached, hwalk⟩ :=
    walk_passage_eq n window.skip window.limit #[] hw hr
  refine ⟨p, calls, hreached, ?_⟩
  simp only [pull, Bind.bind, EStateM.bind, Passage.ofWindow, hwalk]
  cases r.source.cut (rd.calls + window.skip) (min n window.limit) with
  | error e => rfl
  | ok items =>
    by_cases hlt : items.length < n <;> simp [Functor.map, Except.map, Pulled.ofItems, hlt] <;> rfl

end Reading

namespace Shelf

variable {w : Shelf α} {i : Nat} {r : Replayed α}

/-- A traversal through a window gives its items, and reads on until it has them all or the sequence
has stopped. -/
theorem traverse_window (hw : w.Sound) (hr : w[i]? = some r) (window : Window) (n : Nat) :
    ∃ calls, r.source.Reached (window.reach n) calls ∧
      traverse i (Nest.pull Reading.next [window] n) w =
        Act.ofExcept (.ofItems n <$> r.source.cut window.skip (min n window.limit))
          (w.raise i calls) := by
  have hstart : (Reading.start i).Of w r := ⟨hr, Nat.zero_le _⟩
  obtain ⟨p, calls, hreached, hpull⟩ := Reading.pull_passage_eq hw hstart window n
  simp only [Reading.start, Nat.zero_add] at hreached hpull
  refine ⟨calls, hreached, ?_⟩
  have hnest : pull (Nest.next Reading.next [window]) n (Nest.start (Reading.start i, w) [window]) =
      _ := hpull
  simp only [traverse, Nest.pull, hnest]
  cases r.source.cut window.skip (min n window.limit) <;> rfl

end Shelf

namespace MemoStore

variable {w₀ w : Shelf α} {s : MemoStore α} {i : Nat} {r : Replayed α}

/-- Calls up to the last item that is wanted make known what a demand for all of them does. -/
theorem Kept.raise_of_reached (hw : w.Sound) (hr : w[i]? = some r) {target calls : Nat}
    (hreached : r.source.Reached target calls) (h : s.Kept (w.raise i calls)) :
    s.Kept (w.raise i target) := by
  rcases hreached with rfl | ⟨hle, hstopped⟩
  · exact h
  · have hr' : (w.raise i calls)[i]? = some (r.raise calls) := by
      rw [Shelf.getElem?_raise_self, hr]
      rfl
    have hcalls : calls ≤ (r.raise calls).demand := Nat.le_max_right _ _
    have hitems := r.source.itemsWithin_of_stopped hstopped hcalls
    have hlt : (r.raise calls).source.itemsWithin (r.raise calls).demand <
        (r.raise calls).demand := by
      show r.source.itemsWithin _ < _
      omega
    have hraise := h.raise_of_stopped hr' hlt target
    rwa [Shelf.raise_raise hw hle] at hraise

/-- A traversal through a window is one demand on the memo, for as far as the window reaches. -/
theorem refines_window (hi : i < w₀.size) (window : Window) (n : Nat) :
    Act.Refines Fault.Worded (KeptSince w₀) (traverse i (Nest.pull MemoIter.next [window] n))
      (Shelf.window i window n) := by
  intro s w h
  obtain ⟨r, hr⟩ := h.exists_replayed hi
  have hnest := refines_traverse hi
    (Act.refines_nestPull (MemoIter.refines_next w₀) [window] n) s w h
  obtain ⟨calls, hreached, hwindow⟩ := Shelf.traverse_window h.1.sound hr window n
  rw [hwindow] at hnest
  simp only [Shelf.window, hr]
  refine hnest.mono_ofExcept fun s' hs' => ⟨hs'.1.raise_of_reached h.1.sound hr hreached, ?_⟩
  exact h.2.trans (Shelf.grows_raise w i _)

/-- A window that lets nothing pass asks for nothing. -/
theorem traverse_window_of_closed (window : Window) {n : Nat} (h : min n window.limit = 0) :
    traverse i (Nest.pull MemoIter.next [window] n) s = .ok (.ofItems n []) s := by
  cases n with
  | zero => rfl
  | succ n =>
    have hlimit : window.limit = 0 := by omega
    simp only [traverse, Nest.pull, pull, Nest.start, Nest.next, Passage.ofWindow, Bind.bind,
      EStateM.bind, walk, Passage.next, hlimit]
    rfl

end MemoStore

/-! ## Sessions -/

namespace MemoSession

variable {w₀ : Shelf α} {s : MemoSession α} {r : ReplaySession α}

theorem refines_performAtOnce (w₀ : Shelf α) (op : MemoOp α) :
    Act.Refines Fault.Worded (Mirrors w₀) (perform op) (ReplaySession.performAtOnce op) := by
  cases op with
  | window m w n =>
    intro s r h
    refine agree_withMemo h m fun i hi => agree_onStore h (Act.Refines.map ?_ _)
    exact MemoStore.refines_window hi w n
  | _ => exact refines_perform w₀ _

theorem mirrors_atOnce (h : Mirrors w₀ s r) (ops : List (MemoOp α)) :
    Mirrors w₀ (Act.attemptAll (ops.map perform) s).2
      (Act.attemptAll (ops.map ReplaySession.performAtOnce) r).2 := by
  have hops : List.Forall₂ (Act.Refines Fault.Worded (Mirrors w₀)) (ops.map perform)
      (ops.map ReplaySession.performAtOnce) := by
    rw [List.forall₂_map_left_iff, List.forall₂_map_right_iff]
    exact List.forall₂_same.2 fun op _ => refines_performAtOnce w₀ op
  exact (Act.forall₂_attemptAll hops h).2

/-- The answer through a window, and what it makes known. -/
theorem Mirrors.attempt_window (h : Mirrors w₀ s r) {handle i : Nat}
    (hi : s.memo? handle = some i) {q : Replayed α} (hq : r.shelf[i]? = some q)
    (hsource : ∀ k e, q.source.answer k ≠ .error e) (w : Window) (n : Nat) :
    ((perform (.window handle w n)).attempt s).1 = .ok (.windowed w (.ofItems n
      ((q.source.itemsFrom 0 (w.skip + min n w.limit)).drop w.skip))) ∧
    Mirrors w₀ ((perform (.window handle w n)).attempt s).2
      { r with shelf := r.shelf.raise i (w.reach n) } := by
  have hcut := q.source.cut_eq_drop hsource w.skip (min n w.limit) (k := 0) rfl
  rw [Nat.zero_add] at hcut
  have hrun : ReplaySession.performAtOnce (.window handle w n) r =
      .ok (.windowed w (.ofItems n ((q.source.itemsFrom 0 (w.skip + min n w.limit)).drop w.skip)))
        { r with shelf := r.shelf.raise i (w.reach n) } := by
    rw [h.memo?_eq] at hi
    simp only [ReplaySession.performAtOnce, ReplaySession.withMemo, hi, ReplaySession.onShelf,
      Functor.map, EStateM.map, Shelf.window, hq, hcut]
    rfl
  have hagree := refines_performAtOnce w₀ (.window handle w n) s r h
  rw [hrun] at hagree
  obtain ⟨s', hs', hmirrors⟩ := hagree.exists_ok
  rw [Act.attempt, hs']
  exact ⟨rfl, hmirrors⟩

theorem attempt_window_of_closed {handle i : Nat} (hi : s.memo? handle = some i) {w : Window}
    {n : Nat} (h : min n w.limit = 0) : ((perform (.window handle w n)).attempt s).2 = s := by
  simp only [Act.attempt, perform, withMemo_of_some hi, onStore, Functor.map, EStateM.map,
    MemoStore.traverse_window_of_closed w h]

theorem Counts.evaluated_le {s' : MemoSession α} {i d d' : Nat} {source : Source α}
    {m m' : Memo α} (h : s.Counts i m source d) (h' : s'.Counts i m' source (max d d')) :
    m'.evaluated ≤ max m.evaluated d' := by
  have hle : (m'.evaluated : ℕ∞) ≤ max (m.evaluated : ℕ∞) d' := by
    rw [h'.evaluated, h.evaluated, Monotone.map_max Nat.mono_cast, min_max_distrib_left]
    exact max_le_max_left _ (min_le_right _ _)
  rw [← Monotone.map_max Nat.mono_cast] at hle
  exact_mod_cast hle

/-- Windows on memos, in between any other operations, share what was read once: a source is polled
for the largest demand, where a window demands as far as it reaches. Over a source that does not
give up a window gives the items between its skip and there, at every repetition; it makes its
demand, unless it lets nothing pass, and nothing is read past it. -/
theorem windows_share_reading (sources : List (Source α)) (ops : List (MemoOp α)) :
    let s := (Act.attemptAll (ops.map perform) (start sources)).2
    let r := (Act.attemptAll (ops.map ReplaySession.performAtOnce) (ReplaySession.start sources)).2
    (∀ (i : Nat) (source : Source α), sources[i]? = some source →
      ∃ d, r.shelf[i]? = some ⟨.source source, source, d⟩) ∧
    (∀ (i : Nat) (q : Replayed α), r.shelf[i]? = some q →
      ∃ m, s.store.memos[i]? = some m ∧ s.Counts i m q.source q.demand) ∧
    ∀ (i : Nat) (q : Replayed α), r.shelf[i]? = some q →
      (∀ k e, q.source.answer k ≠ .error e) → ∀ (w : Window) (n : Nat),
      (∀ (more : List (MemoOp α)) (handle : Nat),
        let s' := (Act.attemptAll (more.map perform) s).2
        s'.memo? handle = some i →
        ((perform (.window handle w n)).attempt s').1 = .ok (.windowed w (.ofItems n
          ((q.source.itemsFrom 0 (w.skip + min n w.limit)).drop w.skip)))) ∧
      ∀ handle : Nat, s.memo? handle = some i →
        let s' := ((perform (.window handle w n)).attempt s).2
        (min n w.limit = 0 → s' = s) ∧
        ∃ m m', s.store.memos[i]? = some m ∧ s'.store.memos[i]? = some m' ∧
          s'.Counts i m' q.source (max q.demand (w.reach n)) ∧
          m'.evaluated ≤ max m.evaluated (w.skip + w.limit) := by
  intro s r
  have hmirrors : Mirrors _ s r := mirrors_atOnce (mirrors_start sources) ops
  have hsince : Mirrors r.shelf s r := { hmirrors with grown := .refl _ }
  refine ⟨fun i source hi => ?_, fun i q hq => hmirrors.counts hq,
    fun i q hq hsource w n => ⟨?_, ?_⟩⟩
  · have hstart : (ReplaySession.start sources).shelf[i]? = some ⟨.source source, source, 0⟩ := by
      simp [ReplaySession.start, hi]
    obtain ⟨d, -, hd⟩ := hmirrors.grown i _ hstart
    exact ⟨d, hd⟩
  · intro more handle s' hhandle
    have hmore := mirrors_atOnce hsince more
    obtain ⟨d, -, hq'⟩ := hmore.grown i q hq
    exact (hmore.attempt_window hhandle hq' hsource w n).1
  · intro handle hhandle s'
    have hafter := (hmirrors.attempt_window hhandle hq hsource w n).2
    have hq' : (r.shelf.raise i (w.reach n))[i]? = some (q.raise (w.reach n)) := by
      rw [Shelf.getElem?_raise_self, hq]
      rfl
    obtain ⟨m, hm, hcounts⟩ := hmirrors.counts hq
    obtain ⟨m', hm', hcounts'⟩ := hafter.counts hq'
    have hle : m'.evaluated ≤ max m.evaluated (w.reach n) := hcounts.evaluated_le hcounts'
    have hreach : w.reach n ≤ w.skip + w.limit := by
      unfold Window.reach
      split <;> omega
    exact ⟨attempt_window_of_closed hhandle, m, m', hm, hm', hcounts', by omega⟩

theorem windows_share_reading_of_naturals :
    let source : Source Nat := ⟨fun k => .ok (some k), fun _ => ⟨0, none⟩⟩
    let s := (Act.attemptAll ([.get 0 1].map perform) (start [source])).2
    (∀ k e, source.answer k ≠ .error e) ∧ s.memo? 0 = some 0 ∧
    ((perform (.window 0 ⟨2, 3⟩ 9)).attempt s).1 =
      .ok (.windowed ⟨2, 3⟩ ⟨#[2, 3, 4], true⟩) ∧
    ∃ m', ((perform (.window 0 ⟨2, 3⟩ 9)).attempt s).2.store.memos[0]? = some m' ∧
      m'.evaluated = 5 := by
  intro source s
  have hsource : ∀ k e, source.answer k ≠ .error e := nofun
  have hmemo : (ReplaySession.start [source]).memo? 0 = some 0 := by
    simp [ReplaySession.start, ReplaySession.memo?]
  have hrun : (Act.attemptAll ([.get 0 1].map ReplaySession.performAtOnce)
      (ReplaySession.start [source])).2 =
      { ReplaySession.start [source] with shelf := #[⟨.source source, source, 2⟩] } := by
    simp only [List.map_cons, List.map_nil, Act.attemptAll, Act.attempt,
      ReplaySession.performAtOnce, ReplaySession.perform, ReplaySession.withMemo, hmemo]
    show ReplaySession.mk (Shelf.raise 0 2 #[⟨.source source, source, 0⟩]) _ _ _ = _
    rw [Shelf.raise_source rfl rfl]
    rfl
  have hhandle : s.memo? 0 = some 0 := by
    rw [(mirrors_atOnce (mirrors_start [source]) [.get 0 1]).memo?_eq, hrun]
    exact hmemo
  obtain ⟨-, -, hwindow⟩ := windows_share_reading [source] [.get 0 1]
  obtain ⟨hreply, hafter⟩ := hwindow 0 _ (by rw [hrun]; rfl) hsource ⟨2, 3⟩ 9
  obtain ⟨-, m, m', -, hm', hcounts, -⟩ := hafter 0 hhandle
  refine ⟨hsource, hhandle, hreply [] 0 hhandle, m', hm', ?_⟩
  have hitems := hcounts.evaluated
  rw [← Source.coe_itemsWithin] at hitems
  exact Nat.cast_injective hitems

end MemoSession

end Streamkit
