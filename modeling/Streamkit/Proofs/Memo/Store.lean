import Streamkit.Proofs.Memo.Shelf
import Streamkit.Proofs.Refinement

/-!
# Stores that follow a shelf

The demands on a shelf determine what a store knows: each memo has read the items that were asked
for, at the cost of one poll each and at most one more, and has recorded its end once if it has seen
it (`MemoStore.Follows`). Forcing a position that is at most one past the items of a memo gives what
the sequence has there, and the store follows the demand: `MemoStore.agree_force`.
-/

namespace Streamkit

variable {α : Type}

/-- A fault is worded as on the shelf, or says that the source gave up earlier. -/
def Fault.Worded (e f : Fault) : Prop := e = f ∨ e = .memoFailed

theorem Fault.worded_self (e : Fault) : e.Worded e := .inl rfl

/-- The memo knows what a demand of `d` positions makes known. -/
structure Memo.Reads (s : Source α) (d : Nat) (m : Memo α) : Prop where
  item : ∀ k (h : k < m.items.size), s.replay k = .ok (some m.items[k])
  evaluated : m.items.size = s.itemsWithin d
  status : m.status = s.statusWithin d
  polls : m.polls = s.pollsWithin d

namespace Memo

variable {source : Source α} {n : Nat} {m : Memo α}

theorem reads_ofOrigin (origin : MemoOrigin α) (source : Source α) :
    (ofOrigin origin).Reads source 0 :=
  ⟨fun _ hk => absurd hk (Nat.not_lt_zero _), rfl, rfl, (Nat.zero_min _).symm⟩

theorem Reads.polls_succ (hm : m.Reads source n) (hn : source.itemsWithin n = n) :
    m.polls + 1 = source.pollsWithin (n + 1) := by
  rw [hm.polls, source.pollsWithin_of_reading hn, source.pollsWithin_succ_of_reading hn]

theorem Reads.push (hm : m.Reads source n) (hn : source.itemsWithin n = n) {a : α}
    (ha : source.replay n = .ok (some a)) :
    Reads source (n + 1) { m with items := m.items.push a, polls := m.polls + 1 } where
  item k hk := by
    have hsize : m.items.size = n := hm.evaluated.trans hn
    rcases Nat.lt_succ_iff_lt_or_eq.1 (Array.size_push a ▸ hk) with hk' | rfl
    · simp only [Array.getElem_push_lt hk']
      exact hm.item k hk'
    · simp only [Array.getElem_push_eq]
      rw [hsize, ha]
  evaluated := by
    rw [Source.itemsWithin, ha]
    exact (Array.size_push a).trans (congrArg (· + 1) (hm.evaluated.trans hn))
  status := by
    rw [Source.statusWithin, ha]
    exact hm.status.trans (source.statusWithin_eq_reading.2 hn)
  polls := hm.polls_succ hn

theorem Reads.stop (hm : m.Reads source n) (hn : source.itemsWithin n = n)
    (hstop : ∀ a, source.replay n ≠ .ok (some a)) {status : MemoStatus}
    (hstatus : status = source.statusWithin (n + 1)) :
    Reads source (n + 1) { m with status, polls := m.polls + 1 } where
  item := hm.item
  evaluated := hm.evaluated.trans (source.itemsWithin_succ_of_stop hstop).symm
  status := hstatus
  polls := hm.polls_succ hn

theorem Reads.of_stopped (hm : m.Reads source n) (hn : source.itemsWithin n < n) {n' : Nat}
    (h : n ≤ n') : m.Reads source n' where
  item := hm.item
  evaluated := hm.evaluated.trans (source.itemsWithin_of_stopped hn h).symm
  status := hm.status.trans (source.statusWithin_of_stopped hn h).symm
  polls := hm.polls.trans (source.pollsWithin_of_stopped hn h).symm

/-- A memo is determined by what it reads and how often it has polled. -/
theorem Reads.eq_of_polls {m' : Memo α} {n' : Nat} (hm : m.Reads source n)
    (hm' : m'.Reads source n') (ho : m.origin = m'.origin) (h : m.polls = m'.polls) : m = m' := by
  obtain ⟨hsize, hstatus⟩ :=
    source.within_of_pollsWithin ((hm.polls.symm.trans h).trans hm'.polls)
  have hitems : m.items = m'.items := by
    refine Array.ext ((hm.evaluated.trans hsize).trans hm'.evaluated.symm) fun k hk hk' => ?_
    have hreplay := (hm.item k hk).symm.trans (hm'.item k hk')
    exact Option.some.inj (Except.ok.inj hreplay)
  have hstatus : m.status = m'.status := (hm.status.trans hstatus).trans hm'.status.symm
  cases m
  cases m'
  simp only [mk.injEq]
  exact ⟨ho, hitems, hstatus, h⟩

end Memo

/-- The event is the end of memo `i`. -/
def MemoEvent.endOf (i : Nat) : MemoEvent α → Bool
  | .exhausted j => i == j
  | _ => false

namespace MemoStore

/-- The number of times that the end of memo `i` was recorded. -/
def endings (s : MemoStore α) (i : Nat) : Nat := s.trace.countP (MemoEvent.endOf i)

/-- Memo `i` knows what the demand on its sequence makes known, and its end is recorded if it has
seen it. -/
def Follows (s : MemoStore α) (w : Shelf α) (i : Nat) : Prop :=
  match s.memos[i]?, w[i]? with
  | some m, some r => m.origin = r.origin ∧ m.Reads r.source r.demand ∧
      s.endings i = if m.isExhausted then 1 else 0
  | none, none => s.endings i = 0
  | _, _ => False

/-- Nothing has happened to memo `i`. -/
structure SameAt (s s' : MemoStore α) (i : Nat) : Prop where
  memo : s'.memos[i]? = s.memos[i]?
  endings : s'.endings i = s.endings i

/-! ## Changing one memo -/

@[simp] theorem endings_adjust (s : MemoStore α) (i j : Nat) (f : Memo α → Memo α) :
    (s.adjust i f).endings j = s.endings j := rfl

@[simp] theorem memos_note (s : MemoStore α) (e : MemoEvent α) : (s.note e).memos = s.memos := rfl

theorem endings_note (s : MemoStore α) (e : MemoEvent α) (i : Nat) :
    (s.note e).endings i = s.endings i + if e.endOf i then 1 else 0 := by
  simp only [endings, note, Array.countP_push]

theorem getElem?_adjust (s : MemoStore α) (i j : Nat) (f : Memo α → Memo α) :
    (s.adjust i f).memos[j]? = if i = j then s.memos[j]?.map f else s.memos[j]? :=
  Array.getElem?_modify

theorem getElem?_add (s : MemoStore α) (origin : MemoOrigin α) (i : Nat) :
    (s.add origin).memos[i]? = if i = s.memos.size then some (.ofOrigin origin) else s.memos[i]? :=
  Array.getElem?_push

theorem SameAt.trans {s₁ s₂ s₃ : MemoStore α} {i : Nat} (h : SameAt s₁ s₂ i)
    (h' : SameAt s₂ s₃ i) : SameAt s₁ s₃ i :=
  ⟨h'.memo.trans h.memo, h'.endings.trans h.endings⟩

theorem sameAt_adjust (s : MemoStore α) {i j : Nat} (h : i ≠ j) (f : Memo α → Memo α) :
    SameAt s (s.adjust i f) j :=
  ⟨by rw [getElem?_adjust, if_neg h], rfl⟩

theorem sameAt_note (s : MemoStore α) {e : MemoEvent α} {j : Nat} (h : e.endOf j = false) :
    SameAt s (s.note e) j :=
  ⟨rfl, by rw [endings_note, h]; rfl⟩

theorem Follows.sameAt {s s' : MemoStore α} {w w' : Shelf α} {i : Nat} (h : Follows s w i)
    (hs : SameAt s s' i) (hw : w'[i]? = w[i]?) : Follows s' w' i := by
  simp only [Follows, hs.memo, hs.endings, hw]
  exact h

theorem Follows.exists_memo {s : MemoStore α} {w : Shelf α} {i : Nat} (h : Follows s w i)
    {r : Replayed α} (hr : w[i]? = some r) :
    ∃ m, s.memos[i]? = some m ∧ m.origin = r.origin ∧ m.Reads r.source r.demand ∧
      s.endings i = if m.isExhausted then 1 else 0 := by
  unfold Follows at h
  rw [hr] at h
  cases hm : s.memos[i]? with
  | none =>
    rw [hm] at h
    exact False.elim h
  | some m =>
    rw [hm] at h
    exact ⟨m, rfl, h⟩

/-! ## Keeping the answer to a poll -/

/-- Memo `i`, which was `m`, knows what `n` positions make known, and nothing has happened to the
others. -/
structure Settled (i : Nat) (source : Source α) (n : Nat) (m : Memo α) (s s' : MemoStore α) :
    Prop where
  memo : ∃ m', s'.memos[i]? = some m' ∧ m'.origin = m.origin ∧ m'.Reads source n ∧
    s'.endings i = s.endings i + if m'.isExhausted then 1 else 0
  others : ∀ j, i ≠ j → SameAt s s' j

section Settle

variable {s : MemoStore α} {i n : Nat} {source : Source α} {m : Memo α}

theorem getElem?_adjust_polled (hs : s.memos[i]? = some { m with polls := m.polls + 1 })
    (f : Memo α → Memo α) :
    (s.adjust i f).memos[i]? = some (f { m with polls := m.polls + 1 }) := by
  rw [getElem?_adjust, if_pos rfl, hs]
  rfl

/-- A poll that answers what is at the frontier settles it. -/
theorem agree_settle {ρ : Type} (hm : m.Reads source n) (hn : source.itemsWithin n = n)
    (hs : s.memos[i]? = some { m with polls := m.polls + 1 }) {x : Except Fault (Option α)}
    (hx : Act.SameReply Fault.Worded x (source.replay n)) (r : ρ) :
    Act.Agree Fault.Worded (fun s' r' => r' = r ∧ Settled i source (n + 1) m s s')
      (settle i (answer s x)) (Act.ofExcept (source.replay n) r) := by
  have hreading : m.isExhausted = false := by
    rw [Memo.isExhausted, hm.status, source.statusWithin_eq_reading.2 hn]
    rfl
  revert hx
  cases hr : source.replay n with
  | error f =>
    have hstop : ∀ a, source.replay n ≠ .ok (some a) := fun a h => by rw [hr] at h; cases h
    have hstatus : MemoStatus.failed = source.statusWithin (n + 1) := by
      rw [Source.statusWithin, hr]
    cases x with
    | ok x => exact False.elim
    | error e =>
      intro hx
      have hmemo := getElem?_adjust_polled hs fun m => { m with status := .failed }
      exact ⟨hx, rfl, ⟨_, hmemo, rfl, hm.stop hn hstop hstatus, rfl⟩,
        fun j hj => sameAt_adjust s hj _⟩
  | ok y =>
    cases x with
    | error e => exact False.elim
    | ok x =>
      rintro rfl
      cases x with
      | none =>
        have hstop : ∀ a, source.replay n ≠ .ok (some a) := fun a h => by rw [hr] at h; cases h
        have hstatus : MemoStatus.ended = source.statusWithin (n + 1) := by
          rw [Source.statusWithin, hr]
        have hmemo := getElem?_adjust_polled hs fun m => { m with status := .ended }
        refine ⟨rfl, rfl, ⟨_, hmemo, rfl, hm.stop hn hstop hstatus, ?_⟩, fun j hj => ?_⟩
        · rw [endings_note]
          simp [MemoEvent.endOf, Memo.isExhausted]
        · refine (sameAt_adjust s hj _).trans (sameAt_note _ ?_)
          simpa [MemoEvent.endOf] using hj.symm
      | some a =>
        have hmemo := getElem?_adjust_polled hs fun m => { m with items := m.items.push a }
        refine ⟨rfl, rfl, ⟨_, hmemo, rfl, hm.push hn hr, ?_⟩, fun j hj => sameAt_adjust s hj _⟩
        simpa [Memo.isExhausted] using hreading

end Settle

/-! ## Forcing a position -/

/-- Memos up to `i` follow the shelf, and nothing has happened to the others. -/
def FollowsTo (i : Nat) (s s' : MemoStore α) (w' : Shelf α) : Prop :=
  (∀ j ≤ i, Follows s' w' j) ∧ ∀ j, i < j → SameAt s s' j

/-- The source of memo `i` has been polled, and apart from that only earlier memos have changed. -/
structure Polled (i : Nat) (m : Memo α) (s s₁ : MemoStore α) (w : Shelf α) : Prop where
  memo : s₁.memos[i]? = some { m with polls := m.polls + 1 }
  endings : s₁.endings i = 0
  below : ∀ j < i, Follows s₁ w j
  above : ∀ j, i < j → SameAt s s₁ j

section Frontier

variable {s s₁ s₂ : MemoStore α} {w : Shelf α} {i : Nat} {m : Memo α}

theorem polled_countPoll (hfollows : ∀ j ≤ i, Follows s w j) (hm : s.memos[i]? = some m)
    (hends : s.endings i = 0) : Polled i m s (s.countPoll i) w where
  memo := by
    rw [countPoll, getElem?_adjust, if_pos rfl, hm]
    rfl
  endings := hends
  below j hj :=
    (hfollows j (Nat.le_of_lt hj)).sameAt (sameAt_adjust s (Nat.ne_of_gt hj) _) rfl
  above j hj := sameAt_adjust s (Nat.ne_of_lt hj) _

/-- Forcing an earlier memo leaves the poll as it was. -/
theorem Polled.force (h : Polled i m s s₁ w) {parent d : Nat} (hlt : parent < i)
    (hforce : FollowsTo parent s₁ s₂ (w.raise parent d)) :
    Polled i m s s₂ (w.raise parent d) where
  memo := (hforce.2 i hlt).memo.trans h.memo
  endings := (hforce.2 i hlt).endings.trans h.endings
  below j hj := by
    rcases Nat.lt_or_ge parent j with hparent | hparent
    · exact (h.below j hj).sameAt (hforce.2 j hparent) (Shelf.getElem?_raise_of_lt hparent)
    · exact hforce.1 j hparent
  above j hj := (h.above j hj).trans (hforce.2 j (hlt.trans hj))

theorem Polled.note (h : Polled i m s s₁ w) (j : Nat) (a : α) :
    Polled i m s (s₁.note (.mapping j a)) w where
  memo := h.memo
  endings := (sameAt_note s₁ rfl).endings.trans h.endings
  below k hk := (h.below k hk).sameAt (sameAt_note s₁ rfl) rfl
  above k hk := (h.above k hk).trans (sameAt_note s₁ rfl)

theorem Polled.agree_settle (h : Polled i m s s₁ w) {r : Replayed α} (hr : w[i]? = some r)
    (ho : m.origin = r.origin) (hm : m.Reads r.source r.demand)
    (hn : r.source.itemsWithin r.demand = r.demand) {x : Except Fault (Option α)}
    (hx : Act.SameReply Fault.Worded x (r.source.replay r.demand)) :
    Act.Agree Fault.Worded (FollowsTo i s) (settle i (answer s₁ x))
      (Act.ofExcept (r.source.replay r.demand) (w.modify i (·.raise (r.demand + 1)))) := by
  have hw : (w.modify i (·.raise (r.demand + 1)))[i]? = some (r.raise (r.demand + 1)) := by
    rw [Array.getElem?_modify, if_pos rfl, hr]
    rfl
  refine (MemoStore.agree_settle hm hn h.memo hx (w.modify i (·.raise (r.demand + 1)))).mono ?_
  rintro s' _ ⟨rfl, hs'⟩
  refine ⟨fun j hj => ?_, fun j hj => (h.above j hj).trans (hs'.others j (Nat.ne_of_lt hj))⟩
  rcases Nat.lt_or_eq_of_le hj with hj | rfl
  · refine (h.below j hj).sameAt (hs'.others j (Nat.ne_of_gt hj)) ?_
    rw [Array.getElem?_modify, if_neg (Nat.ne_of_gt hj)]
  · obtain ⟨m', hm', ho', hreads, hends⟩ := hs'.memo
    have hdemand : (r.raise (r.demand + 1)).demand = r.demand + 1 :=
      Nat.max_eq_right (Nat.le_succ _)
    rw [h.endings, Nat.zero_add] at hends
    simp only [Follows, hm', hw, hdemand]
    exact ⟨ho'.trans ho, hreads, hends⟩

/-- The answer of an earlier memo, mapped, settles the poll. -/
theorem Polled.agree_mapped (h : Polled i m s s₁ w) {r q : Replayed α} (hr : w[i]? = some r)
    (ho : m.origin = r.origin) (hm : m.Reads r.source r.demand)
    (hn : r.source.itemsWithin r.demand = r.demand) {parent : Nat} (hlt : parent < i)
    {f : α → Except Fault α} (hsource : r.source = q.source.through f)
    {out : EStateM.Result Fault (MemoStore α) (Option α)}
    (hout : Act.Agree Fault.Worded (FollowsTo parent s₁) out
      (Act.ofExcept (q.source.replay r.demand) (w.raise parent (r.demand + 1)))) :
    Act.Agree Fault.Worded (FollowsTo i s)
      (match out with
        | .ok (some a) s => settle i (answer (s.note (.mapping i a)) ((f a).map some))
        | .ok none s => settle i (.ok none s)
        | .error e s => settle i (.error e s))
      (Act.ofExcept (r.source.replay r.demand)
        ((w.raise parent (r.demand + 1)).modify i (·.raise (r.demand + 1)))) := by
  have hr' : (w.raise parent (r.demand + 1))[i]? = some r := by
    rw [Shelf.getElem?_raise_of_lt hlt, hr]
  have hreplay : r.source.replay r.demand = (q.source.through f).answer r.demand := by
    rw [r.source.replay_eq_answer (Nat.le_of_eq hn.symm), hsource]
  simp only [Source.through] at hreplay
  cases hq : q.source.replay r.demand with
  | error e' =>
    rw [hq] at hout hreplay
    obtain ⟨e, s₂, rfl, he, hs₂⟩ := hout.exists_error
    have hx : Act.SameReply Fault.Worded (.error e) (r.source.replay r.demand) := by
      rw [hreplay]
      exact he
    exact (h.force hlt hs₂).agree_settle hr' ho hm hn hx
  | ok x =>
    rw [hq] at hout hreplay
    obtain ⟨s₂, rfl, hs₂⟩ := hout.exists_ok
    cases x with
    | none =>
      have hx : Act.SameReply Fault.Worded (.ok none) (r.source.replay r.demand) := by
        rw [hreplay]
        rfl
      exact (h.force hlt hs₂).agree_settle hr' ho hm hn hx
    | some a =>
      have hx : Act.SameReply Fault.Worded ((f a).map some) (r.source.replay r.demand) := by
        rw [hreplay]
        exact Act.sameReply_self Fault.worded_self _
      exact ((h.force hlt hs₂).note i a).agree_settle hr' ho hm hn hx

end Frontier

/-- What a mapped memo has read was there to be read. -/
theorem le_itemsWithin_through {q r : Replayed α} {f : α → Except Fault α}
    (hsource : r.source = q.source.through f) (hn : r.source.itemsWithin r.demand = r.demand)
    (hpolls : r.source.pollsWithin r.demand ≤ q.demand) :
    r.demand ≤ q.source.itemsWithin q.demand := by
  rw [r.source.pollsWithin_of_reading hn] at hpolls
  refine q.source.le_itemsWithin hpolls fun k hk => ?_
  obtain ⟨a, ha⟩ := r.source.exists_item (hn.symm ▸ hk)
  rw [r.source.replay_eq_answer (Nat.le_of_lt (hn.symm ▸ hk)), hsource] at ha
  simp only [Source.through] at ha
  cases hq : q.source.replay k with
  | error e =>
    rw [hq] at ha
    cases ha
  | ok x =>
    cases x with
    | none =>
      rw [hq] at ha
      cases ha
    | some b => exact ⟨b, rfl⟩

/-- Forcing the position of a traversal reads it from the shelf. -/
theorem agree_force {w : Shelf α} (hw : w.Sound) (i : Nat) :
    ∀ (k : Nat) (s : MemoStore α) (r : Replayed α), (∀ j ≤ i, Follows s w j) → w[i]? = some r →
      k ≤ r.source.itemsWithin r.demand →
      Act.Agree Fault.Worded (FollowsTo i s) (s.force i k) (Shelf.read i k w) := by
  -- a mapped memo forces an earlier one, so the induction is on the number of the memo
  induction i using Nat.strongRecOn with
  | ind i ih =>
    intro k s r hfollows hr hk
    obtain ⟨m, hm, ho, hreads, hends⟩ := (hfollows i (Nat.le_refl i)).exists_memo hr
    have hknown : FollowsTo i s s w := ⟨hfollows, fun j _ => ⟨rfl, rfl⟩⟩
    have hsize := hreads.evaluated
    have hle := r.source.itemsWithin_le r.demand
    unfold force
    simp only [hm, Shelf.read, hr]
    by_cases hlt : k < m.items.size
    · have hraise : w.raise i (k + 1) = w := Shelf.raise_of_le hw hr (by omega)
      rw [dif_pos hlt, hreads.item k hlt, hraise]
      exact ⟨rfl, hknown⟩
    -- `k` is the first position that is not known: it is polled for, unless the source has stopped
    · obtain rfl : k = r.source.itemsWithin r.demand := by omega
      rw [dif_neg hlt, hreads.status]
      rcases r.source.statusWithin_cases r.demand with
        ⟨hstatus, hn⟩ | ⟨hstatus, hn, hend⟩ | ⟨hstatus, hn, e, hfail⟩
      · have hpolled : Polled i m s (s.countPoll i) w := by
          refine polled_countPoll hfollows hm ?_
          rw [hends, Memo.isExhausted, hreads.status, hstatus]
          rfl
        have hanswer := r.source.replay_eq_answer (Nat.le_of_eq hn.symm)
        have hsound := hw i r hr
        rw [hstatus, ho, hn]
        cases horigin : r.origin with
        | source source =>
          rw [horigin] at hsound
          rw [Shelf.raise_source hr horigin]
          refine hpolled.agree_settle hr ho hreads hn ?_
          rw [hreads.polls, r.source.pollsWithin_of_reading hn, hanswer, hsound]
          exact Act.sameReply_self Fault.worded_self _
        | mapped parent f =>
          rw [horigin] at hsound
          obtain ⟨hlt, q, hq, hsource, hpolls⟩ := hsound
          have hraise : w.raise i (r.demand + 1) =
              (w.raise parent (r.demand + 1)).modify i (·.raise (r.demand + 1)) := by
            rw [Shelf.raise_mapped hr horigin hlt, Nat.max_eq_right (Nat.le_succ _),
              r.source.pollsWithin_succ_of_reading hn]
          have hgiven := le_itemsWithin_through hsource hn hpolls
          have hparent := ih parent hlt r.demand (s.countPoll i) q
            (fun j hj => hpolled.below j (Nat.lt_of_le_of_lt hj hlt)) hq hgiven
          simp only [Shelf.read, hq] at hparent
          rw [hraise]
          simp only [if_pos hlt, hsize.trans hn]
          exact hpolled.agree_mapped hr ho hreads hn hlt hsource hparent
      · have hraise : w.raise i (r.source.itemsWithin r.demand + 1) = w :=
          Shelf.raise_of_le hw hr hn
        rw [hstatus, hend, hraise]
        exact ⟨rfl, hknown⟩
      · have hraise : w.raise i (r.source.itemsWithin r.demand + 1) = w :=
          Shelf.raise_of_le hw hr hn
        rw [hstatus, hfail, hraise]
        exact ⟨.inr rfl, hknown⟩

/-! ## Stores that are kept -/

/-- The store follows a sound shelf. -/
structure Kept (s : MemoStore α) (w : Shelf α) : Prop where
  sound : w.Sound
  follows : ∀ i, Follows s w i

section Kept

variable {s : MemoStore α} {w : Shelf α} {i k : Nat} {r : Replayed α}

theorem Kept.exists_memo (h : Kept s w) (hr : w[i]? = some r) :
    ∃ m, s.memos[i]? = some m ∧ m.origin = r.origin ∧ m.Reads r.source r.demand ∧
      s.endings i = if m.isExhausted then 1 else 0 :=
  (h.follows i).exists_memo hr

theorem Kept.reads (h : Kept s w) (hr : w[i]? = some r) {m : Memo α}
    (hm : s.memos[i]? = some m) : m.origin = r.origin ∧ m.Reads r.source r.demand := by
  obtain ⟨m', hm', ho, hreads, -⟩ := h.exists_memo hr
  obtain rfl := Option.some.inj (hm.symm.trans hm')
  exact ⟨ho, hreads⟩

theorem Kept.size (h : Kept s w) : s.memos.size = w.size := by
  refine Nat.le_antisymm (Nat.le_of_not_lt fun hlt => ?_) (Nat.le_of_not_lt fun hlt => ?_)
  · have hfollows := h.follows w.size
    simp [Follows, Array.getElem?_eq_getElem hlt] at hfollows
  · obtain ⟨m, hm, -⟩ := h.exists_memo (Array.getElem?_eq_getElem hlt)
    simp at hm

theorem Kept.add (h : Kept s w) {parent : Nat} {q : Replayed α} (hq : w[parent]? = some q)
    (f : α → Except Fault α) :
    Kept (s.add (.mapped parent f)) (w.push ⟨.mapped parent f, q.source.through f, 0⟩) where
  sound := h.sound.push hq f
  follows i := by
    have hfollows := h.follows i
    by_cases hi : i = w.size
    · have hnone : w[i]? = none := Array.getElem?_eq_none (Nat.le_of_eq hi.symm)
      have hends : s.endings i = 0 := by
        simp only [Follows, hnone] at hfollows
        split at hfollows
        · rename_i hm
          cases hm
        · exact hfollows
        · exact False.elim hfollows
      simp only [Follows, getElem?_add, Array.getElem?_push, h.size, if_pos hi]
      exact ⟨rfl, Memo.reads_ofOrigin _ _, hends⟩
    · refine hfollows.sameAt ⟨?_, rfl⟩ ?_
      · rw [getElem?_add, h.size, if_neg hi]
      · rw [Array.getElem?_push, if_neg hi]

theorem Kept.note (h : Kept s w) {e : MemoEvent α} (he : ∀ j, e.endOf j = false) :
    Kept (s.note e) w where
  sound := h.sound
  follows j := (h.follows j).sameAt (sameAt_note s (he j)) rfl

/-- A demand beyond the known end of a sequence makes nothing known. -/
theorem Kept.raise_of_stopped (h : Kept s w) (hr : w[i]? = some r)
    (hstop : r.source.itemsWithin r.demand < r.demand) (d : Nat) : Kept s (w.raise i d) where
  sound := h.sound.raise i d
  follows j := by
    rw [Shelf.raise_of_stopped h.sound hr hstop]
    by_cases hij : i = j
    · subst hij
      obtain ⟨m, hm, ho, hreads, hends⟩ := h.exists_memo hr
      simp only [Follows, hm, Array.getElem?_modify, if_pos, hr, Option.map_some]
      exact ⟨ho, hreads.of_stopped hstop (Nat.le_max_left _ _), hends⟩
    · refine (h.follows j).sameAt ⟨rfl, rfl⟩ ?_
      rw [Array.getElem?_modify, if_neg hij]

theorem Kept.agree_force (h : Kept s w) (hr : w[i]? = some r)
    (hk : k ≤ r.source.itemsWithin r.demand) :
    Act.Agree Fault.Worded Kept (s.force i k)
      (Act.ofExcept (r.source.replay k) (w.raise i (k + 1))) := by
  have hforce := MemoStore.agree_force h.sound i k s r (fun j _ => h.follows j) hr hk
  simp only [Shelf.read, hr] at hforce
  refine hforce.mono_ofExcept fun s' hs' => ⟨h.sound.raise i (k + 1), fun j => ?_⟩
  rcases Nat.lt_or_ge i j with hj | hj
  · exact (h.follows j).sameAt (hs'.2 j hj) (Shelf.getElem?_raise_of_lt hj)
  · exact hs'.1 j hj

end Kept

end MemoStore

end Streamkit
