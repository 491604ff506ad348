import Streamkit.Proofs.Memo.Lockstep
import Streamkit.Proofs.Memo.Store

/-!
# Poisoned memos

Take a source that gives items to its first `p` polls and gives up at the next one
(`Source.FailsAt`). The memo that reads it is `Memo.Healthy` until it is polled for position `p`,
and `Memo.Poisoned` from then on. Of what can happen to a store in which it is healthy, only that
poll poisons it, and then the fault of the source is passed on through every layer that was reading
(`MemoStore.keeps_force`). Once it is poisoned the store is compared with the one in which the poll
is taken back, `MemoStore.revive`: the two go on alike until the one polls again for position `p`,
and then the other gives up as well, without a poll (`MemoStore.coupled_force`).
-/

namespace Streamkit

variable {α : Type}

theorem error_of_map {β : Type} {x : Except Fault α} {f : α → β} {e : Fault}
    (h : x.map f = .error e) : x = .error e := by
  cases x with
  | ok a => cases h
  | error e' =>
    cases h
    rfl

/-- The source gives items to its first `p` polls, and raises the fault at the poll after them. -/
structure Source.FailsAt (source : Source α) (p : Nat) (fault : Fault) : Prop where
  item : ∀ k < p, ∃ a, source.answer k = .ok (some a)
  fails : source.answer p = .error fault

/-- The origin raises the fault on its own account. -/
def MemoOrigin.Raises : MemoOrigin α → Fault → Prop
  | source s, e => ∃ k, s.answer k = .error e
  | mapped _ f, e => ∃ a, f a = .error e

namespace Memo

/-- The memo has been given one item for each poll, below position `p`. -/
structure Healthy (p : Nat) (m : Memo α) : Prop where
  status : m.status = .reading
  evaluated : m.evaluated = m.polls
  polls : m.polls ≤ p

/-- The memo is healthy and has been polled `n` times. -/
def HealthyAt (p n : Nat) (m : Memo α) : Prop := m.Healthy p ∧ m.polls = n

/-- The poll for position `p` has failed, and there has been no other poll since. -/
structure Poisoned (p : Nat) (m : Memo α) : Prop where
  status : m.status = .failed
  evaluated : m.evaluated = p
  polls : m.polls = p + 1

/-- The memo with its last poll taken back, if that has failed. -/
def revived (m : Memo α) : Memo α :=
  if m.status = .failed then { m with status := .reading, polls := m.polls - 1 } else m

theorem Healthy.not_poisoned {p : Nat} {m : Memo α} (h : m.Healthy p) : ¬ m.Poisoned p := by
  intro h'
  have hstatus := h'.status
  rw [h.status] at hstatus
  cases hstatus

theorem Healthy.isExhausted {p : Nat} {m : Memo α} (h : m.Healthy p) : m.isExhausted = false := by
  rw [Memo.isExhausted, h.status]
  rfl

theorem Poisoned.isExhausted {p : Nat} {m : Memo α} (h : m.Poisoned p) :
    m.isExhausted = false := by
  rw [Memo.isExhausted, h.status]
  rfl

theorem Healthy.revived {p : Nat} {m : Memo α} (h : m.Healthy p) : m.revived = m := by
  rw [Memo.revived, h.status]
  rfl

theorem Poisoned.revived {p : Nat} {m : Memo α} (h : m.Poisoned p) :
    m.revived = { m with status := .reading, polls := p } := by
  rw [Memo.revived, if_pos h.status, h.polls]
  rfl

theorem Poisoned.healthy_revived {p : Nat} {m : Memo α} (h : m.Poisoned p) :
    m.revived.Healthy p := by
  rw [h.revived]
  exact ⟨rfl, h.evaluated, Nat.le_refl p⟩

theorem origin_revived (m : Memo α) : m.revived.origin = m.origin := by
  unfold Memo.revived
  split <;> rfl

theorem Healthy.push {p : Nat} {m : Memo α} (h : m.Healthy p) (hlt : m.polls < p) (a : α) :
    Healthy p { m with items := m.items.push a, polls := m.polls + 1 } where
  status := h.status
  evaluated := (Array.size_push a).trans (congrArg (· + 1) h.evaluated)
  polls := hlt

theorem Healthy.fail {p : Nat} {m : Memo α} (h : m.Healthy p) (heq : m.polls = p) :
    Poisoned p { m with status := .failed, polls := m.polls + 1 } where
  status := rfl
  evaluated := h.evaluated.trans heq
  polls := congrArg (· + 1) heq

end Memo

namespace MemoStore

/-- The last poll of memo `i` taken back, if that has failed. -/
def revive (i : Nat) (s : MemoStore α) : MemoStore α := s.adjust i Memo.revived

/-- Memo `i` reads the source and is in a certain state, and the other memos raise no faults but
`raised`. -/
structure Watched (raised : Fault → Prop) (source : Source α) (i : Nat) (state : Memo α → Prop)
    (s : MemoStore α) : Prop where
  memo : ∃ m, s.memos[i]? = some m ∧ m.origin = .source source ∧ state m
  others : ∀ j m e, i ≠ j → s.memos[j]? = some m → m.origin.Raises e → raised e

variable {raised : Fault → Prop} {source : Source α} {i p : Nat} {fault : Fault}
  {state : Memo α → Prop} {s r : MemoStore α}

/-! ## Changing a store -/

theorem adjust_adjust (s : MemoStore α) (i : Nat) (f g : Memo α → Memo α) :
    (s.adjust i f).adjust i g = s.adjust i fun m => g (f m) :=
  congrArg (MemoStore.mk · s.trace) (modify_modify _ i f g)

theorem adjust_comm {j : Nat} (h : i ≠ j) (f g : Memo α → Memo α) (s : MemoStore α) :
    (s.adjust j g).adjust i f = (s.adjust i f).adjust j g :=
  congrArg (MemoStore.mk · s.trace) (modify_modify_of_ne h f g _)

theorem adjust_of_fixed {m : Memo α} (hm : s.memos[i]? = some m) {f : Memo α → Memo α}
    (hf : f m = m) : s.adjust i f = s :=
  congrArg (MemoStore.mk · s.trace) (modify_of_fixed hm hf)

theorem adjust_add (hi : i < s.memos.size) (f : Memo α → Memo α) (origin : MemoOrigin α) :
    (s.add origin).adjust i f = (s.adjust i f).add origin :=
  congrArg (MemoStore.mk · s.trace) (modify_push hi f _)

theorem Watched.mono (h : Watched raised source i state s) {state' : Memo α → Prop}
    (hstate : ∀ m, state m → state' m) : Watched raised source i state' s := by
  obtain ⟨m, hm, ho, hs⟩ := h.memo
  exact ⟨⟨m, hm, ho, hstate m hs⟩, h.others⟩

theorem Watched.adjust (h : Watched raised source i state s) {j : Nat} (hj : i ≠ j)
    {f : Memo α → Memo α} (hf : ∀ m, (f m).origin = m.origin) :
    Watched raised source i state (s.adjust j f) where
  memo := by
    rw [getElem?_adjust, if_neg hj.symm]
    exact h.memo
  others k m e hk hm he := by
    rw [getElem?_adjust] at hm
    split at hm
    · obtain ⟨m', hm', rfl⟩ := Option.map_eq_some_iff.1 hm
      exact h.others k m' e hk hm' (hf m' ▸ he)
    · exact h.others k m e hk hm he

/-- The memo itself changes from one state to another. -/
theorem Watched.adjust_self (h : Watched raised source i state s) {state' : Memo α → Prop}
    {f : Memo α → Memo α} (hf : ∀ m, (f m).origin = m.origin)
    (hstate : ∀ m, state m → state' (f m)) : Watched raised source i state' (s.adjust i f) where
  memo := by
    obtain ⟨m, hm, ho, hs⟩ := h.memo
    exact ⟨f m, by rw [getElem?_adjust, if_pos rfl, hm]; rfl, (hf m).trans ho, hstate m hs⟩
  others k m e hk hm he := by
    rw [getElem?_adjust, if_neg hk] at hm
    exact h.others k m e hk hm he

theorem Watched.pin (h : Watched raised source i state s) {m : Memo α}
    (hm : s.memos[i]? = some m) :
    m.origin = .source source ∧ state m ∧ Watched raised source i (· = m) s := by
  obtain ⟨m', hm', ho, hs⟩ := h.memo
  obtain rfl := Option.some.inj (hm.symm.trans hm')
  exact ⟨ho, hs, ⟨m, hm, ho, rfl⟩, h.others⟩

theorem Watched.note (h : Watched raised source i state s) (e : MemoEvent α) :
    Watched raised source i state (s.note e) :=
  ⟨h.memo, h.others⟩

theorem Watched.lt_size (h : Watched raised source i state s) : i < s.memos.size := by
  obtain ⟨m, hm, -⟩ := h.memo
  exact (Array.getElem?_eq_some_iff.1 hm).1

theorem Watched.add (h : Watched raised source i state s) (parent : Nat) {f : α → Except Fault α}
    (hf : ∀ a e, f a = .error e → raised e) :
    Watched raised source i state (s.add (.mapped parent f)) where
  memo := by
    rw [getElem?_add, if_neg (Nat.ne_of_lt h.lt_size)]
    exact h.memo
  others j m e hj hm he := by
    rw [getElem?_add] at hm
    split at hm
    · obtain rfl := Option.some.inj hm
      obtain ⟨a, ha⟩ := he
      exact hf a e ha
    · exact h.others j m e hj hm he

/-! ## Memos that are read alike -/

/-- Memos other than `i` are the same in related stores and change alike, and raise no faults but
`raised`. -/
structure Apart (raised : Fault → Prop) (i : Nat) (values : MemoStore α → MemoStore α → Prop)
    (faults : Fault → Fault → MemoStore α → MemoStore α → Prop) : Prop where
  same : ∀ {s r j}, values s r → i ≠ j → s.memos[j]? = r.memos[j]?
  adjust : ∀ {s r j} {f : Memo α → Memo α}, i ≠ j → (∀ m, (f m).origin = m.origin) → values s r →
    values (s.adjust j f) (r.adjust j f)
  adjust_fault : ∀ {s r j e e'} {f : Memo α → Memo α}, i ≠ j → (∀ m, (f m).origin = m.origin) →
    faults e e' s r → faults e e' (s.adjust j f) (r.adjust j f)
  note : ∀ {s r} e, values s r → values (s.note e) (r.note e)
  others : ∀ {s r j m e}, values s r → i ≠ j → r.memos[j]? = some m → m.origin.Raises e → raised e
  failed : raised .memoFailed
  raise : ∀ {s r e}, raised e → values s r → faults e e s r

section Apart

variable {values : MemoStore α → MemoStore α → Prop}
  {faults : Fault → Fault → MemoStore α → MemoStore α → Prop} (h : Apart raised i values faults)

include h

theorem Apart.meet_settle {j : Nat} (hj : i ≠ j)
    {o o' : EStateM.Result Fault (MemoStore α) (Option α)} (ho : Act.Meet values faults o o') :
    Act.Meet values faults (settle j o) (settle j o') := by
  refine ho.elim (fun x s r hs => ?_) fun e e' s r hs => ?_
  · cases x with
    | none => exact ⟨rfl, h.note _ (h.adjust hj (fun _ => rfl) hs)⟩
    | some a => exact ⟨rfl, h.adjust hj (fun _ => rfl) hs⟩
  · exact h.adjust_fault hj (fun _ => rfl) hs

theorem Apart.meet_answer {x : Except Fault (Option α)} (hx : ∀ e, x = .error e → raised e)
    (hs : values s r) : Act.Meet values faults (answer s x) (answer r x) := by
  cases x with
  | ok x => exact ⟨rfl, hs⟩
  | error e => exact h.raise (hx e rfl) hs

/-- Stores in which memo `i` is read alike are read alike. -/
theorem Apart.coupled_force
    (hself : ∀ k, Act.Coupled values faults (MemoStore.force i k) (MemoStore.force i k)) (j : Nat) :
    ∀ k, Act.Coupled values faults (MemoStore.force j k) (MemoStore.force j k) := by
  -- a mapped memo forces an earlier one, so the induction is on the number of the memo
  induction j using Nat.strongRecOn with
  | ind j ih =>
    intro k
    by_cases hj : i = j
    · exact hj ▸ hself k
    intro s r hs
    unfold force
    rw [h.same hs hj]
    cases hm : r.memos[j]? with
    | none => exact ⟨rfl, hs⟩
    | some m =>
      dsimp only
      by_cases hk : k < m.items.size
      · rw [dif_pos hk, dif_pos hk]
        exact ⟨rfl, hs⟩
      rw [dif_neg hk, dif_neg hk]
      have hcount : values (s.countPoll j) (r.countPoll j) := h.adjust hj (fun _ => rfl) hs
      have hothers : ∀ e, m.origin.Raises e → raised e := fun e => h.others hs hj hm
      cases m.status with
      | ended => exact ⟨rfl, hs⟩
      | failed => exact h.raise h.failed hs
      | reading =>
        dsimp only
        cases ho : m.origin with
        | source source =>
          rw [ho] at hothers
          exact h.meet_settle hj (h.meet_answer (fun e he => hothers e ⟨_, he⟩) hcount)
        | mapped parent f =>
          rw [ho] at hothers
          dsimp only
          by_cases hlt : parent < j
          · rw [if_pos hlt, if_pos hlt]
            refine (ih parent hlt m.items.size _ _ hcount).elim (fun x s r hs => ?_) ?_
            · cases x with
              | none => exact h.meet_settle hj ⟨rfl, hs⟩
              | some a =>
                have hf : ∀ e, (f a).map some = .error e → raised e :=
                  fun e he => hothers e ⟨a, error_of_map he⟩
                exact h.meet_settle hj (h.meet_answer hf (h.note _ hs))
            · exact fun e e' s r hs => h.meet_settle hj hs
          · rw [if_neg hlt, if_neg hlt]
            exact h.meet_settle hj ⟨rfl, hcount⟩

/-- Stores in which memo `i` is read alike match. -/
theorem Apart.matching
    (hself : ∀ k, Act.Coupled values faults (MemoStore.force i k) (MemoStore.force i k))
    (hadd : ∀ {s r} parent f, (∀ a e, f a = .error e → raised e) → values s r →
      values (s.add (.mapped parent f)) (r.add (.mapped parent f)))
    (hknown : ∀ {s r}, values s r → s.memos.map (fun m => (m.evaluated, m.isExhausted)) =
      r.memos.map fun m => (m.evaluated, m.isExhausted)) : Matching raised values faults where
  force := h.coupled_force hself
  note _ hs := h.note _ hs
  add := hadd
  known := hknown
  raise := h.raise

end Apart

/-! ## Until the source gives up -/

/-- The memo has been poisoned by its source's fault, or it is healthy and the fault is another. -/
def Struck (raised : Fault → Prop) (source : Source α) (i p : Nat) (fault e : Fault)
    (s : MemoStore α) : Prop :=
  e = fault ∧ Watched raised source i (Memo.Poisoned p) s ∨
    raised e ∧ Watched raised source i (Memo.Healthy p) s

theorem Watched.healthy {n : Nat} (h : Watched raised source i (Memo.HealthyAt p n) s) :
    Watched raised source i (Memo.Healthy p) s :=
  h.mono fun _ hm => hm.1

theorem Watched.exists_healthyAt (h : Watched raised source i (Memo.Healthy p) s) :
    ∃ n ≤ p, Watched raised source i (Memo.HealthyAt p n) s := by
  obtain ⟨m, hm, ho, hhealthy⟩ := h.memo
  exact ⟨m.polls, hhealthy.polls, ⟨m, hm, ho, hhealthy, rfl⟩, h.others⟩

theorem force_of_lt {m : Memo α} (hm : s.memos[i]? = some m) {k : Nat} (hk : k < m.items.size) :
    force i k s = .ok (some m.items[k]) s := by
  unfold force
  simp only [hm, dif_pos hk]

/-- An item that has been read is replayed. -/
theorem force_known {n k : Nat} (h : Watched raised source i (Memo.HealthyAt p n) s) (hk : k < n) :
    ∃ a, force i k s = .ok (some a) s := by
  obtain ⟨m, hm, -, hhealthy, rfl⟩ := h.memo
  exact ⟨_, force_of_lt hm (hk.trans_eq hhealthy.evaluated.symm)⟩

theorem force_unknown {n k : Nat} (h : Watched raised source i (Memo.HealthyAt p n) s)
    (hk : n ≤ k) : force i k s = settle i (answer (s.countPoll i) (source.answer n)) := by
  obtain ⟨m, hm, ho, hhealthy, rfl⟩ := h.memo
  have hsize : ¬ k < m.items.size := Nat.not_lt.2 (hhealthy.evaluated.trans_le hk)
  unfold force
  simp only [hm, dif_neg hsize, hhealthy.status, ho]

/-- The item after those that have been read is polled for. -/
theorem force_frontier (hsource : source.FailsAt p fault) {n k : Nat}
    (h : Watched raised source i (Memo.HealthyAt p n) s) (hk : n ≤ k) (hn : n < p) :
    ∃ a s', force i k s = .ok (some a) s' ∧
      Watched raised source i (Memo.HealthyAt p (n + 1)) s' := by
  obtain ⟨a, ha⟩ := hsource.item n hn
  rw [force_unknown h hk, ha]
  refine ⟨a, _, rfl, ?_⟩
  rw [countPoll, adjust_adjust]
  refine h.adjust_self (fun _ => rfl) ?_
  rintro m ⟨hhealthy, rfl⟩
  exact ⟨hhealthy.push hn a, rfl⟩

/-- The poll for position `p` gives up, with the source's fault. -/
theorem force_failing (hsource : source.FailsAt p fault) {k : Nat}
    (h : Watched raised source i (Memo.HealthyAt p p) s) (hk : p ≤ k) :
    ∃ s', force i k s = .error fault s' ∧ Watched raised source i (Memo.Poisoned p) s' := by
  rw [force_unknown h hk, hsource.fails]
  refine ⟨_, rfl, ?_⟩
  rw [countPoll, adjust_adjust]
  refine h.adjust_self (fun _ => rfl) ?_
  rintro m ⟨hhealthy, hpolls⟩
  exact hhealthy.fail hpolls

/-- Reading the memo keeps it healthy, or poisons it. -/
theorem keeps_force (hsource : source.FailsAt p fault) (k : Nat) :
    Act.Keeps (Watched raised source i (Memo.Healthy p)) (Struck raised source i p fault)
      (force i k) := by
  intro s h
  obtain ⟨n, hn, hat⟩ := h.exists_healthyAt
  rcases Nat.lt_or_ge k n with hk | hk
  · obtain ⟨a, hrun⟩ := force_known hat hk
    rw [hrun]
    exact h
  · rcases Nat.lt_or_eq_of_le hn with hlt | rfl
    · obtain ⟨a, s', hrun, h'⟩ := force_frontier hsource hat hk hlt
      rw [hrun]
      exact h'.healthy
    · obtain ⟨s', hrun, h'⟩ := force_failing hsource hat hk
      rw [hrun]
      exact .inl ⟨rfl, h'⟩

/-- A store in which the memo is healthy, beside itself. -/
theorem matching_healthy (hsource : source.FailsAt p fault) (hfailed : raised .memoFailed) :
    Matching raised (Act.Single (Watched raised source i (Memo.Healthy p)))
      fun e e' s r => e = e' ∧ Act.Single (Struck raised source i p fault e) s r := by
  have hapart : Apart raised i (Act.Single (Watched raised source i (Memo.Healthy p)))
      fun e e' s r => e = e' ∧ Act.Single (Struck raised source i p fault e) s r :=
    { same := fun hs _ => by rw [hs.1]
      adjust := fun hj hf hs => ⟨by rw [hs.1], hs.2.adjust hj hf⟩
      adjust_fault := fun hj hf hs => ⟨hs.1, by rw [hs.2.1], hs.2.2.imp
        (fun h => ⟨h.1, h.2.adjust hj hf⟩) (fun h => ⟨h.1, h.2.adjust hj hf⟩)⟩
      note := fun e hs => ⟨by rw [hs.1], hs.2.note e⟩
      others := fun hs hj hm he => hs.2.others _ _ _ hj (hs.1 ▸ hm) he
      failed := hfailed
      raise := fun he hs => ⟨rfl, hs.1, .inr ⟨he, hs.2⟩⟩ }
  refine hapart.matching (fun k => Act.keeps_iff_coupled.1 (keeps_force hsource k))
    (fun parent f hf hs => ⟨by rw [hs.1], hs.2.add parent hf⟩) fun hs => by rw [hs.1]

/-! ## After the source has given up -/

/-- A store with a poisoned memo, beside the store in which the failed poll is taken back. -/
structure Revives (raised : Fault → Prop) (source : Source α) (i p : Nat) (s r : MemoStore α) :
    Prop where
  poisoned : Watched raised source i (Memo.Poisoned p) s
  revive : r = s.revive i

/-- The same fault in both, or position `p` has been asked for. -/
def Shocked (raised : Fault → Prop) (source : Source α) (i p : Nat) (fault e e' : Fault)
    (s r : MemoStore α) : Prop :=
  e = e' ∧ Revives raised source i p s r ∨
    e = .memoFailed ∧ e' = fault ∧ s = r ∧ Watched raised source i (Memo.Poisoned p) s

/-- The items below position `p` are replayed for ever. -/
theorem force_replayed {k : Nat} (h : Watched raised source i (Memo.Poisoned p) s) (hk : k < p) :
    ∃ a, force i k s = .ok (some a) s := by
  obtain ⟨m, hm, -, hpoisoned⟩ := h.memo
  exact ⟨_, force_of_lt hm (hk.trans_eq hpoisoned.evaluated.symm)⟩

/-- Position `p` gives up for ever, without a poll. -/
theorem force_poisoned {k : Nat} (h : Watched raised source i (Memo.Poisoned p) s) (hk : p ≤ k) :
    force i k s = .error .memoFailed s := by
  obtain ⟨m, hm, -, hpoisoned⟩ := h.memo
  have hsize : ¬ k < m.items.size := Nat.not_lt.2 (hpoisoned.evaluated.trans_le hk)
  unfold force
  simp only [hm, dif_neg hsize, hpoisoned.status]

theorem Watched.healthyAt_revive (h : Watched raised source i (Memo.Poisoned p) s) :
    Watched raised source i (Memo.HealthyAt p p) (s.revive i) := by
  refine h.adjust_self Memo.origin_revived fun m hm => ⟨hm.healthy_revived, ?_⟩
  rw [hm.revived]

theorem Watched.revive_eq (h : Watched raised source i (Memo.Healthy p) s) : s.revive i = s := by
  obtain ⟨m, hm, -, hhealthy⟩ := h.memo
  exact adjust_of_fixed hm hhealthy.revived

/-- Taking the failed poll back makes nothing known and forgets nothing that was. -/
theorem Watched.map_known (h : Watched raised source i (Memo.Poisoned p) s) :
    (s.revive i).memos.map (fun m => (m.evaluated, m.isExhausted)) =
      s.memos.map fun m => (m.evaluated, m.isExhausted) := by
  obtain ⟨m, hm, -, hpoisoned⟩ := h.memo
  refine Array.ext_getElem? fun j => ?_
  rw [Array.getElem?_map, Array.getElem?_map, revive, getElem?_adjust]
  split
  · rename_i hij
    subst hij
    rw [hm, Option.map_some, Option.map_some, Option.map_some, hpoisoned.isExhausted,
      hpoisoned.healthy_revived.isExhausted, hpoisoned.revived]
    rfl
  · rfl

theorem Revives.adjust (h : Revives raised source i p s r) {j : Nat} (hj : i ≠ j)
    {f : Memo α → Memo α} (hf : ∀ m, (f m).origin = m.origin) :
    Revives raised source i p (s.adjust j f) (r.adjust j f) where
  poisoned := h.poisoned.adjust hj hf
  revive := by rw [h.revive, MemoStore.revive, MemoStore.revive, adjust_comm hj]

/-- With the failed poll taken back, polling once more leads back to the same store. -/
theorem force_revive (hsource : source.FailsAt p fault) {k : Nat}
    (h : Watched raised source i (Memo.Poisoned p) s) (hk : p ≤ k) :
    force i k (s.revive i) = .error fault s := by
  obtain ⟨m, hm, -, hpoisoned⟩ := h.memo
  rw [force_unknown h.healthyAt_revive hk, hsource.fails]
  show EStateM.Result.error fault (((s.revive i).countPoll i).adjust i _) = _
  rw [MemoStore.revive, countPoll, adjust_adjust, adjust_adjust, adjust_of_fixed hm]
  rw [hpoisoned.revived, ← hpoisoned.status, ← hpoisoned.polls]

theorem coupled_force (hsource : source.FailsAt p fault) (k : Nat) :
    Act.Coupled (Revives raised source i p) (Shocked raised source i p fault) (force i k)
      (force i k) := by
  rintro s _ ⟨h, rfl⟩
  rcases Nat.lt_or_ge k p with hk | hk
  · obtain ⟨m, hm, -, hpoisoned⟩ := h.memo
    have hsize : k < m.items.size := hk.trans_eq hpoisoned.evaluated.symm
    have hm' : (s.revive i).memos[i]? = some { m with status := .reading, polls := p } := by
      rw [MemoStore.revive, getElem?_adjust, if_pos rfl, hm, Option.map_some, hpoisoned.revived]
    rw [force_of_lt hm hsize, force_of_lt hm' hsize]
    exact ⟨rfl, h, rfl⟩
  · rw [force_poisoned h hk, force_revive hsource h hk]
    exact .inr ⟨rfl, rfl, rfl, h⟩

/-- A store in which the memo is poisoned, beside the one in which the failed poll is taken
back. -/
theorem matching_poisoned (hsource : source.FailsAt p fault) (hfailed : raised .memoFailed) :
    Matching raised (Revives raised source i p) (Shocked raised source i p fault) := by
  have hapart : Apart raised i (Revives raised source i p) (Shocked raised source i p fault) :=
    { same := fun hs hj => by
        rw [hs.revive, MemoStore.revive, getElem?_adjust, if_neg hj]
      adjust := fun hj hf hs => hs.adjust hj hf
      adjust_fault := fun hj hf hs => hs.imp (fun h => ⟨h.1, h.2.adjust hj hf⟩)
        fun h => ⟨h.1, h.2.1, by rw [h.2.2.1], h.2.2.2.adjust hj hf⟩
      note := fun e hs => ⟨hs.poisoned.note e, by rw [hs.revive]; rfl⟩
      others := fun hs hj hm he => hs.poisoned.healthyAt_revive.others _ _ _ hj (hs.revive ▸ hm) he
      failed := hfailed
      raise := fun he hs => .inl ⟨rfl, hs⟩ }
  refine hapart.matching (coupled_force hsource) (fun parent f hf hs => ?_) fun hs => ?_
  · refine ⟨hs.poisoned.add parent hf, ?_⟩
    rw [hs.revive, MemoStore.revive, MemoStore.revive, adjust_add hs.poisoned.lt_size]
  · rw [hs.revive, hs.poisoned.map_known]

end MemoStore

end Streamkit
