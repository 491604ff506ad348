import Streamkit.Proofs.Memo.Demand
import Streamkit.Proofs.Memo.Reached

/-!
# Poisoning a memo

An operation forces position `p` of a memo when it makes the memo poll for that position, or would
do so if the memo had not polled for it before (`MemoSession.Forces`). If the source gives up there,
the first operation to force the position is given the source's fault and all later ones the fault
of the memo, which keeps its `p` items: this is what `step_of_healthy` and `step_of_poisoned` say of
one operation, and `exists_first` of a run. All other faults leave the memo readable, and as it was
read.
-/

namespace Streamkit

variable {α : Type}

/-! ## Sources that give up -/

section Source

variable {source : Source α} {p d k : Nat} {fault : Fault}

theorem Source.failsAt_of_failed (h : source.statusWithin d = .failed) :
    ∃ e, source.FailsAt (source.itemsWithin d) e := by
  rcases source.statusWithin_cases d with ⟨hs, -⟩ | ⟨hs, -⟩ | ⟨-, -, e, he⟩
  · rw [h] at hs
    cases hs
  · rw [h] at hs
    cases hs
  · refine ⟨e, fun k hk => ?_, ?_⟩
    · rw [← source.replay_eq_answer (Nat.le_of_lt hk)]
      exact source.exists_item hk
    · rw [← source.replay_eq_answer (Nat.le_refl _), he]

theorem Source.exists_failsAt {e : Fault} (h : source.replay k = .error e) :
    ∃ p fault, source.FailsAt p fault ∧ p ≤ k := by
  obtain ⟨hitems, hfailed⟩ := source.within_succ_of_fault h
  obtain ⟨fault, hsource⟩ := source.failsAt_of_failed hfailed
  exact ⟨_, fault, hsource, hitems.trans_le (source.itemsWithin_le k)⟩

namespace Source.FailsAt

theorem replay_of_le (h : source.FailsAt p fault) (hk : k ≤ p) :
    source.replay k = source.answer k := by
  induction k with
  | zero => rfl
  | succ k ih =>
    obtain ⟨a, ha⟩ := h.item k hk
    exact source.replay_succ_of_item ((ih (Nat.le_of_succ_le hk)).trans ha)

theorem replay_of_ge (h : source.FailsAt p fault) (hk : p ≤ k) :
    source.replay k = .error fault := by
  have hp := (h.replay_of_le (Nat.le_refl p)).trans h.fails
  have hstop : ∀ a, source.replay p ≠ .ok (some a) := fun a ha => nomatch hp.symm.trans ha
  rw [source.replay_eq_of_le hstop hk, hp]

/-- Either all positions that were asked for have items, or position `p` was among them. -/
theorem within_cases (h : source.FailsAt p fault) (d : Nat) :
    source.itemsWithin d = d ∧ d ≤ p ∨
      source.statusWithin d = .failed ∧ source.itemsWithin d = p ∧ p < d := by
  have hle : source.itemsWithin d ≤ p := by
    refine Nat.le_of_not_lt fun hlt => ?_
    obtain ⟨a, ha⟩ := source.exists_item hlt
    exact nomatch (h.replay_of_ge (Nat.le_refl p)).symm.trans ha
  have hend : source.replay (source.itemsWithin d) ≠ .ok none := by
    intro hnone
    rcases Nat.lt_or_eq_of_le hle with hlt | heq
    · obtain ⟨a, ha⟩ := h.item _ hlt
      exact nomatch ((h.replay_of_le hle).trans ha).symm.trans hnone
    · exact nomatch (h.replay_of_ge (Nat.le_of_eq heq.symm)).symm.trans hnone
  rcases source.statusWithin_cases d with ⟨-, hitems⟩ | ⟨-, -, hnone⟩ | ⟨hs, hlt, e, he⟩
  · exact .inl ⟨hitems, hitems ▸ hle⟩
  · exact absurd hnone hend
  · refine .inr ⟨hs, ?_⟩
    suffices hp : source.itemsWithin d = p from ⟨hp, hp ▸ hlt⟩
    refine Nat.le_antisymm hle (Nat.le_of_not_lt fun hlt => ?_)
    obtain ⟨a, ha⟩ := h.item _ hlt
    exact nomatch ((h.replay_of_le hle).trans ha).symm.trans he

theorem not_ended (h : source.FailsAt p fault) (d : Nat) : source.statusWithin d ≠ .ended := by
  rcases h.within_cases d with ⟨hitems, -⟩ | ⟨hfailed, -⟩
  · rw [source.statusWithin_eq_reading.2 hitems]
    nofun
  · rw [hfailed]
    nofun

end Source.FailsAt

/-- A memo that reads such a source has polled for position `p` or not. -/
theorem Memo.Reads.healthy_or_poisoned {m : Memo α} (hm : m.Reads source d)
    (h : source.FailsAt p fault) : m.Healthy p ∨ m.Poisoned p := by
  rcases h.within_cases d with ⟨hitems, hd⟩ | ⟨hs, hitems, hd⟩
  · have hpolls : m.polls = d := hm.polls.trans (source.pollsWithin_of_reading hitems)
    refine .inl ⟨hm.status.trans (source.statusWithin_eq_reading.2 hitems), ?_, hpolls ▸ hd⟩
    rw [hpolls, Memo.evaluated, hm.evaluated, hitems]
  · refine .inr ⟨hm.status.trans hs, hm.evaluated.trans hitems, ?_⟩
    rw [hm.polls, Source.pollsWithin, hitems, Nat.min_eq_right hd]

/-- A memo that has failed has polled for the position at which its sequence gives up. -/
theorem Memo.Reads.exists_poisoned {m : Memo α} (hm : m.Reads source d)
    (h : m.status = .failed) : ∃ p fault, source.FailsAt p fault ∧ m.Poisoned p := by
  obtain ⟨fault, hsource⟩ := source.failsAt_of_failed (hm.status.symm.trans h)
  refine ⟨_, fault, hsource, (hm.healthy_or_poisoned hsource).resolve_left fun hhealthy => ?_⟩
  exact nomatch hhealthy.status.symm.trans h

/-- As many polls poison any memo of the sequence. -/
theorem Memo.Reads.poisoned_of_lt {m : Memo α} (hm : m.Reads source d)
    (h : source.FailsAt p fault) (hp : p < m.polls) : m.Poisoned p :=
  (hm.healthy_or_poisoned h).resolve_left fun hhealthy => Nat.not_le.2 hp hhealthy.polls

end Source

namespace MemoSession

/-! ## Forcing a position -/

/-- The session with the last poll of memo `i` taken back, if that has failed. -/
def revive (i : Nat) (s : MemoSession α) : MemoSession α := { s with store := s.store.revive i }

/-- The operation asks for position `p` of memo `i`: unless the memo has been polled for it, it is
polled for it now. -/
def Forces (i p : Nat) (op : MemoOp α) (s : MemoSession α) : Prop :=
  ∃ m, ((perform op).attempt (s.revive i)).2.store.memos[i]? = some m ∧ p < m.polls

/-- One of the operations, performed one after the other, asks for position `p` of memo `i`. -/
def Forced (i p : Nat) : List (MemoOp α) → MemoSession α → Prop
  | [], _ => False
  | op :: ops, s => Forces i p op s ∨ Forced i p ops ((perform op).attempt s).2

variable {raised : Fault → Prop} {source : Source α} {i p n k : Nat} {fault : Fault}
  {s : MemoSession α}

theorem not_polled (h : s.store.Watched raised source i (Memo.Healthy p)) :
    ¬ ∃ m, s.store.memos[i]? = some m ∧ p < m.polls := by
  rintro ⟨m, hm, hlt⟩
  obtain ⟨-, hhealthy, -⟩ := h.pin hm
  exact absurd hhealthy.polls (Nat.not_le.2 hlt)

theorem polled (h : s.store.Watched raised source i (Memo.Poisoned p)) :
    ∃ m, s.store.memos[i]? = some m ∧ p < m.polls := by
  obtain ⟨m, hm, -, hpoisoned⟩ := h.memo
  exact ⟨m, hm, hpoisoned.polls ▸ Nat.lt_succ_self p⟩

theorem forces_iff_of_healthy {op : MemoOp α}
    (h : s.store.Watched raised source i (Memo.Healthy p)) :
    Forces i p op s ↔ ∃ m, ((perform op).attempt s).2.store.memos[i]? = some m ∧ p < m.polls := by
  have hrevive : s.revive i = s := by rw [revive, h.revive_eq]
  rw [Forces, hrevive]

/-- What an operation does as long as the memo is healthy. -/
theorem step_of_healthy (op : MemoOp α) (hsource : source.FailsAt p fault)
    (hfailed : raised .memoFailed) (hop : ∀ e, op.Raises e → raised e)
    (h : s.store.Watched raised source i (Memo.Healthy p)) :
    ¬ Forces i p op s ∧
        ((perform op).attempt s).2.store.Watched raised source i (Memo.Healthy p) ∧
        (∀ e, ((perform op).attempt s).1 = .error e → raised e) ∨
      Forces i p op s ∧
        ((perform op).attempt s).2.store.Watched raised source i (Memo.Poisoned p) ∧
        ((perform op).attempt s).1 = .error fault := by
  have hself : Lockstep (Act.Single (MemoStore.Watched raised source i (Memo.Healthy p))) s s :=
    ⟨⟨rfl, h⟩, rfl, rfl, rfl⟩
  rw [forces_iff_of_healthy h]
  have hstep := coupled_perform (MemoStore.matching_healthy (i := i) hsource hfailed) hop
  rcases hstep.attempt_cases hself with
    ⟨reply, hreply, -, hs⟩ | ⟨e, e', hreply, -, hs⟩
  · have hhealthy := hs.store.2
    exact .inl ⟨not_polled hhealthy, hhealthy, fun e he => nomatch hreply.symm.trans he⟩
  · rcases hs.store.2.2 with ⟨rfl, hpoisoned⟩ | ⟨he, hhealthy⟩
    · exact .inr ⟨polled hpoisoned, hpoisoned, hreply⟩
    · refine .inl ⟨not_polled hhealthy, hhealthy, fun e' he' => ?_⟩
      exact Except.error.inj (hreply.symm.trans he') ▸ he

/-- What an operation does once the memo is poisoned. -/
theorem step_of_poisoned (op : MemoOp α) (hsource : source.FailsAt p fault)
    (hfailed : raised .memoFailed) (hop : ∀ e, op.Raises e → raised e)
    (h : s.store.Watched raised source i (Memo.Poisoned p)) :
    ((perform op).attempt s).2.store.Watched raised source i (Memo.Poisoned p) ∧
      (Forces i p op s → ((perform op).attempt s).1 = .error .memoFailed) ∧
      ∀ e, ((perform op).attempt s).1 = .error e → raised e := by
  have hback : Lockstep (MemoStore.Revives raised source i p) s (s.revive i) :=
    ⟨⟨h, rfl⟩, rfl, rfl, rfl⟩
  have hstep := coupled_perform (MemoStore.matching_poisoned (i := i) hsource hfailed) hop
  rcases hstep.attempt_cases hback with
    ⟨reply, hreply, -, hs⟩ | ⟨e, e', hreply, hreply', hs⟩
  · obtain ⟨hpoisoned, hr⟩ := hs.store
    have hhealthy := hr ▸ hpoisoned.healthyAt_revive.healthy
    exact ⟨hpoisoned, fun hforces => absurd hforces (not_polled hhealthy),
      fun e he => nomatch hreply.symm.trans he⟩
  · rcases hs.store with ⟨rfl, hpoisoned, hr⟩ | ⟨rfl, -, -, hpoisoned⟩
    · have hhealthy := hr ▸ hpoisoned.healthyAt_revive.healthy
      refine ⟨hpoisoned, fun hforces => absurd hforces (not_polled hhealthy), fun f hf => ?_⟩
      obtain rfl := Except.error.inj (hreply.symm.trans hf)
      have hrevived : (s.revive i).store.Watched raised source i (Memo.Healthy p) :=
        h.healthyAt_revive.healthy
      rcases step_of_healthy op hsource hfailed hop hrevived with
        ⟨-, -, hraised⟩ | ⟨-, hpoisoned', -⟩
      · exact hraised e hreply'
      · exact absurd (polled hpoisoned') (not_polled hhealthy)
    · refine ⟨hpoisoned, fun _ => hreply, fun f hf => ?_⟩
      exact Except.error.inj (hreply.symm.trans hf) ▸ hfailed

/-! ## Runs -/

theorem run_of_poisoned (hsource : source.FailsAt p fault) (hfailed : raised .memoFailed)
    {ops : List (MemoOp α)} (hops : ∀ op ∈ ops, ∀ e, op.Raises e → raised e) :
    ∀ {s : MemoSession α}, s.store.Watched raised source i (Memo.Poisoned p) →
      (Act.attemptAll (ops.map perform) s).2.store.Watched raised source i (Memo.Poisoned p) ∧
      ∀ (k : Nat) (e : Fault), (Act.attemptAll (ops.map perform) s).1[k]? = some (.error e) →
        raised e := by
  induction ops with
  | nil => exact fun h => ⟨h, fun k e he => nomatch he⟩
  | cons op ops ih =>
    intro s h
    obtain ⟨hop, hrest⟩ := List.forall_mem_cons.1 hops
    obtain ⟨h', -, hreply⟩ := step_of_poisoned op hsource hfailed hop h
    obtain ⟨h'', hreplies⟩ := ih hrest h'
    refine ⟨h'', fun k e he => ?_⟩
    cases k with
    | zero => exact hreply e (Option.some.inj he)
    | succ k => exact hreplies k e he

theorem run_of_healthy (hsource : source.FailsAt p fault) (hfailed : raised .memoFailed)
    {ops : List (MemoOp α)} (hops : ∀ op ∈ ops, ∀ e, op.Raises e → raised e) :
    ∀ {s : MemoSession α}, s.store.Watched raised source i (Memo.Healthy p) →
      (Forced i p ops s →
        (Act.attemptAll (ops.map perform) s).2.store.Watched raised source i (Memo.Poisoned p)) ∧
      (¬ Forced i p ops s →
        (Act.attemptAll (ops.map perform) s).2.store.Watched raised source i (Memo.Healthy p)) := by
  induction ops with
  | nil => exact fun h => ⟨False.elim, fun _ => h⟩
  | cons op ops ih =>
    intro s h
    obtain ⟨hop, hrest⟩ := List.forall_mem_cons.1 hops
    rcases step_of_healthy op hsource hfailed hop h with
      ⟨hforces, h', -⟩ | ⟨hforces, h', -⟩
    · obtain ⟨hpoisoned, hhealthy⟩ := ih hrest h'
      exact ⟨fun hforced => hpoisoned (hforced.resolve_left hforces),
        fun hforced => hhealthy fun h => hforced (.inr h)⟩
    · exact ⟨fun _ => (run_of_poisoned hsource hfailed hrest h').1,
        fun hforced => absurd (.inl hforces) hforced⟩

/-- In a run that asks for position `p`, the first operation that does so gives up with the source's
fault, and no other one does. -/
theorem exists_first (hsource : source.FailsAt p fault) (hfailed : raised .memoFailed)
    {ops : List (MemoOp α)} (hops : ∀ op ∈ ops, ∀ e, op.Raises e → raised e) :
    ∀ {s : MemoSession α}, s.store.Watched raised source i (Memo.Healthy p) → Forced i p ops s →
      ∃ n op, ops[n]? = some op ∧ ¬ Forced i p (ops.take n) s ∧
        Forces i p op (Act.attemptAll ((ops.take n).map perform) s).2 ∧
        (Act.attemptAll (ops.map perform) s).1[n]? = some (.error fault) ∧
        ∀ k e, k ≠ n → (Act.attemptAll (ops.map perform) s).1[k]? = some (.error e) → raised e := by
  induction ops with
  | nil => exact fun _ => False.elim
  | cons op ops ih =>
    intro s h hforced
    obtain ⟨hop, hrest⟩ := List.forall_mem_cons.1 hops
    rcases step_of_healthy op hsource hfailed hop h with
      ⟨hforces, h', hreply⟩ | ⟨hforces, h', hreply⟩
    · obtain ⟨n, op', hop', hfirst, hforces', hfault, hreplies⟩ :=
        ih hrest h' (hforced.resolve_left hforces)
      refine ⟨n + 1, op', hop', fun h => h.elim hforces hfirst, hforces', hfault, ?_⟩
      intro k e hk he
      cases k with
      | zero => exact hreply e (Option.some.inj he)
      | succ k => exact hreplies k e (fun h => hk (congrArg (· + 1) h)) he
    · obtain ⟨-, hreplies⟩ := run_of_poisoned hsource hfailed hrest h'
      refine ⟨0, op, rfl, id, hforces, congrArg some hreply, fun k e hk he => ?_⟩
      cases k with
      | zero => exact absurd rfl hk
      | succ k => exact hreplies k e he

theorem watched_start {sources : List (Source α)} (hi : sources[i]? = some source)
    (hothers : ∀ (j : Nat) (other : Source α) (k : Nat) (e : Fault), i ≠ j →
      sources[j]? = some other → other.answer k = .error e → raised e) :
    (start sources).store.Watched raised source i (Memo.Healthy p) where
  memo := by
    refine ⟨.ofOrigin (.source source), ?_, rfl, rfl, rfl, Nat.zero_le p⟩
    simp only [start, List.getElem?_toArray, List.getElem?_map, hi, Option.map_some]
  others j m e hj hm he := by
    simp only [start, List.getElem?_toArray, List.getElem?_map] at hm
    obtain ⟨other, hother, rfl⟩ := Option.map_eq_some_iff.1 hm
    obtain ⟨k, hk⟩ := he
    exact hothers j other k e hj hother hk

/-! ## Sessions that read the source -/

namespace Reached

variable (hsource : source.FailsAt p fault)

include hsource

theorem watched (h : s.Reached (.source source) source i) :
    s.store.Watched (fun _ => True) source i (Memo.Healthy p) ∨
      s.store.Watched (fun _ => True) source i (Memo.Poisoned p) := by
  obtain ⟨m, d, hm, ho, hreads⟩ := h.exists_memo
  refine (hreads.healthy_or_poisoned hsource).imp (fun hhealthy => ?_) fun hpoisoned => ?_
  · exact ⟨⟨m, hm, ho, hhealthy⟩, fun _ _ _ _ _ _ => trivial⟩
  · exact ⟨⟨m, hm, ho, hpoisoned⟩, fun _ _ _ _ _ _ => trivial⟩

theorem endings (h : s.Reached (.source source) source i) : s.store.endings i = 0 := by
  obtain ⟨r, d, hmirrors, hq⟩ := h
  obtain ⟨m, -, -, hreads, hends⟩ := hmirrors.kept.exists_memo hq
  have hexhausted : m.isExhausted = false :=
    (hreads.healthy_or_poisoned hsource).elim (·.isExhausted) (·.isExhausted)
  rw [hends, hexhausted]
  rfl

theorem behind (h : s.Reached (.source source) source i) {m : Memo α}
    (hm : s.store.memos[i]? = some m) : s.Behind i m.evaluated := by
  obtain ⟨r, d, hmirrors, hq⟩ := h
  obtain ⟨-, hreads⟩ := hmirrors.kept.reads hq hm
  have hbehind : ∀ {calls position : Nat} {finished : Bool}, calls ≤ d →
      source.Place calls position finished → finished = false ∧ position ≤ m.evaluated := by
    intro calls position finished hcalls hplace
    constructor
    · rw [hplace.finished]
      exact beq_false_of_ne (hsource.not_ended calls)
    · rw [hplace.position, Memo.evaluated, hreads.evaluated]
      exact source.itemsWithin_mono hcalls
  constructor
  · intro x it hx hi
    obtain ⟨rd, -, -, hcalls, hplace⟩ := hmirrors.iter_place hq hx hi
    exact hbehind hcalls hplace
  · intro x c hx hi
    obtain ⟨rd, -, -, hcalls, hplace⟩ := hmirrors.cursor_place hq hx hi
    exact hbehind hcalls hplace

theorem steady (h : s.Reached (.source source) source i) : s.Steady (fun _ => True) source i p := by
  rcases h.watched hsource with hs | hs
  · obtain ⟨m, hm, ho, hhealthy⟩ := hs.memo
    exact .inl ⟨m.polls, ⟨⟨m, hm, ho, hhealthy, rfl⟩, hs.others⟩,
      hhealthy.evaluated ▸ h.behind hsource hm⟩
  · obtain ⟨m, hm, ho, hpoisoned⟩ := hs.memo
    exact .inr ⟨hs, hpoisoned.evaluated ▸ h.behind hsource hm⟩

/-- Asking is to force the position that the asker stands at. -/
theorem forces_ask (h : s.Reached (.source source) source i) {a : Asker}
    (ha : s.stands? a = some (i, k)) : Forces i p a.ask s ↔ p ≤ k := by
  obtain ⟨n, hhealthy, hbehind⟩ : ∃ n,
      (s.revive i).store.Watched (fun _ => True) source i (Memo.HealthyAt p n) ∧
        (s.revive i).Behind i n := by
    rcases h.steady hsource with ⟨n, h, hbehind⟩ | ⟨h, hbehind⟩
    · refine ⟨n, ?_, hbehind.iters, hbehind.cursors⟩
      rw [revive, h.healthy.revive_eq]
      exact h
    · exact ⟨p, h.healthyAt_revive, hbehind.iters, hbehind.cursors⟩
  have hstands : (s.revive i).stands? a = some (i, k) := by
    cases a <;> exact ha
  rcases watched_ask hsource hhealthy hbehind hstands with ⟨hlt, h'⟩ | ⟨hle, h'⟩
  · exact iff_of_false (not_polled h'.healthy) (Nat.not_le.2 hlt)
  · exact iff_of_true (polled h') hle

/-- Below position `p` an asker is given what the source has there. -/
theorem ask_of_lt (h : s.Reached (.source source) source i) {a : Asker}
    (ha : s.stands? a = some (i, k)) (hk : k < p) : ∃ x, source.answer k = .ok (some x) ∧
      ((MemoSession.perform a.ask).attempt s).1 = .ok (.item (.present x)) := by
  obtain ⟨x, hx⟩ := hsource.item k hk
  have hreply := h.sameReply_ask ha
  rw [hsource.replay_of_le (Nat.le_of_lt hk), hx] at hreply
  exact ⟨x, hx, hreply.eq_ok⟩

/-- From position `p` on the answer tells whether the memo has been poisoned before. -/
theorem ask_of_ge (h : s.Reached (.source source) source i) {a : Asker}
    (ha : s.stands? a = some (i, k)) (hk : p ≤ k) {m : Memo α} (hm : s.store.memos[i]? = some m) :
    ((MemoSession.perform a.ask).attempt s).1 =
      .error (if m.status = .failed then .memoFailed else fault) := by
  have hforces := (h.forces_ask hsource ha).2 hk
  rcases h.watched hsource with hs | hs
  · obtain ⟨-, hhealthy, -⟩ := hs.pin hm
    have hstep := (step_of_healthy a.ask hsource trivial (fun _ _ => trivial) hs).resolve_left
      fun hstep => hstep.1 hforces
    rw [hstep.2.2, hhealthy.status]
    rfl
  · obtain ⟨-, hpoisoned, -⟩ := hs.pin hm
    have hstep := step_of_poisoned a.ask hsource trivial (fun _ _ => trivial) hs
    rw [hstep.2.1 hforces, if_pos hpoisoned.status]

end Reached

/-! ## What an asker is answered -/

/-- What an asker is answered, and what that does to the memo, depends on the memo only. -/
theorem Reached.ask_eq {s' : MemoSession α} (h : s.Reached (.source source) source i)
    (h' : s'.Reached (.source source) source i) (hmemo : s.store.memos[i]? = s'.store.memos[i]?)
    {a a' : Asker} (ha : s.stands? a = some (i, k)) (ha' : s'.stands? a' = some (i, k)) :
    ((MemoSession.perform a.ask).attempt s).1 = ((MemoSession.perform a'.ask).attempt s').1 ∧
      ((MemoSession.perform a.ask).attempt s).2.store.memos[i]? =
        ((MemoSession.perform a'.ask).attempt s').2.store.memos[i]? := by
  obtain ⟨m, d, hm, -, hreads⟩ := h.exists_memo
  have hm' := hmemo.symm.trans hm
  constructor
  · have hreply := h.sameReply_ask ha
    have hreply' := h'.sameReply_ask ha'
    cases hreplay : source.replay k with
    | ok x =>
      rw [hreplay] at hreply hreply'
      exact hreply.eq_ok.trans hreply'.eq_ok.symm
    | error e =>
      obtain ⟨p, fault, hsource, hk⟩ := source.exists_failsAt hreplay
      rw [h.ask_of_ge hsource ha hk hm, h'.ask_of_ge hsource ha' hk hm']
  · obtain ⟨n, -, hn, -⟩ := (h.perform a.ask).exists_memo
    obtain ⟨n', -, hn', -⟩ := (h'.perform a'.ask).exists_memo
    have hpolls := (h.polls_ask ha hm hn).trans (h'.polls_ask ha' hm' hn').symm
    rw [hn, hn', (h.perform a.ask).memo_eq (h'.perform a'.ask) hn hn' hpolls]

theorem memo?_get (s : MemoSession α) (m k : Nat) :
    ((perform (.get m k)).attempt s).2.memo? = s.memo? := by
  simp only [perform, Act.attempt]
  cases hm : s.memo? m with
  | none => rw [withMemo_of_none hm]
  | some j =>
    rw [withMemo_of_some hm]
    have hstays := stays_onStore s ((fun x => .item (.ofOption x)) <$>
      MemoStore.traverse j (nth MemoIter.next k))
    rw [Act.attempt] at hstays
    rw [hstays]
    rfl

/-- A handle is asked for several positions, one after the other. -/
def getAll (handle : Nat) (ks : List Nat) (s : MemoSession α) :
    List (Except Fault (MemoReply α)) × MemoSession α :=
  Act.attemptAll (ks.map fun k => perform (.get handle k)) s

/-- Handles on memos that are the same give the same replies for ever. -/
theorem Reached.getAll_eq {handle handle' : Nat} (ks : List Nat) :
    ∀ {s s' : MemoSession α}, s.Reached (.source source) source i →
      s'.Reached (.source source) source i →
      s.store.memos[i]? = s'.store.memos[i]? → s.memo? handle = some i →
      s'.memo? handle' = some i → (getAll handle ks s).1 = (getAll handle' ks s').1 ∧
        (getAll handle ks s).2.store.memos[i]? = (getAll handle' ks s').2.store.memos[i]? := by
  induction ks with
  | nil => exact fun _ _ hmemo _ _ => ⟨rfl, hmemo⟩
  | cons k ks ih =>
    intro s s' h h' hmemo hi hi'
    have ha : s.stands? (.handle handle k) = some (i, k) := by rw [stands?, hi, Option.map_some]
    have ha' : s'.stands? (.handle handle' k) = some (i, k) := by
      rw [stands?, hi', Option.map_some]
    obtain ⟨hreply, hmemo'⟩ := h.ask_eq h' hmemo ha ha'
    obtain ⟨hreplies, hlast⟩ := ih (h.perform (.get handle k)) (h'.perform (.get handle' k)) hmemo'
      (by rw [memo?_get, hi]) (by rw [memo?_get, hi'])
    exact ⟨congrArg₂ List.cons hreply hreplies, hlast⟩

/-! ## Poisoning -/

/-- The fault is raised by another source, or by a closure of one of the operations. -/
def RaisedElsewhere (sources : List (Source α)) (i : Nat) (ops : List (MemoOp α)) (e : Fault) :
    Prop :=
  (∃ j other k, i ≠ j ∧ sources[j]? = some other ∧ other.answer k = .error e) ∨
    ∃ op ∈ ops, op.Raises e

/-- The source of memo `i` gives up at position `p`, which has been asked for if `forced`. -/
structure GivesUp (source : Source α) (i p : Nat) (fault : Fault) (forced : Prop)
    (s : MemoSession α) : Prop where
  /-- The operation that asks for position `p` first is given the fault of the source, … -/
  first : ¬ forced → ∀ op, Forces i p op s → ((perform op).attempt s).1 = .error fault
  /-- … and every later one that asks for it the fault of the memo, with its fixed wording. -/
  later : forced → ∀ op, Forces i p op s → ((perform op).attempt s).1 = .error .memoFailed
  /-- There are `p` items and `p + 1` polls, and the memo is not polled again. -/
  memo : ∃ m, s.store.memos[i]? = some m ∧ (¬ forced → m.Healthy p) ∧ (forced → m.Poisoned p)
  evaluated : forced → ∀ handle, s.memo? handle = some i →
    (perform (.evaluated handle)).attempt s = (.ok (.number p), s)
  isExhausted : ∀ handle, s.memo? handle = some i →
    (perform (.isExhausted handle)).attempt s = (.ok (.truth false), s)
  endings : s.store.endings i = 0
  /-- To ask for position `p` is to ask for an item at it or after it. -/
  forces : ∀ a k, s.stands? a = some (i, k) → (Forces i p a.ask s ↔ p ≤ k)
  /-- The items before position `p` are replayed for ever. -/
  replays : ∀ a k, s.stands? a = some (i, k) → k < p → ∃ x, source.answer k = .ok (some x) ∧
    ((perform a.ask).attempt s).1 = .ok (.item (.present x))
  /-- An asker that is given a fault changes nothing but the memos. -/
  stays : ∀ (a : Asker) e, ((perform a.ask).attempt s).1 = .error e →
    ((perform a.ask).attempt s).2 = { s with store := ((perform a.ask).attempt s).2.store }
  /-- A traversal of the memo that any operation gives up in is left at position `p`. -/
  halts : ∀ (op : MemoOp α) a k e, op.moves a → s.stands? a = some (i, k) →
    ((perform op).attempt s).1 = .error e →
    ((perform op).attempt s).2.stands? a = some (i, p)

/-- Whatever ends an operation, memo `i` has read on in its sequence, and nothing else. -/
structure ReadsOn (source : Source α) (i : Nat) (s : MemoSession α) : Prop where
  /-- The memo is poisoned when its own sequence has given up at the last poll, … -/
  failed : ∀ op m', ((perform op).attempt s).2.store.memos[i]? = some m' →
    (m'.status = .failed ↔ ∃ p fault, source.FailsAt p fault ∧ m'.polls = p + 1)
  /-- … and then it stays as it is. -/
  dead : ∀ op m, s.store.memos[i]? = some m → m.status = .failed →
    ((perform op).attempt s).2.store.memos[i]? = some m
  /-- An operation that does not poll the memo leaves it as it was. -/
  idle : ∀ op m m', s.store.memos[i]? = some m →
    ((perform op).attempt s).2.store.memos[i]? = some m' → m.polls = m'.polls → m = m'
  /-- One that does leaves it as a fresh iterator does that stops at the last position that was
  polled for, and as whoever stands at that position does. -/
  stopped : ∀ op m' k, ((perform op).attempt s).2.store.memos[i]? = some m' → m'.polls = k + 1 →
    ((perform op).attempt s).2.store.memos[i]? =
      ((MemoStore.traverse i (nth MemoIter.next k)).attempt s.store).2.memos[i]? ∧
    ∀ a, s.stands? a = some (i, k) → ((perform op).attempt s).2.store.memos[i]? =
      ((perform a.ask).attempt s).2.store.memos[i]?

/-- A memo of a source minds no fault but the one that the source raises. -/
structure Undisturbed (source : Source α) (i : Nat) (s : MemoSession α) : Prop extends
    ReadsOn source i s where
  /-- The operation that poisons the memo is given the fault of the source. -/
  own : ∀ op m m', s.store.memos[i]? = some m → m.status ≠ .failed →
    ((perform op).attempt s).2.store.memos[i]? = some m' → m'.status = .failed →
    ∃ p fault, source.FailsAt p fault ∧ ((perform op).attempt s).1 = .error fault
  /-- In any session in which the memo is the same, it answers the same and goes on the same. -/
  alike : ∀ (sources : List (Source α)) (ops : List (MemoOp α)), sources[i]? = some source →
    let s' := (Act.attemptAll (ops.map perform) (start sources)).2
    s.store.memos[i]? = s'.store.memos[i]? →
    (∀ a a' k, s.stands? a = some (i, k) → s'.stands? a' = some (i, k) →
      ((perform a.ask).attempt s).1 = ((perform a'.ask).attempt s').1 ∧
      ((perform a.ask).attempt s).2.store.memos[i]? =
        ((perform a'.ask).attempt s').2.store.memos[i]?) ∧
    ∀ handle handle' ks, s.memo? handle = some i → s'.memo? handle' = some i →
      (getAll handle ks s).1 = (getAll handle' ks s').1 ∧
      (getAll handle ks s).2.store.memos[i]? = (getAll handle' ks s').2.store.memos[i]?

theorem Reached.givesUp (h : s.Reached (.source source) source i)
    (hsource : source.FailsAt p fault) {forced : Prop}
    (hhealthy : ¬ forced → s.store.Watched (fun _ => True) source i (Memo.Healthy p))
    (hpoisoned : forced → s.store.Watched (fun _ => True) source i (Memo.Poisoned p)) :
    s.GivesUp source i p fault forced := by
  obtain ⟨m, d, hm, -, hreads⟩ := h.exists_memo
  exact {
    first := fun hforced op hforces =>
      ((step_of_healthy op hsource trivial (fun _ _ => trivial) (hhealthy hforced)).resolve_left
        fun hstep => hstep.1 hforces).2.2
    later := fun hforced op hforces =>
      (step_of_poisoned op hsource trivial (fun _ _ => trivial) (hpoisoned hforced)).2.1 hforces
    memo := ⟨m, hm, fun hforced => ((hhealthy hforced).pin hm).2.1,
      fun hforced => ((hpoisoned hforced).pin hm).2.1⟩
    evaluated := fun hforced handle hi => by
      rw [← ((hpoisoned hforced).pin hm).2.1.evaluated]
      exact perform_inspect hi hm fun m => .number m.evaluated
    isExhausted := fun handle hi => by
      have hexhausted : m.isExhausted = false :=
        (hreads.healthy_or_poisoned hsource).elim (·.isExhausted) (·.isExhausted)
      rw [← hexhausted]
      exact perform_inspect hi hm fun m => .truth m.isExhausted
    endings := h.endings hsource
    forces := fun a k => h.forces_ask hsource
    replays := fun a k ha => h.ask_of_lt hsource ha
    stays := fun a e => stays_ask s a
    halts := fun op a k e hop ha => stands?_of_moves hsource (h.steady hsource) hop ha }

theorem Reached.readsOn {origin : MemoOrigin α} (h : s.Reached origin source i) :
    s.ReadsOn source i where
  failed op m' hm' := by
    obtain ⟨-, d, hreads⟩ := (h.perform op).reads hm'
    constructor
    · intro hstatus
      obtain ⟨p, fault, hsource, hpoisoned⟩ := hreads.exists_poisoned hstatus
      exact ⟨p, fault, hsource, hpoisoned.polls⟩
    · rintro ⟨p, fault, hsource, hpolls⟩
      exact (hreads.poisoned_of_lt hsource (hpolls ▸ Nat.lt_succ_self p)).status
  dead op m hm hstatus := by
    obtain ⟨-, d, hreads⟩ := h.reads hm
    obtain ⟨m', d', hm', -, hreads'⟩ := (h.perform op).exists_memo
    obtain ⟨p, fault, hsource, hpoisoned⟩ := hreads.exists_poisoned hstatus
    have hp : p < m'.polls := hpoisoned.polls.symm.trans_le (h.polls_mono op hm hm')
    have hpoisoned' := hreads'.poisoned_of_lt hsource hp
    rw [hm', h.memo_eq (h.perform op) hm hm' (hpoisoned.polls.trans hpoisoned'.polls.symm)]
  idle op m m' hm hm' hpolls := h.memo_eq (h.perform op) hm hm' hpolls
  stopped op m' k hm' hpolls :=
    ⟨h.read_last op hm' hpolls, fun a => h.ask_last op hm' hpolls⟩

theorem Reached.undisturbed (h : s.Reached (.source source) source i) :
    s.Undisturbed source i where
  toReadsOn := h.readsOn
  own op m m' hm hstatus hm' hstatus' := by
    obtain ⟨-, d, hreads⟩ := (h.perform op).reads hm'
    obtain ⟨p, fault, hsource, hpoisoned⟩ := hreads.exists_poisoned hstatus'
    have hhealthy := (h.watched hsource).resolve_right fun hs => hstatus (hs.pin hm).2.1.status
    rcases step_of_healthy op hsource trivial (fun _ _ => trivial) hhealthy with
      ⟨-, hs, -⟩ | ⟨-, -, hreply⟩
    · exact absurd hpoisoned (hs.pin hm').2.1.not_poisoned
    · exact ⟨p, fault, hsource, hreply⟩
  alike sources ops hi hmemo :=
    ⟨fun a a' k ha ha' => h.ask_eq (reached_run hi ops) hmemo ha ha',
      fun handle handle' ks hhandle hhandle' =>
        Reached.getAll_eq ks h (reached_run hi ops) hmemo hhandle hhandle'⟩

/-- When the source of a memo gives up at position `p`, exactly one operation is given its fault,
the first to ask for that position, whatever the operations are; from then on the memo has `p` items
and gives its own fault to those who ask for more. Faults that are raised elsewhere do nothing to a
memo: it is left as by a consumer that has stopped. -/
theorem poisoned_once (sources : List (Source α)) (ops : List (MemoOp α)) :
    let s := (Act.attemptAll (ops.map perform) (start sources)).2
    let replies := (Act.attemptAll (ops.map perform) (start sources)).1
    let r := (Act.attemptAll (ops.map ReplaySession.perform) (ReplaySession.start sources)).2
    (∀ (i : Nat) (source : Source α), sources[i]? = some source →
      (∀ p fault, source.FailsAt p fault →
        s.GivesUp source i p fault (Forced i p ops (start sources)) ∧
        (Forced i p ops (start sources) → ∃ n op, ops[n]? = some op ∧
          ¬ Forced i p (ops.take n) (start sources) ∧
          Forces i p op (Act.attemptAll ((ops.take n).map perform) (start sources)).2 ∧
          replies[n]? = some (.error fault) ∧
          ∀ k e, k ≠ n → replies[k]? = some (.error e) →
            e = .memoFailed ∨ RaisedElsewhere sources i ops e)) ∧
      s.Undisturbed source i) ∧
    ∀ (i : Nat) (q : Replayed α), r.shelf[i]? = some q → s.ReadsOn q.source i := by
  intro s replies r
  have hmirrors := mirrors_attemptAll (mirrors_start sources) ops
  refine ⟨fun i source hi => ?_, fun i q hq => (hmirrors.reached hq).readsOn⟩
  have hreached : s.Reached (.source source) source i := reached_run hi ops
  refine ⟨fun p fault hsource => ⟨?_, fun hforced => ?_⟩, hreached.undisturbed⟩
  · have hstart : (start sources).store.Watched (fun _ => True) source i (Memo.Healthy p) :=
      watched_start hi fun _ _ _ _ _ _ _ => trivial
    obtain ⟨hpoisoned, hhealthy⟩ := run_of_healthy hsource trivial (fun _ _ _ _ => trivial) hstart
    exact hreached.givesUp hsource hhealthy hpoisoned
  · have hstart : (start sources).store.Watched
        (fun e => e = .memoFailed ∨ RaisedElsewhere sources i ops e) source i (Memo.Healthy p) :=
      watched_start hi fun j other k e hj hother he => .inr (.inl ⟨j, other, k, hj, hother, he⟩)
    exact exists_first hsource (.inl rfl) (fun op hop e he => .inr (.inr ⟨op, hop, he⟩)) hstart
      hforced

theorem poisoned_once_of_script :
    let source : Source Nat := .ofScript [.item 4, .fail "boom"]
    let s := (Act.attemptAll ([.get 0 3].map perform) (start [source])).2
    [source][0]? = some source ∧ source.FailsAt 1 (.raised "boom") ∧
    Forced 0 1 [.get 0 3] (start [source]) ∧
    s.GivesUp source 0 1 (.raised "boom") (Forced 0 1 [.get 0 3] (start [source])) ∧
    s.Undisturbed source 0 := by
  intro source s
  have hi : [source][0]? = some source := rfl
  have hsource : source.FailsAt 1 (.raised "boom") := by
    refine ⟨fun k hk => ⟨4, ?_⟩, rfl⟩
    obtain rfl := Nat.lt_one_iff.1 hk
    rfl
  have hstart : Reached (.source source) source 0 (start [source]) := reached_run hi []
  have hstands : (start [source]).stands? (.handle 0 3) = some (0, 3) := by
    simp [stands?, start, memo?]
  have hforced : Forced 0 1 [.get 0 3] (start [source]) :=
    .inl ((hstart.forces_ask hsource hstands).2 (by decide))
  obtain ⟨hsources, -⟩ := poisoned_once [source] [.get 0 3]
  obtain ⟨hfails, hundisturbed⟩ := hsources 0 source hi
  exact ⟨hi, hsource, hforced, (hfails 1 _ hsource).1, hundisturbed⟩

end MemoSession

end Streamkit
