import Streamkit.Proofs.Memo.Session

/-!
# Polls and demands

However the operations on a memo are mixed, its source has been polled `min (length + 1) d` times
and `min length d` items are known, where `d` is the largest demand so far: `k + 1` for the call of
a traversal that `k` calls precede, `i + 1` for the item at position `i`
(`MemoSession.polls_of_demand`). Operations that only look or only handle handles poll nothing.
-/

namespace Streamkit

variable {α : Type}

/-- The operation asks for no item. -/
def MemoOp.isQuiet : MemoOp α → Bool
  | evaluated _ | isExhausted _ | debug _ | clone _ | drop _ | iter _ | cursor _ | intoCursor _
  | iterClone _ | iterDebug _ | cursorClone _ | cursorDrop _ | cursorDebug _ => true
  | _ => false

namespace MemoSession

/-- Memo `i`, which is `m`, has read of its source what a demand of `d` positions asks for, and
every handle on it says so. -/
structure Counts (s : MemoSession α) (i : Nat) (m : Memo α) (source : Source α) (d : Nat) :
    Prop where
  polls : (m.polls : ℕ∞) = min (source.length + 1) d
  evaluated : (m.evaluated : ℕ∞) = min source.length d
  exhausted : m.isExhausted ↔ ∃ k < m.polls, source.answer k = .ok none
  endings : s.store.endings i = if m.isExhausted then 1 else 0
  replies : ∀ handle, s.memo? handle = some i →
    (perform (.evaluated handle)).attempt s = (.ok (.number m.evaluated), s) ∧
    (perform (.isExhausted handle)).attempt s = (.ok (.truth m.isExhausted), s)

theorem perform_inspect {s : MemoSession α} {handle i : Nat} {m : Memo α}
    (hi : s.memo? handle = some i) (hm : s.store.memos[i]? = some m)
    (look : Memo α → MemoReply α) :
    (withMemo handle fun i => inspect i look).attempt s = (.ok (look m), s) := by
  rw [Act.attempt, withMemo_of_some hi, inspect_of_some hm]

theorem Mirrors.counts {w₀ : Shelf α} {s : MemoSession α} {r : ReplaySession α}
    (h : Mirrors w₀ s r) {i : Nat}
    {q : Replayed α} (hq : r.shelf[i]? = some q) :
    ∃ m, s.store.memos[i]? = some m ∧ s.Counts i m q.source q.demand := by
  obtain ⟨m, hm, -, hreads, hends⟩ := h.kept.exists_memo hq
  have hexhausted : m.isExhausted ↔ q.source.statusWithin q.demand = .ended := by
    rw [Memo.isExhausted, hreads.status, beq_iff_eq]
  refine ⟨m, hm, ?_, ?_, ?_, hends, fun handle hi => ⟨?_, ?_⟩⟩
  · rw [hreads.polls, q.source.coe_pollsWithin]
  · rw [Memo.evaluated, hreads.evaluated, q.source.coe_itemsWithin]
  · rw [hexhausted, hreads.polls, q.source.ended_iff_polled]
  · exact perform_inspect hi hm fun memo => .number memo.evaluated
  · exact perform_inspect hi hm fun memo => .truth memo.isExhausted

/-! ## Quiet operations -/

section Quiet

variable (s : MemoSession α)

theorem store_withMemo (handle : Nat) {act : Nat → Act (MemoSession α) (MemoReply α)}
    (hact : ∀ i, ((act i).attempt s).2.store = s.store) :
    ((withMemo handle act).attempt s).2.store = s.store := by
  cases hi : s.memo? handle with
  | none =>
    rw [Act.attempt, withMemo_of_none hi]
  | some i =>
    rw [Act.attempt, withMemo_of_some hi]
    exact hact i

theorem store_inspect (i : Nat) (look : Memo α → MemoReply α) :
    ((inspect i look).attempt s).2.store = s.store := by
  simp only [Act.attempt, inspect, Act.get_bind]
  cases s.store.memos[i]? <;> rfl

theorem store_perform {op : MemoOp α} (hop : op.isQuiet) :
    ((perform op).attempt s).2.store = s.store := by
  cases op with
  | evaluated m => exact store_withMemo s m fun i => store_inspect s i _
  | isExhausted m => exact store_withMemo s m fun i => store_inspect s i _
  | debug m => exact store_withMemo s m fun i => store_inspect s i _
  | clone m => exact store_withMemo s m fun i => rfl
  | drop m => exact store_withMemo s m fun i => rfl
  | iter m => exact store_withMemo s m fun i => rfl
  | cursor m => exact store_withMemo s m fun i => rfl
  | intoCursor m => exact store_withMemo s m fun i => rfl
  | iterClone i =>
    simp only [Act.attempt, perform, Act.get_bind]
    cases s.iters[i]? <;> rfl
  | iterDebug i =>
    simp only [Act.attempt, perform, withIter]
    cases s.iters[i]? <;> rfl
  | cursorClone c =>
    simp only [Act.attempt, perform, Act.get_bind]
    cases (s.cursors[c]?).join <;> rfl
  | cursorDrop c => rfl
  | cursorDebug c =>
    simp only [Act.attempt, perform, withCursor]
    cases (s.cursors[c]?).join <;> rfl
  | _ => cases hop

end Quiet

/-- After any operations each source has been polled for the largest demand on it, and no further
than its end; and a quiet operation changes nothing of this. -/
theorem polls_of_demand (sources : List (Source α)) (ops : List (MemoOp α)) :
    let s := (Act.attemptAll (ops.map perform) (start sources)).2
    let r := (Act.attemptAll (ops.map ReplaySession.perform) (ReplaySession.start sources)).2
    (∀ (i : Nat) (source : Source α), sources[i]? = some source →
      ∃ d, r.shelf[i]? = some ⟨.source source, source, d⟩) ∧
    (∀ (i : Nat) (q : Replayed α), r.shelf[i]? = some q →
      ∃ m, s.store.memos[i]? = some m ∧ s.Counts i m q.source q.demand) ∧
    ∀ op : MemoOp α, op.isQuiet → ((perform op).attempt s).2.store = s.store := by
  intro s r
  have hmirrors := mirrors_attemptAll (mirrors_start sources) ops
  exact ⟨fun i source hi => exists_replayed_source sources ops hi, fun i q hq => hmirrors.counts hq,
    fun op => store_perform s⟩

theorem polls_of_demand_of_script :
    let source : Source Nat := .ofScript [.item 4, .item 7, .stop, .item 9]
    let s := (Act.attemptAll ([.get 0 5].map perform) (start [source])).2
    (∃ m, s.store.memos[0]? = some m ∧ s.Counts 0 m source 6) ∧
    (MemoOp.isExhausted 0 : MemoOp Nat).isQuiet ∧
    ((perform (.isExhausted 0)).attempt s).2.store = s.store := by
  intro source s
  have hmemo : (ReplaySession.start [source]).memo? 0 = some 0 := by
    simp [ReplaySession.start, ReplaySession.memo?]
  have hdemand : (Act.attemptAll ([.get 0 5].map ReplaySession.perform)
      (ReplaySession.start [source])).2.shelf[0]? = some ⟨.source source, source, 6⟩ := by
    simp only [List.map_cons, List.map_nil, Act.attemptAll, Act.attempt, ReplaySession.perform,
      ReplaySession.withMemo, hmemo]
    show (Shelf.raise 0 6 #[⟨.source source, source, 0⟩])[0]? = _
    rw [Shelf.raise_source rfl rfl]
    rfl
  obtain ⟨-, hcounts, hquiet⟩ := polls_of_demand [source] [.get 0 5]
  exact ⟨hcounts 0 _ hdemand, rfl, hquiet (.isExhausted 0) rfl⟩

end MemoSession

end Streamkit
