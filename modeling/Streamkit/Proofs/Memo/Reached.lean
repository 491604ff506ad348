import Streamkit.Proofs.Memo.Standing

/-!
# How far a memo has read

However a session has come about, what a memo of it knows is determined by how often the memo has
polled (`MemoSession.Reached.memo_eq`), and asking for position `k` makes the memo poll as often as
it takes to know the first `k + 1` positions, if it has polled less
(`MemoSession.Reached.polls_ask`). So any operation does to the memo what a traversal does that
stops at the last position that the operation has polled for (`MemoSession.Reached.read_last`,
`MemoSession.Reached.ask_last`), whatever has ended the operation.
-/

namespace Streamkit

variable {α : Type}

namespace MemoSession

variable {origin : MemoOrigin α} {source : Source α} {i k : Nat} {s s' : MemoSession α}
  {m m' : Memo α} {a : Asker}

/-- The session reads the sequence of the source through memo `i`, which has the origin. -/
def Reached (origin : MemoOrigin α) (source : Source α) (i : Nat) (s : MemoSession α) : Prop :=
  ∃ (r : ReplaySession α) (d : Nat), Mirrors r.shelf s r ∧ r.shelf[i]? = some ⟨origin, source, d⟩

theorem Mirrors.reached {w₀ : Shelf α} {r : ReplaySession α} {q : Replayed α}
    (h : Mirrors w₀ s r) (hq : r.shelf[i]? = some q) : s.Reached q.origin q.source i :=
  ⟨r, q.demand, { h with grown := .refl _ }, hq⟩

theorem reached_run {sources : List (Source α)} (hi : sources[i]? = some source)
    (ops : List (MemoOp α)) :
    Reached (.source source) source i (Act.attemptAll (ops.map perform) (start sources)).2 := by
  obtain ⟨d, hq⟩ := exists_replayed_source sources ops hi
  exact (mirrors_attemptAll (mirrors_start sources) ops).reached hq

/-! ## Traversals -/

section Traversals

variable {w₀ : Shelf α} {r : ReplaySession α} {q : Replayed α} (h : Mirrors w₀ s r)
  (hq : r.shelf[i]? = some q)

include h hq

theorem Mirrors.iter_place {x : Nat} {it : MemoIter} (hx : s.iters[x]? = some it)
    (hi : it.memo = i) : ∃ rd, r.iters[x]? = some rd ∧ rd.memo = i ∧ rd.calls ≤ q.demand ∧
      q.source.Place rd.calls it.position it.finished := by
  rcases h.iters.cases x with ⟨hnone, -⟩ | ⟨it', rd, hx', hrd, hat⟩
  · exact nomatch hx.symm.trans hnone
  · obtain rfl := Option.some.inj (hx.symm.trans hx')
    obtain ⟨q', ⟨hq', hcalls⟩, hplace⟩ := hat.place
    rw [← hat.memo, hi, hq] at hq'
    obtain rfl := Option.some.inj hq'
    exact ⟨rd, hrd, hat.memo ▸ hi, hcalls, hplace⟩

theorem Mirrors.cursor_place {x : Nat} {c : MemoCursor} (hx : (s.cursors[x]?).join = some c)
    (hi : c.memo = i) : ∃ rd, (r.cursors[x]?).join = some rd ∧ rd.memo = i ∧
      rd.calls ≤ q.demand ∧ q.source.Place rd.calls c.position c.atEnd := by
  rcases h.cursor_cases x with ⟨hnone, -⟩ | ⟨c', rd, hx', hrd, hat⟩
  · exact nomatch hx.symm.trans hnone
  · obtain rfl := Option.some.inj (hx.symm.trans hx')
    obtain ⟨q', ⟨hq', hcalls⟩, hplace⟩ := hat.place
    rw [← hat.memo, hi, hq] at hq'
    obtain rfl := Option.some.inj hq'
    exact ⟨rd, hrd, hat.memo ▸ hi, hcalls, hplace⟩

/-- What an asker finds in its sequence is what is at the position that it stands at. -/
theorem Mirrors.exists_reading (ha : s.stands? a = some (i, k)) :
    ∃ rd, r.reading? a = some rd ∧ rd.memo = i ∧
      q.source.replay rd.calls = q.source.replay k ∧
      q.source.pollsWithin (rd.calls + 1) = q.source.pollsWithin (k + 1) := by
  cases a with
  | handle m k' =>
    obtain ⟨j, hj, hjk⟩ := Option.map_eq_some_iff.1 ha
    cases hjk
    rw [h.memo?_eq] at hj
    exact ⟨⟨i, k⟩, Option.map_eq_some_iff.2 ⟨i, hj, rfl⟩, rfl, rfl, rfl⟩
  | iter x =>
    obtain ⟨it, hx, hik⟩ := Option.map_eq_some_iff.1 ha
    cases hik
    obtain ⟨rd, hrd, hmemo, -, hplace⟩ := h.iter_place hq hx rfl
    exact ⟨rd, hrd, hmemo, q.source.alike_of_itemsWithin hplace.position.symm⟩
  | cursor x =>
    obtain ⟨c, hx, hck⟩ := Option.map_eq_some_iff.1 ha
    cases hck
    obtain ⟨rd, hrd, hmemo, -, hplace⟩ := h.cursor_place hq hx rfl
    exact ⟨rd, hrd, hmemo, q.source.alike_of_itemsWithin hplace.position.symm⟩

end Traversals

/-! ## Polls -/

namespace Reached

theorem exists_memo (h : s.Reached origin source i) :
    ∃ m d, s.store.memos[i]? = some m ∧ m.origin = origin ∧ m.Reads source d := by
  obtain ⟨r, d, hmirrors, hq⟩ := h
  obtain ⟨m, hm, ho, hreads, -⟩ := hmirrors.kept.exists_memo hq
  exact ⟨m, d, hm, ho, hreads⟩

theorem reads (h : s.Reached origin source i) (hm : s.store.memos[i]? = some m) :
    m.origin = origin ∧ ∃ d, m.Reads source d := by
  obtain ⟨r, d, hmirrors, hq⟩ := h
  obtain ⟨ho, hreads⟩ := hmirrors.kept.reads hq hm
  exact ⟨ho, d, hreads⟩

/-- A memo is determined by how often it has polled. -/
theorem memo_eq (h : s.Reached origin source i) (h' : s'.Reached origin source i)
    (hm : s.store.memos[i]? = some m) (hm' : s'.store.memos[i]? = some m')
    (hpolls : m.polls = m'.polls) : m = m' := by
  obtain ⟨ho, d, hreads⟩ := h.reads hm
  obtain ⟨ho', d', hreads'⟩ := h'.reads hm'
  exact hreads.eq_of_polls hreads' (ho.trans ho'.symm) hpolls

theorem perform (h : s.Reached origin source i) (op : MemoOp α) :
    Reached origin source i ((perform op).attempt s).2 := by
  obtain ⟨r, d, hmirrors, hq⟩ := h
  obtain ⟨-, hmirrors'⟩ := (refines_perform r.shelf op).attempt hmirrors
  obtain ⟨d', -, hq'⟩ := hmirrors'.grown i _ hq
  exact hmirrors'.reached hq'

/-- Polls are not forgotten. -/
theorem polls_mono (h : s.Reached origin source i) (op : MemoOp α) (hm : s.store.memos[i]? = some m)
    (hm' : ((MemoSession.perform op).attempt s).2.store.memos[i]? = some m') :
    m.polls ≤ m'.polls := by
  obtain ⟨r, d, hmirrors, hq⟩ := h
  obtain ⟨-, hmirrors'⟩ := (refines_perform r.shelf op).attempt hmirrors
  obtain ⟨d', hd, hq'⟩ := hmirrors'.grown i _ hq
  rw [(hmirrors.kept.reads hq hm).2.polls, (hmirrors'.kept.reads hq' hm').2.polls]
  exact source.pollsWithin_mono hd

/-- An asker is answered what is at its position. -/
theorem sameReply_ask (h : s.Reached origin source i) (ha : s.stands? a = some (i, k)) :
    Act.SameReply Fault.Worded ((MemoSession.perform a.ask).attempt s).1
      ((source.replay k).map fun x => .item (.ofOption x)) := by
  obtain ⟨r, d, hmirrors, hq⟩ := h
  obtain ⟨rd, hrd, rfl, hreplay, -⟩ := hmirrors.exists_reading hq ha
  have hreply := ((refines_perform r.shelf a.ask).attempt hmirrors).1
  rwa [ReplaySession.reply_ask hrd hq, hreplay] at hreply

/-- To ask for position `k` is to poll until the first `k + 1` positions are known. -/
theorem polls_ask (h : s.Reached origin source i) (ha : s.stands? a = some (i, k))
    (hm : s.store.memos[i]? = some m)
    (hm' : ((MemoSession.perform a.ask).attempt s).2.store.memos[i]? = some m') :
    m'.polls = max m.polls (source.pollsWithin (k + 1)) := by
  obtain ⟨r, d, hmirrors, hq⟩ := h
  obtain ⟨rd, hrd, rfl, -, hpolls⟩ := hmirrors.exists_reading hq ha
  obtain ⟨-, hmirrors'⟩ := (refines_perform r.shelf a.ask).attempt hmirrors
  have hq' : ((ReplaySession.perform a.ask).attempt r).2.shelf[rd.memo]? =
      some (Replayed.raise (rd.calls + 1) ⟨origin, source, d⟩) := by
    rw [ReplaySession.shelf_ask hrd hq, Shelf.getElem?_raise_self, hq, Option.map_some]
  rw [(hmirrors.kept.reads hq hm).2.polls, (hmirrors'.kept.reads hq' hm').2.polls]
  rw [Replayed.raise, source.pollsWithin_max, hpolls]

/-- So is to call a fresh iterator `k + 1` times. -/
theorem exists_read (h : s.Reached origin source i) (k : Nat) (hm : s.store.memos[i]? = some m) :
    ∃ m' d, ((MemoStore.traverse i (nth MemoIter.next k)).attempt s.store).2.memos[i]? = some m' ∧
      m'.origin = origin ∧ m'.Reads source d ∧
      m'.polls = max m.polls (source.pollsWithin (k + 1)) := by
  obtain ⟨r, d, hmirrors, hq⟩ := h
  have hi : i < r.shelf.size := (Array.getElem?_eq_some_iff.1 hq).1
  have hkept : s.store.KeptSince r.shelf r.shelf := ⟨hmirrors.kept, .refl _⟩
  obtain ⟨-, hkept', -⟩ := (MemoStore.refines_read hi k).attempt hkept
  have hshelf : ((Shelf.read i k).attempt r.shelf).2 = r.shelf.raise i (k + 1) := by
    rw [Act.attempt, Shelf.read_eq hq]
    cases source.replay k <;> rfl
  have hq' : (r.shelf.raise i (k + 1))[i]? =
      some (Replayed.raise (k + 1) ⟨origin, source, d⟩) := by
    rw [Shelf.getElem?_raise_self, hq, Option.map_some]
  rw [hshelf] at hkept'
  obtain ⟨m', hm', ho', hreads', -⟩ := hkept'.exists_memo hq'
  refine ⟨m', _, hm', ho', hreads', ?_⟩
  rw [(hmirrors.kept.reads hq hm).2.polls, hreads'.polls, Replayed.raise, source.pollsWithin_max]

section Stopped

variable (h : s.Reached origin source i) (op : MemoOp α)
  (hm' : ((MemoSession.perform op).attempt s).2.store.memos[i]? = some m')
  (hpolls : m'.polls = k + 1)

include h hm' hpolls

theorem polls_last (hm : s.store.memos[i]? = some m) :
    max m.polls (source.pollsWithin (k + 1)) = m'.polls := by
  obtain ⟨-, d, hreads⟩ := (h.perform op).reads hm'
  have hk : source.pollsWithin (k + 1) = k + 1 := by
    rw [← hpolls, hreads.polls, source.pollsWithin_pollsWithin]
  rw [hk, ← hpolls, Nat.max_eq_right (h.polls_mono op hm hm')]

/-- Any operation leaves the memo as a fresh iterator does that is called until the last position
that the operation has polled for. -/
theorem read_last : ((MemoSession.perform op).attempt s).2.store.memos[i]? =
    ((MemoStore.traverse i (nth MemoIter.next k)).attempt s.store).2.memos[i]? := by
  obtain ⟨m, -, hm, -⟩ := h.exists_memo
  obtain ⟨n, d, hn, ho, hreads, hread⟩ := h.exists_read k hm
  obtain ⟨ho', d', hreads'⟩ := (h.perform op).reads hm'
  rw [hm', hn, hreads'.eq_of_polls hreads (ho'.trans ho.symm)
    ((h.polls_last op hm' hpolls hm).symm.trans hread.symm)]

theorem ask_last (ha : s.stands? a = some (i, k)) :
    ((MemoSession.perform op).attempt s).2.store.memos[i]? =
      ((MemoSession.perform a.ask).attempt s).2.store.memos[i]? := by
  obtain ⟨m, -, hm, -⟩ := h.exists_memo
  obtain ⟨n, -, hn, -⟩ := (h.perform a.ask).exists_memo
  have hask := h.polls_ask ha hm hn
  rw [hm', hn, (h.perform op).memo_eq (h.perform a.ask) hm' hn
    ((h.polls_last op hm' hpolls hm).symm.trans hask.symm)]

end Stopped

end Reached

end MemoSession

end Streamkit
