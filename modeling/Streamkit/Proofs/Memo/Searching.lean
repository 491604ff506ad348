import Streamkit.Proofs.Memo.Forcing
import Streamkit.Proofs.Memo.Reached
import Streamkit.Proofs.Searching

/-!
# Searches of memos

A search of a memo tests what a search of the sequence tests that the memo replays, whatever the
memo has read before; forcing a position tests nothing (`MemoStore.Yields.tested_eq`), so that the
store has noted the same tests each time. The invariant of the search is `Testing`: the traversal
has been called as often as a reading of the sequence, and the items turned down so far have been
noted.
-/

namespace Streamkit

variable {α : Type}

/-- The item of a test. -/
def MemoEvent.tested? : MemoEvent α → Option α
  | .tested a => some a
  | _ => none

/-- The items that were tested, in order. -/
def MemoStore.tested (s : MemoStore α) : List α := s.trace.toList.filterMap MemoEvent.tested?

/-! ## What was tested -/

namespace MemoStore

theorem tested_note (s : MemoStore α) (e : MemoEvent α) :
    (s.note e).tested = s.tested ++ e.tested?.toList := by
  simp only [tested, note, Array.toList_push, List.filterMap_append]
  cases h : e.tested? <;> simp [h]

theorem tested_settled (s : MemoStore α) (i : Nat) (x : Except Fault (Option α)) :
    (s.settled i x).tested = s.tested := by
  rcases x with e | _ | a
  · rfl
  · rw [settled, tested_note]
    exact List.append_nil _
  · rfl

theorem Yields.tested_eq {i k : Nat} {s t : MemoStore α} {x : Except Fault (Option α)}
    (h : Yields i k s x t) : t.tested = s.tested := by
  induction h with
  | absent | item | ended | failed => rfl
  | source | dangling => exact tested_settled ..
  | mapped hm ho hlt h ih =>
    rw [tested_settled, tested_note, ih]
    exact List.append_nil _
  | stopped hm ho hlt h hx ih =>
    rw [tested_settled, ih]
    rfl

end MemoStore

theorem MemoIter.tested_next {p p' : MemoIter × MemoStore α} {x : Option α}
    (h : MemoIter.next p = .ok x p') : p'.2.tested = p.2.tested := by
  obtain ⟨it, s⟩ := p
  simp only [MemoIter.next] at h
  split at h
  · cases h
    rfl
  · rcases hforce : s.force it.memo it.position with ⟨_ | a, s'⟩ | ⟨e, s'⟩
    all_goals
      rw [hforce] at h
      cases h
    · exact (MemoStore.yields_of_ok hforce).tested_eq
    · exact (MemoStore.yields_of_ok hforce).tested_eq

/-! ## What is read -/

namespace Source

variable {source : Source α} {items : List α}

theorem Starts.replay_eq (h : source.Starts items) : ∀ {k : Nat}, k ≤ items.length →
    source.replay k = source.answer k
  | 0, _ => rfl
  | k + 1, hk => by
    have hitem : source.replay k = .ok (some items[k]) := by
      rw [h.replay_eq (Nat.le_of_succ_le hk), h k hk, List.getElem?_eq_getElem hk]
    exact source.replay_succ_of_item hitem

theorem Starts.itemsWithin_eq (h : source.Starts items) :
    source.itemsWithin items.length = items.length := by
  refine Nat.le_antisymm (source.itemsWithin_le _) ?_
  refine source.le_itemsWithin (Nat.le_refl _) fun k hk => ⟨items[k], ?_⟩
  rw [h.replay_eq (Nat.le_of_lt hk), h k hk, List.getElem?_eq_getElem hk]

/-- The polls of a search make the items known that it tests, and no others. -/
theorem Search.itemsWithin_eq {τ : Type} {test : α → Act τ Bool} {t t' : τ} {tested : List α}
    {reply : Except Fault (Maybe α)} (h : source.Search test t tested reply t') :
    source.itemsWithin (searchPolls tested reply) = tested.length := by
  cases h with
  | found starts rejects passes => exact starts.itemsWithin_eq
  | gaveUp starts rejects fails => exact starts.itemsWithin_eq
  | missed gives rejects =>
    have hend : source.replay tested.length = .ok none := by
      rw [gives.starts.replay_eq (Nat.le_refl _), gives _ (Nat.le_refl _),
        List.getElem?_eq_none (Nat.le_refl _)]
    exact (source.within_succ_of_end hend).1.trans gives.starts.itemsWithin_eq

end Source

/-! ## Searching -/

namespace MemoSession

/-- The iterator has been called `k` times over a store that follows the shelf, under the demand of
these calls; what has been tested since the `earlier` tests is in the log. -/
structure Testing (w : Shelf α) (i : Nat) (earlier : List α) (k : Nat) (t : Unit × List α)
    (p : MemoIter × MemoStore α) : Prop where
  traverses : Traverses MemoIter.At w p (⟨i, k⟩, w.raise i k)
  tested : p.2.tested = earlier ++ t.2

variable {w : Shelf α} {i : Nat} {q : Replayed α}

theorem testing_start {store : MemoStore α} (h : store.Kept w) (hq : w[i]? = some q) :
    Testing w i store.tested 0 ((), []) (.start i, store) where
  traverses := by
    rw [Shelf.raise_of_le h.sound hq (Nat.zero_le _)]
    exact ⟨h, .refl _, MemoIter.at_start hq⟩
  tested := (List.append_nil _).symm

/-- A search of a memo is a search of the sequence that it replays. -/
theorem searches_memo (hw : w.Sound) (hq : w[i]? = some q) (test : α → Except Fault Bool)
    (earlier : List α) :
    Searches q.source (noting fun a => Act.ofExcept (test a)) MemoIter.next (noteTest test)
      (Testing w i earlier) where
  next := by
    rintro items x t p hstarts hanswer ⟨htraverses, htested⟩
    have hr : Reading.Of (w.raise i items.length) ⟨i, items.length⟩ (q.raise items.length) :=
      ⟨by rw [Shelf.getElem?_raise_self, hq]; rfl, Nat.le_max_right _ _⟩
    have hstep := MemoIter.refines_next w _ _ htraverses
    rw [Reading.next_eq hr, Shelf.raise_raise hw (Nat.le_succ _)] at hstep
    rw [Replayed.raise, hstarts.replay_eq (Nat.le_refl _), hanswer] at hstep
    obtain ⟨p', hnext, hp'⟩ := hstep.exists_ok
    exact ⟨p', hnext, hp', (MemoIter.tested_next hnext).trans htested⟩
  test := by
    rintro k a ⟨it, store⟩ ⟨⟨⟩, log⟩ ⟨⟨hkept, hgrows, hat⟩, htested⟩
    have hnoted : Testing w i earlier k ((), log ++ [a]) (it, store.note (.tested a)) := by
      refine ⟨⟨MemoStore.Kept.note hkept fun _ => rfl, hgrows, hat⟩, ?_⟩
      dsimp only at htested ⊢
      rw [MemoStore.tested_note, htested, List.append_assoc]
      rfl
    show Act.Agree _ _ (Act.ofExcept (test a) (it, store.note (.tested a))) _
    simp only [noting]
    cases test a with
    | ok b => exact ⟨rfl, hnoted⟩
    | error e => exact ⟨rfl, hnoted⟩

theorem attempt_perform_findFirst {s : MemoSession α} {handle : Nat}
    (hhandle : s.memo? handle = some i) {test : α → Except Fault Bool}
    {reply : Except Fault (Maybe α)} {it : MemoIter} {store : MemoStore α}
    (hrun : (findFirst MemoIter.next (noteTest test) maxSize).attempt (.start i, s.store) =
      (reply, it, store)) :
    (perform (.findFirst handle test)).attempt s = (reply.map .item, { s with store }) := by
  rw [perform, Act.attempt, withMemo_of_some hhandle]
  simp only [onStore, Functor.map, EStateM.map, MemoStore.traverse]
  rw [Act.attempt] at hrun
  cases hresult : findFirst MemoIter.next (noteTest test) maxSize (.start i, s.store) with
  | ok a p =>
    rw [hresult] at hrun
    cases hrun
    rfl
  | error e p =>
    rw [hresult] at hrun
    cases hrun
    rfl

/-- The search of memo `i`, which was `m` before and is `m'` afterwards, has tested items and read
no others. -/
structure SearchedMemo (s : MemoSession α) (i : Nat) (tested : List α)
    (reply : Except Fault (Maybe α)) (result : Except Fault (MemoReply α) × MemoSession α)
    (m m' : Memo α) : Prop where
  before : s.store.memos[i]? = some m
  after : result.2.store.memos[i]? = some m'
  replies : result.1 = reply.map .item
  tests : result.2.store.tested = s.store.tested ++ tested
  evaluated : m'.evaluated = max m.evaluated tested.length

/-- A search of a memo, whatever it has read before. -/
theorem Reached.attempt_findFirst {origin : MemoOrigin α} {source : Source α} {s : MemoSession α}
    (h : s.Reached origin source i) {handle : Nat} (hhandle : s.memo? handle = some i)
    {test : α → Except Fault Bool} {tested : List α} {reply : Except Fault (Maybe α)}
    (hsearch : source.Search (fun a => Act.ofExcept (test a)) () tested reply ())
    (hsize : tested.length < maxSize) : ∃ m m', s.SearchedMemo i tested reply
      ((MemoSession.perform (.findFirst handle test)).attempt s) m m' := by
  obtain ⟨r, d, hmirrors, hq⟩ := h
  have hkept := hmirrors.kept
  obtain ⟨⟨it, store⟩, hrun, ⟨hkept', -, -⟩, htested⟩ :=
    (searches_memo hkept.sound hq test s.store.tested).attempt_findFirst
      (testing_start hkept hq) (hsearch.noting []) hsize
  have hq' : (r.shelf.raise i (searchPolls tested reply))[i]? =
      some (Replayed.raise (searchPolls tested reply) ⟨origin, source, d⟩) := by
    rw [Shelf.getElem?_raise_self, hq]
    rfl
  obtain ⟨m, hm, -, hreads, -⟩ := hkept.exists_memo hq
  obtain ⟨m', hm', -, hreads', -⟩ := MemoStore.Kept.exists_memo hkept' hq'
  rw [attempt_perform_findFirst hhandle hrun]
  refine ⟨m, m', hm, hm', rfl, htested, ?_⟩
  rw [Memo.evaluated, Memo.evaluated, hreads.evaluated, hreads'.evaluated, Replayed.raise,
    source.itemsWithin_max, hsearch.itemsWithin_eq]

/-- What searches of sources and of memos come to. -/
structure TestsNoMore (α σ τ : Type) : Prop where
  source : ∀ (source : Source α) (test : α → Act τ Bool) (t : τ), source.SearchedBy test t
  head : ∀ source : Source α, (first Counted.poll).attempt (.ofSource source) =
    ((source.answer 0).map Maybe.ofOption, ⟨source, 1⟩)
  filtered : ∀ (next : Act σ (Option α)) (test : α → Act σ Bool) (limit : Nat),
    findFirst next test limit = first (nextPassing next test limit)
  unfiltered : ∀ (next : Act σ (Option α)) (limit : Nat),
    findFirst next (fun _ => pure true) (limit + 1) = first next
  passing : ∀ (source : Source α) (items : List α) (p : α → Bool) (limit n : Nat),
    source.Gives items → items.length < limit → items.length < n →
    pull (nextPassing Counted.poll (fun a => pure (p a)) limit) n (.ofSource source) =
      .ok ⟨(items.filter p).toArray, true⟩ ⟨source, items.length + 1⟩
  reached : ∀ (sources : List (Source α)) (ops : List (MemoOp α)) (i : Nat) (source : Source α),
    sources[i]? = some source →
    Reached (.source source) source i (Act.attemptAll (ops.map perform) (start sources)).2
  /-- Whatever is done to the session, the memo can be searched again. -/
  again : ∀ (origin : MemoOrigin α) (source : Source α) (i : Nat) (s : MemoSession α),
    s.Reached origin source i → ∀ op, Reached origin source i ((perform op).attempt s).2
  memo : ∀ (origin : MemoOrigin α) (source : Source α) (i : Nat) (s : MemoSession α),
    s.Reached origin source i → ∀ handle test tested reply, s.memo? handle = some i →
    source.Search (fun a => Act.ofExcept (test a)) () tested reply () → tested.length < maxSize →
    ∃ m m', s.SearchedMemo i tested reply ((perform (.findFirst handle test)).attempt s) m m'

/-- A search tests the items up to the first that passes or makes the test give up, or else all
items, once each and in order, and asks for no others; it asks once for each test, and once more for
the end if nothing has passed. It gives the first item of the filtered sequence, and the first item
if everything passes. On a memo it does the same however much the memo has read before, and the memo
has then read the items that were tested, if it had read fewer. -/
theorem search_tests_no_more {σ τ : Type} : TestsNoMore α σ τ where
  source source test t := source.searchedBy test t
  head source := source.attempt_first
  filtered := findFirst_eq_first
  unfiltered := findFirst_of_passes
  passing _ _ p _ _ hgives hlimit hn := pull_nextPassing hgives p hlimit hn
  reached _ ops _ _ hi := reached_run hi ops
  again _ _ _ _ h := h.perform
  memo _ _ _ _ h _ _ _ _ hhandle hsearch hsize := h.attempt_findFirst hhandle hsearch hsize

/-- The first even number of a list, of the list and of a memo of it. -/
theorem search_tests_no_more_of_list :
    let source := Source.ofList [1, 3, 4, 5]
    let test : Nat → Except Fault Bool := fun a => .ok (a % 2 == 0)
    let s := start [source]
    let result := (perform (.findFirst 0 test)).attempt s
    source.Search (fun a => (Act.ofExcept (test a) : Act Unit Bool)) () [1, 3, 4]
        (.ok (.present 4)) () ∧
      (findFirst (Act.onFst Counted.poll)
          (fun a => Act.onSnd (noting (fun a => Act.ofExcept (test a)) a)) 9).attempt
          (.ofSource source, (), []) =
        (.ok (.present 4), ⟨source, 3⟩, (), [1, 3, 4]) ∧
      s.Reached (.source source) source 0 ∧ s.memo? 0 = some 0 ∧
      result.1 = .ok (.item (.present 4)) ∧ result.2.store.tested = [1, 3, 4] := by
  intro source test s result
  have hgives := Source.gives_ofList [1, 3, 4, 5]
  have hstarts : source.Starts ([1, 3] ++ [4]) := hgives.starts.of_append
  have hsearch : source.Search (fun a => (Act.ofExcept (test a) : Act Unit Bool)) () [1, 3, 4]
      (.ok (.present 4)) () :=
    .found hstarts ⟨(), rfl, (), rfl, rfl⟩ rfl
  have hhandle : s.memo? 0 = some 0 := by simp [s, start, memo?]
  have hall := search_tests_no_more (α := Nat) (σ := Unit) (τ := Unit)
  have hreached := hall.reached [source] [] 0 source rfl
  obtain ⟨_, _, hmemo⟩ :=
    hall.memo _ source 0 s hreached 0 test [1, 3, 4] (.ok (.present 4)) hhandle hsearch (by decide)
  exact ⟨hsearch, (hall.source source _ ()).attempt _ _ _ 9 hsearch (by decide), hreached, hhandle,
    hmemo.replies, hmemo.tests⟩

end MemoSession

end Streamkit
