import Streamkit.Proofs.Memo.Independence
import Streamkit.Proofs.Merge.Transfer

/-!
# Sessions replay

A session with memos gives, operation by operation, the replies of the session on the fixed
sequences of its sources, and a handle that is left alone is answered from its place in its sequence
whatever happens to the others: `MemoSession.replies_replay`. The invariant is
`MemoSession.Mirrors`: the store follows the shelf, and every traversal has been called as often as
its reading.
-/

namespace Streamkit

variable {α β : Type}

/-- Arrays of the same size with related entries. -/
structure Aligned {γ δ : Type} (R : γ → δ → Prop) (xs : Array γ) (ys : Array δ) : Prop where
  size : xs.size = ys.size
  entry : ∀ (i : Nat) (x : γ) (y : δ), xs[i]? = some x → ys[i]? = some y → R x y

namespace Aligned

variable {γ δ : Type} {R : γ → δ → Prop} {xs : Array γ} {ys : Array δ}

theorem empty : Aligned R #[] #[] := ⟨rfl, fun _ _ _ h => by cases h⟩

theorem mono (h : Aligned R xs ys) {R' : γ → δ → Prop} (hR : ∀ x y, R x y → R' x y) :
    Aligned R' xs ys :=
  ⟨h.size, fun i x y hx hy => hR x y (h.entry i x y hx hy)⟩

/-- Either there is an entry on both sides or on neither. -/
theorem cases (h : Aligned R xs ys) (i : Nat) :
    xs[i]? = none ∧ ys[i]? = none ∨ ∃ x y, xs[i]? = some x ∧ ys[i]? = some y ∧ R x y := by
  have hsize := h.size
  rcases Nat.lt_or_ge i xs.size with hi | hi
  · have hx := Array.getElem?_eq_getElem hi
    have hy := Array.getElem?_eq_getElem (hsize ▸ hi)
    exact .inr ⟨_, _, hx, hy, h.entry i _ _ hx hy⟩
  · exact .inl ⟨Array.getElem?_eq_none hi, Array.getElem?_eq_none (hsize ▸ hi)⟩

theorem push (h : Aligned R xs ys) {x : γ} {y : δ} (hxy : R x y) :
    Aligned R (xs.push x) (ys.push y) where
  size := by rw [Array.size_push, Array.size_push, h.size]
  entry i x' y' hx hy := by
    rw [Array.getElem?_push] at hx hy
    rw [← h.size] at hy
    split at hx
    · rename_i hi
      rw [if_pos hi] at hy
      cases hx
      cases hy
      exact hxy
    · rename_i hi
      rw [if_neg hi] at hy
      exact h.entry i x' y' hx hy

theorem setIfInBounds (h : Aligned R xs ys) (j : Nat) {x : γ} {y : δ} (hxy : R x y) :
    Aligned R (xs.setIfInBounds j x) (ys.setIfInBounds j y) where
  size := by rw [Array.size_setIfInBounds, Array.size_setIfInBounds, h.size]
  entry i x' y' hx hy := by
    rw [Array.getElem?_setIfInBounds] at hx hy
    rw [← h.size] at hy
    split at hx
    · rename_i hij
      rw [if_pos hij] at hy
      split at hx
      · rename_i hj
        rw [if_pos hj] at hy
        cases hx
        cases hy
        exact hxy
      · cases hx
    · rename_i hij
      rw [if_neg hij] at hy
      exact h.entry i x' y' hx hy

end Aligned

namespace MemoSession

/-- The session has come to where the session on fixed sequences has, whose shelf was once `w₀`. -/
structure Mirrors (w₀ : Shelf α) (s : MemoSession α) (r : ReplaySession α) : Prop where
  grown : Shelf.Grows w₀ r.shelf
  kept : s.store.Kept r.shelf
  handles : s.handles = r.handles
  there : ∀ h i, r.memo? h = some i → i < r.shelf.size
  iters : Aligned (MemoIter.At r.shelf) s.iters r.iters
  cursors : Aligned (Option.Rel (MemoCursor.At r.shelf)) s.cursors r.cursors

/-! ## Reaching the parts of a session -/

section Parts

variable {w₀ : Shelf α} {s : MemoSession α} {r : ReplaySession α}

theorem withMemo_of_none {handle : Nat} (h : s.memo? handle = none)
    (act : Nat → Act (MemoSession α) (MemoReply α)) : withMemo handle act s = .ok .noHandle s := by
  rw [withMemo, Act.get_bind, h]
  rfl

theorem withMemo_of_some {handle i : Nat} (h : s.memo? handle = some i)
    (act : Nat → Act (MemoSession α) (MemoReply α)) : withMemo handle act s = act i s := by
  rw [withMemo, Act.get_bind, h]

theorem inspect_of_some {i : Nat} {m : Memo α} (h : s.store.memos[i]? = some m)
    (look : Memo α → MemoReply α) : inspect i look s = .ok (look m) s := by
  rw [inspect, Act.get_bind, h]
  rfl

theorem Mirrors.memo?_eq (h : Mirrors w₀ s r) : s.memo? = r.memo? := funext fun handle => by
  rw [memo?, ReplaySession.memo?, h.handles]

theorem Mirrors.grow (h : Mirrors w₀ s r) {store : MemoStore α} {shelf : Shelf α}
    (hstore : store.KeptSince r.shelf shelf) :
    Mirrors w₀ { s with store } { r with shelf } where
  grown := h.grown.trans hstore.2
  kept := hstore.1
  handles := h.handles
  there handle i hi := hstore.2.lt_size (h.there handle i hi)
  iters := h.iters.mono fun _ _ hat => hat.grows hstore.2
  cursors := h.cursors.mono fun _ _ hat => by
    cases hat with
    | some hat => exact .some (hat.grows hstore.2)
    | none => exact .none

theorem agree_onStore (h : Mirrors w₀ s r) {act : Act (MemoStore α) β} {act' : Act (Shelf α) β}
    (hact : Act.Refines Fault.Worded (MemoStore.KeptSince r.shelf) act act') :
    Act.Agree Fault.Worded (Mirrors w₀) (onStore act s) (ReplaySession.onShelf act' r) := by
  simp only [onStore, ReplaySession.onShelf]
  refine (hact s.store r.shelf ⟨h.kept, .refl _⟩).elim ?_ ?_
  · exact fun b store shelf hstore => ⟨rfl, h.grow hstore⟩
  · exact fun e f store shelf he hstore => ⟨he, h.grow hstore⟩

theorem agree_withMemo (h : Mirrors w₀ s r) (handle : Nat)
    {act : Nat → Act (MemoSession α) (MemoReply α)}
    {act' : Nat → Act (ReplaySession α) (MemoReply α)}
    (hact : ∀ i < r.shelf.size, Act.Agree Fault.Worded (Mirrors w₀) (act i s) (act' i r)) :
    Act.Agree Fault.Worded (Mirrors w₀) (withMemo handle act s)
      (ReplaySession.withMemo handle act' r) := by
  rw [ReplaySession.withMemo, ← h.memo?_eq]
  cases hi : s.memo? handle with
  | none =>
    rw [withMemo_of_none hi]
    exact ⟨rfl, h⟩
  | some i =>
    rw [withMemo_of_some hi]
    exact hact i (h.there handle i (h.memo?_eq ▸ hi))

theorem agree_withIter (h : Mirrors w₀ s r) (iter : Nat)
    {act : Act (MemoIter × MemoStore α) (MemoReply α)}
    {act' : Act (Reading × Shelf α) (MemoReply α)}
    (hact : Act.Refines Fault.Worded (Traverses MemoIter.At r.shelf) act act') :
    Act.Agree Fault.Worded (Mirrors w₀) (withIter iter act s)
      (ReplaySession.withIter iter act' r) := by
  simp only [withIter, ReplaySession.withIter]
  rcases h.iters.cases iter with ⟨hs, hr⟩ | ⟨it, rd, hs, hr, hat⟩
  · rw [hs, hr]
    exact ⟨rfl, h⟩
  · rw [hs, hr]
    dsimp only
    refine (hact (it, s.store) (rd, r.shelf) ⟨h.kept, .refl _, hat⟩).elim ?_ ?_
    · rintro b ⟨it, store⟩ ⟨rd, shelf⟩ ⟨hkept, hgrows, hat⟩
      have hgrown := h.grow ⟨hkept, hgrows⟩
      exact ⟨rfl, { hgrown with iters := hgrown.iters.setIfInBounds iter hat }⟩
    · rintro e f ⟨it, store⟩ ⟨rd, shelf⟩ he ⟨hkept, hgrows, hat⟩
      have hgrown := h.grow ⟨hkept, hgrows⟩
      exact ⟨he, { hgrown with iters := hgrown.iters.setIfInBounds iter hat }⟩

theorem Mirrors.cursor_cases (h : Mirrors w₀ s r) (cursor : Nat) :
    (s.cursors[cursor]?).join = none ∧ (r.cursors[cursor]?).join = none ∨
    ∃ c rd, (s.cursors[cursor]?).join = some c ∧ (r.cursors[cursor]?).join = some rd ∧
      c.At r.shelf rd := by
  rcases h.cursors.cases cursor with ⟨hs, hr⟩ | ⟨c, rd, hs, hr, hat⟩
  · exact .inl ⟨by rw [hs]; rfl, by rw [hr]; rfl⟩
  · rw [hs, hr]
    cases hat with
    | none => exact .inl ⟨rfl, rfl⟩
    | some hat => exact .inr ⟨_, _, rfl, rfl, hat⟩

theorem agree_withCursor (h : Mirrors w₀ s r) (cursor : Nat)
    {act : Act (MemoCursor × MemoStore α) (MemoReply α)}
    {act' : Act (Reading × Shelf α) (MemoReply α)}
    (hact : Act.Refines Fault.Worded (Traverses MemoCursor.At r.shelf) act act') :
    Act.Agree Fault.Worded (Mirrors w₀) (withCursor cursor act s)
      (ReplaySession.withCursor cursor act' r) := by
  simp only [withCursor, ReplaySession.withCursor]
  rcases h.cursor_cases cursor with ⟨hs, hr⟩ | ⟨c, rd, hs, hr, hat⟩
  · rw [hs, hr]
    exact ⟨rfl, h⟩
  · rw [hs, hr]
    dsimp only
    refine (hact (c, s.store) (rd, r.shelf) ⟨h.kept, .refl _, hat⟩).elim ?_ ?_
    · rintro b ⟨c, store⟩ ⟨rd, shelf⟩ ⟨hkept, hgrows, hat⟩
      have hgrown := h.grow ⟨hkept, hgrows⟩
      exact ⟨rfl, { hgrown with cursors := hgrown.cursors.setIfInBounds cursor (.some hat) }⟩
    · rintro e f ⟨c, store⟩ ⟨rd, shelf⟩ he ⟨hkept, hgrows, hat⟩
      have hgrown := h.grow ⟨hkept, hgrows⟩
      exact ⟨he, { hgrown with cursors := hgrown.cursors.setIfInBounds cursor (.some hat) }⟩

theorem agree_inspect (h : Mirrors w₀ s r) {i : Nat} (hi : i < r.shelf.size)
    {look : Memo α → MemoReply α} {look' : Replayed α → MemoReply α}
    (hlook : ∀ m r, Memo.Reads r.source r.demand m → look m = look' r) :
    Act.Agree Fault.Worded (Mirrors w₀) (inspect i look s) (ReplaySession.inspect i look' r) := by
  have hr := Array.getElem?_eq_getElem hi
  obtain ⟨m, hm, -, hreads, -⟩ := h.kept.exists_memo hr
  rw [inspect_of_some hm, ReplaySession.inspect, hr, hlook m _ hreads]
  exact ⟨rfl, h⟩

theorem Mirrors.exists_replayed (h : Mirrors w₀ s r) {p : Asker} {rd : Reading}
    (hrd : r.reading? p = some rd) : ∃ q, r.shelf[rd.memo]? = some q := by
  cases p with
  | handle m k =>
    obtain ⟨i, hi, rfl⟩ := Option.map_eq_some_iff.1 hrd
    exact ⟨_, Array.getElem?_eq_getElem (h.there m i hi)⟩
  | iter i =>
    rcases h.iters.cases i with ⟨-, hr⟩ | ⟨it, rd', -, hr, hat⟩
    · exact nomatch hr.symm.trans hrd
    · obtain rfl := Option.some.inj (hr.symm.trans hrd)
      obtain ⟨q, hq, -⟩ := hat.place
      exact ⟨q, hq.1⟩
  | cursor c =>
    rcases h.cursor_cases c with ⟨-, hr⟩ | ⟨cursor, rd', -, hr, hat⟩
    · exact nomatch hr.symm.trans hrd
    · obtain rfl := Option.some.inj (hr.symm.trans hrd)
      obtain ⟨q, hq, -⟩ := hat.place
      exact ⟨q, hq.1⟩

/-! ## Handles -/

theorem agree_addHandle (h : Mirrors w₀ s r) {i : Nat} (hi : i < r.shelf.size) :
    Act.Agree Fault.Worded (Mirrors w₀) (addHandle i s) (ReplaySession.addHandle i r) := by
  refine ⟨by rw [h.handles], ?_⟩
  refine { h with handles := by rw [h.handles], there := fun handle j hj => ?_ }
  simp only [ReplaySession.memo?, Array.getElem?_push] at hj
  split at hj
  · obtain rfl : i = j := by simpa using hj
    exact hi
  · exact h.there handle j hj

theorem Mirrors.dropHandle (h : Mirrors w₀ s r) (handle : Nat) :
    Mirrors w₀ { s with handles := s.handles.setIfInBounds handle none }
      (r.dropHandle handle) := by
  refine { h with handles := by rw [h.handles]; rfl, there := fun handle' j hj => ?_ }
  simp only [ReplaySession.memo?, ReplaySession.dropHandle, Array.getElem?_setIfInBounds] at hj
  split at hj
  · split at hj <;> cases hj
  · exact h.there handle' j hj

theorem agree_addIter (h : Mirrors w₀ s r) {it : MemoIter} {rd : Reading} (hat : it.At r.shelf rd) :
    Act.Agree Fault.Worded (Mirrors w₀) (addIter it s) (ReplaySession.addIter rd r) :=
  ⟨by rw [h.iters.size], { h with iters := h.iters.push hat }⟩

theorem agree_addCursor (h : Mirrors w₀ s r) {c : MemoCursor} {rd : Reading}
    (hat : c.At r.shelf rd) :
    Act.Agree Fault.Worded (Mirrors w₀) (addCursor c s) (ReplaySession.addCursor rd r) :=
  ⟨by rw [h.cursors.size], { h with cursors := h.cursors.push (.some hat) }⟩

theorem agree_derive (h : Mirrors w₀ s r) {i : Nat} (hi : i < r.shelf.size)
    (f : α → Except Fault α) :
    Act.Agree Fault.Worded (Mirrors w₀) (derive i f s) (ReplaySession.derive i f r) := by
  have hr := Array.getElem?_eq_getElem hi
  have hsize : s.store.memos.size = r.shelf.size := h.kept.size
  have hgrown := h.grow ⟨h.kept.add hr f, Shelf.grows_push _ _⟩
  simp only [derive, ReplaySession.derive, hr, hsize]
  exact agree_addHandle hgrown (by simp)

end Parts

/-! ## Merges of memos -/

/-- The iterators have been called as often as the readings, over a store that follows the shelf. -/
def MergeMirrors (w₀ : Shelf α) (p : Array MemoIter × MemoStore α) (q : Array Reading × Shelf α) :
    Prop :=
  p.2.KeptSince w₀ q.2 ∧ Aligned (MemoIter.At q.2) p.1 q.1

theorem refines_mergeInputs (w₀ : Shelf α) (order : α → α → Except Fault Ordering) :
    (mergeInputs order).Refines Fault.Worded (MergeMirrors w₀)
      (ReplaySession.mergeInputs order) where
  poll j := by
    rintro ⟨iters, s⟩ ⟨readings, w⟩ ⟨⟨hkept, hgrows⟩, hiters⟩
    simp only [mergeInputs, ReplaySession.mergeInputs]
    rcases hiters.cases j with ⟨hi, hr⟩ | ⟨it, rd, hi, hr, hat⟩
    · simp only at hi hr
      rw [hi, hr]
      exact ⟨rfl, ⟨hkept, hgrows⟩, hiters⟩
    · simp only at hi hr
      rw [hi, hr]
      dsimp only
      refine (MemoIter.refines_next w (it, s) (rd, w) ⟨hkept, .refl _, hat⟩).elim ?_ ?_
      · rintro x ⟨it, s⟩ ⟨rd, w'⟩ ⟨hkept, hgrows', hat⟩
        have hmono := hiters.mono fun _ _ hat => MemoIter.At.grows hat hgrows'
        exact ⟨rfl, ⟨hkept, hgrows.trans hgrows'⟩, hmono.setIfInBounds j hat⟩
      · rintro e f ⟨it, s⟩ ⟨rd, w'⟩ he ⟨hkept, hgrows', hat⟩
        have hmono := hiters.mono fun _ _ hat => MemoIter.At.grows hat hgrows'
        exact ⟨he, ⟨hkept, hgrows.trans hgrows'⟩, hmono.setIfInBounds j hat⟩
  order a b := Act.refines_ofExcept Fault.worded_self _

theorem aligned_start {w₀ w : Shelf α} {s : MemoStore α} (h : s.KeptSince w₀ w) {memos : List Nat}
    (hmemos : ∀ i ∈ memos, i < w₀.size) :
    Aligned (MemoIter.At w) (memos.map MemoIter.start).toArray
      (memos.map Reading.start).toArray where
  size := by simp
  entry j it rd hit hrd := by
    simp only [List.getElem?_toArray, List.getElem?_map] at hit hrd
    cases hj : memos[j]? with
    | none =>
      rw [hj] at hit
      cases hit
    | some i =>
      rw [hj] at hit hrd
      cases hit
      cases hrd
      obtain ⟨r, hr⟩ := h.exists_replayed (hmemos i (List.mem_of_getElem? hj))
      exact MemoIter.at_start hr

theorem refines_mergeMemos {w₀ : Shelf α} (order : α → α → Except Fault Ordering)
    {memos : List Nat} (hmemos : ∀ i ∈ memos, i < w₀.size) (limit : Nat) :
    Act.Refines Fault.Worded (MemoStore.KeptSince w₀) (mergeMemos order memos limit)
      (ReplaySession.mergeMemos order memos limit) := by
  intro s w h
  have hinputs := refines_mergeInputs w₀ order
  have hmerge := (Merge.refines_openAll hinputs memos.length).bind fun _ =>
    Act.refines_pull (Merge.refines_next hinputs) limit
  simp only [mergeMemos, ReplaySession.mergeMemos]
  have hstart := aligned_start h hmemos
  refine (hmerge (.ofWorld (_, s)) (.ofWorld (_, w)) ⟨rfl, h, hstart⟩).elim ?_ ?_
  · exact fun p m m' hm => ⟨rfl, hm.2.1⟩
  · exact fun e f m m' he hm => ⟨he, hm.2.1⟩

theorem mem_of_mapM {r : ReplaySession α} {handles memos : List Nat}
    (h : handles.mapM r.memo? = some memos) {i : Nat} (hi : i ∈ memos) :
    ∃ handle, r.memo? handle = some i := by
  induction handles generalizing memos with
  | nil =>
    cases h
    cases hi
  | cons handle handles ih =>
    rw [List.mapM_cons] at h
    cases hfirst : r.memo? handle with
    | none =>
      rw [hfirst] at h
      cases h
    | some j =>
      cases hrest : handles.mapM r.memo? with
      | none =>
        rw [hfirst, hrest] at h
        cases h
      | some rest =>
        rw [hfirst, hrest] at h
        cases h
        rcases List.mem_cons.1 hi with rfl | hi
        · exact ⟨handle, hfirst⟩
        · exact ih hrest hi

/-! ## Operations -/

theorem refines_noteTest (w₀ : Shelf α) (test : α → Except Fault Bool) (a : α) :
    Act.Refines Fault.Worded (Traverses MemoIter.At w₀) (noteTest test a)
      (Act.ofExcept (test a)) := by
  rintro ⟨it, s⟩ ⟨rd, w⟩ ⟨hkept, hgrows, hat⟩
  have hnote : Traverses MemoIter.At w₀ (it, s.note (.tested a)) (rd, w) :=
    ⟨MemoStore.Kept.note hkept fun _ => rfl, hgrows, hat⟩
  exact Act.refines_ofExcept Fault.worded_self (test a) _ _ hnote

section Perform

variable {w₀ : Shelf α} {s : MemoSession α} {r : ReplaySession α}

theorem agree_drop (h : Mirrors w₀ s r) (m : Nat) :
    Act.Agree Fault.Worded (Mirrors w₀) (perform (.drop m) s)
      (ReplaySession.perform (.drop m) r) := by
  show Act.Agree _ _ (withMemo m (fun _ => do dropHandle m; return .nothing) s)
    (ReplaySession.withMemo m (fun _ r => .ok .nothing (r.dropHandle m)) r)
  exact agree_withMemo h m fun i hi => ⟨rfl, h.dropHandle m⟩

theorem agree_intoCursor (h : Mirrors w₀ s r) (m : Nat) :
    Act.Agree Fault.Worded (Mirrors w₀) (perform (.intoCursor m) s)
      (ReplaySession.perform (.intoCursor m) r) := by
  show Act.Agree _ _ (withMemo m (fun i => do dropHandle m; addCursor (.start i)) s)
    (ReplaySession.withMemo m (fun i r => ReplaySession.addCursor (.start i) (r.dropHandle m)) r)
  refine agree_withMemo h m fun i hi => agree_addCursor (h.dropHandle m) ?_
  exact MemoCursor.at_start (Array.getElem?_eq_getElem hi)

theorem agree_merge (h : Mirrors w₀ s r) (ms : List Nat) (order : α → α → Except Fault Ordering)
    (n : Nat) :
    Act.Agree Fault.Worded (Mirrors w₀) (perform (.merge ms order n) s)
      (ReplaySession.perform (.merge ms order n) r) := by
  rw [perform, Act.get_bind, h.memo?_eq]
  simp only [ReplaySession.perform]
  cases hmemos : ms.mapM r.memo? with
  | none => exact ⟨rfl, h⟩
  | some memos =>
    refine agree_onStore h ((refines_mergeMemos order (fun i hi => ?_) n).map _)
    obtain ⟨handle, hhandle⟩ := mem_of_mapM hmemos hi
    exact h.there handle i hhandle

theorem agree_iterClone (h : Mirrors w₀ s r) (i : Nat) :
    Act.Agree Fault.Worded (Mirrors w₀) (perform (.iterClone i) s)
      (ReplaySession.perform (.iterClone i) r) := by
  simp only [perform, ReplaySession.perform, Act.get_bind]
  rcases h.iters.cases i with ⟨hs, hr⟩ | ⟨it, rd, hs, hr, hat⟩
  · rw [hs, hr]
    exact ⟨rfl, h⟩
  · rw [hs, hr]
    exact agree_addIter h hat

theorem agree_cursorClone (h : Mirrors w₀ s r) (c : Nat) :
    Act.Agree Fault.Worded (Mirrors w₀) (perform (.cursorClone c) s)
      (ReplaySession.perform (.cursorClone c) r) := by
  simp only [perform, ReplaySession.perform, Act.get_bind]
  rcases h.cursor_cases c with ⟨hs, hr⟩ | ⟨cursor, rd, hs, hr, hat⟩
  · rw [hs, hr]
    exact ⟨rfl, h⟩
  · rw [hs, hr]
    exact agree_addCursor h hat

theorem refines_iterDebug (w₀ : Shelf α) :
    Act.Refines Fault.Worded (Traverses MemoIter.At w₀) (do return .text (← get).1.debug)
      ReplaySession.iterRecord := by
  rintro ⟨it, s⟩ ⟨rd, w⟩ ⟨hkept, hgrows, hat⟩
  refine ⟨?_, hkept, hgrows, hat⟩
  obtain ⟨r, hr, hp⟩ := hat.place
  simp only at hr hp
  rw [ReplaySession.finished, hr.1, MemoIter.debug, hp.finished]

theorem refines_cursorDebug (w₀ : Shelf α) :
    Act.Refines Fault.Worded (Traverses MemoCursor.At w₀) (do return .text (← get).1.debug)
      ReplaySession.cursorRecord := by
  rintro ⟨c, s⟩ ⟨rd, w⟩ ⟨hkept, hgrows, hat⟩
  refine ⟨?_, hkept, hgrows, hat⟩
  obtain ⟨r, hr, hp⟩ := hat.place
  have hstarted := hat.started
  simp only at hr hp hstarted
  rw [ReplaySession.started, ReplaySession.finished, hr.1, MemoCursor.debug, hstarted, hp.finished,
    hp.position]

/-- The first item is the one at position 0. -/
theorem traverse_first (i : Nat) :
    MemoStore.traverse i (first MemoIter.next) =
      (Maybe.ofOption <$> MemoStore.traverse i (nth MemoIter.next 0) :
        Act (MemoStore α) (Maybe α)) := by
  funext s
  simp only [MemoStore.traverse, first, nth, Bind.bind, EStateM.bind, Functor.map, EStateM.map]
  cases MemoIter.next (MemoIter.start i, s) <;> rfl

end Perform

/-- Every operation gives the reply of the replay session. -/
theorem refines_perform (w₀ : Shelf α) (op : MemoOp α) :
    Act.Refines Fault.Worded (Mirrors w₀) (perform op) (ReplaySession.perform op) := by
  intro s r h
  have hnext := MemoIter.refines_next r.shelf
  have hcursor := MemoCursor.refines_next r.shelf
  cases op with
  | head m =>
    refine agree_withMemo h m fun i hi => agree_onStore h (Act.Refines.map ?_ _)
    rw [traverse_first]
    exact (MemoStore.refines_read hi 0).map _
  | get m k =>
    refine agree_withMemo h m fun i hi => agree_onStore h ?_
    exact (MemoStore.refines_read hi k).map _
  | evaluated m =>
    refine agree_withMemo h m fun i hi => agree_inspect h hi fun m r hm => ?_
    rw [← hm.evaluated]
    rfl
  | isExhausted m =>
    refine agree_withMemo h m fun i hi => agree_inspect h hi fun m r hm => ?_
    rw [← hm.status]
    rfl
  | debug m =>
    refine agree_withMemo h m fun i hi => agree_inspect h hi fun m r hm => ?_
    rw [← hm.evaluated]
    rfl
  | findFirst m test =>
    refine agree_withMemo h m fun i hi => agree_onStore h (Act.Refines.map ?_ _)
    exact MemoStore.refines_traverse hi
      (Act.refines_findFirst hnext (refines_noteTest r.shelf test) maxSize)
  | all m n =>
    refine agree_withMemo h m fun i hi => agree_onStore h (Act.Refines.map ?_ _)
    exact MemoStore.refines_traverse hi (Act.refines_pull hnext n)
  | count m n =>
    refine agree_withMemo h m fun i hi => agree_onStore h (Act.Refines.map ?_ _)
    exact MemoStore.refines_traverse hi (Act.refines_countUpTo hnext n)
  | clone m => exact agree_withMemo h m fun i hi => agree_addHandle h hi
  | drop m => exact agree_drop h m
  | iter m =>
    refine agree_withMemo h m fun i hi => agree_addIter h ?_
    exact MemoIter.at_start (Array.getElem?_eq_getElem hi)
  | cursor m =>
    refine agree_withMemo h m fun i hi => agree_addCursor h ?_
    exact MemoCursor.at_start (Array.getElem?_eq_getElem hi)
  | intoCursor m => exact agree_intoCursor h m
  | window m w n =>
    refine agree_withMemo h m fun i hi => agree_onStore h (Act.Refines.map ?_ _)
    exact MemoStore.refines_traverse hi (Act.refines_nestPull hnext [w] n)
  | derive m f => exact agree_withMemo h m fun i hi => agree_derive h hi f
  | traversals m k =>
    refine agree_withMemo h m fun i hi => agree_onStore h (Act.Refines.map ?_ _)
    refine Act.refines_mapM (fun _ => ?_) _
    exact MemoStore.refines_traverse hi (Act.refines_pull hnext maxSize)
  | merge ms order n => exact agree_merge h ms order n
  | iterNext i => exact agree_withIter h i (hnext.bind fun _ => Act.refines_pure _)
  | iterPull i n =>
    exact agree_withIter h i ((Act.refines_pull hnext n).bind fun _ => Act.refines_pure _)
  | iterCount i n =>
    exact agree_withIter h i ((Act.refines_countUpTo hnext n).bind fun _ => Act.refines_pure _)
  | iterClone i => exact agree_iterClone h i
  | iterDebug i => exact agree_withIter h i (refines_iterDebug r.shelf)
  | cursorNext c =>
    exact agree_withCursor h c (hcursor.bind fun _ => Act.refines_pure _)
  | cursorPull c n =>
    exact agree_withCursor h c ((Act.refines_pull hcursor n).bind fun _ => Act.refines_pure _)
  | cursorCount c n =>
    exact agree_withCursor h c ((Act.refines_countUpTo hcursor n).bind fun _ => Act.refines_pure _)
  | cursorClone c => exact agree_cursorClone h c
  | cursorDrop c =>
    exact ⟨rfl, { h with cursors := h.cursors.setIfInBounds c .none }⟩
  | cursorDebug c => exact agree_withCursor h c (refines_cursorDebug r.shelf)

/-! ## Runs -/

theorem mirrors_start (sources : List (Source α)) :
    Mirrors (ReplaySession.start sources).shelf (start sources) (ReplaySession.start sources) where
  grown := .refl _
  kept := by
    refine ⟨fun i r hr => ?_, fun i => ?_⟩
    · simp only [ReplaySession.start, List.getElem?_toArray, List.getElem?_map] at hr
      cases hi : sources[i]? with
      | none =>
        rw [hi] at hr
        cases hr
      | some source =>
        rw [hi] at hr
        cases hr
        rfl
    · simp only [MemoStore.Follows, start, ReplaySession.start, List.getElem?_toArray,
        List.getElem?_map]
      cases sources[i]? with
      | none => rfl
      | some source => exact ⟨rfl, Memo.reads_ofOrigin _ _, rfl⟩
  handles := rfl
  there handle i hi := by
    simp only [ReplaySession.memo?, ReplaySession.start, Array.getElem?_map,
      Array.getElem?_range] at hi
    split at hi
    · obtain rfl : handle = i := by simpa using hi
      simpa [ReplaySession.start]
    · cases hi
  iters := .empty
  cursors := .empty

theorem map_reply_run (ops : List (MemoOp α)) (s : MemoSession α) :
    (run ops s).map (·.reply) = (Act.attemptAll (ops.map perform) s).1 := by
  induction ops generalizing s with
  | nil => rfl
  | cons op ops ih => exact congrArg _ (ih _)

theorem forall₂_perform (w₀ : Shelf α) (ops : List (MemoOp α)) :
    List.Forall₂ (Act.Refines Fault.Worded (Mirrors w₀)) (ops.map perform)
      (ops.map ReplaySession.perform) := by
  rw [List.forall₂_map_left_iff, List.forall₂_map_right_iff]
  exact List.forall₂_same.2 fun op _ => refines_perform w₀ op

theorem mirrors_attemptAll {w₀ : Shelf α} {s : MemoSession α} {r : ReplaySession α}
    (h : Mirrors w₀ s r) (ops : List (MemoOp α)) :
    Mirrors w₀ (Act.attemptAll (ops.map perform) s).2
      (Act.attemptAll (ops.map ReplaySession.perform) r).2 :=
  (Act.forall₂_attemptAll (forall₂_perform w₀ ops) h).2

theorem exists_replayed_source (sources : List (Source α)) (ops : List (MemoOp α)) {i : Nat}
    {source : Source α} (hi : sources[i]? = some source) :
    ∃ d, (Act.attemptAll (ops.map ReplaySession.perform)
      (ReplaySession.start sources)).2.shelf[i]? = some ⟨.source source, source, d⟩ := by
  have hstart : (ReplaySession.start sources).shelf[i]? = some ⟨.source source, source, 0⟩ := by
    simp [ReplaySession.start, hi]
  obtain ⟨d, -, hr⟩ := (mirrors_attemptAll (mirrors_start sources) ops).grown i _ hstart
  exact ⟨d, hr⟩

/-- The replies to an asker that is asked once after each round of other operations. -/
def askAfter (p : Asker) :
    List (List (MemoOp α)) → MemoSession α → List (Except Fault (MemoReply α))
  | [], _ => []
  | others :: rounds, s =>
    let (reply, s) := (perform p.ask).attempt (Act.attemptAll (others.map perform) s).2
    reply :: askAfter p rounds s

/-- Whoever is left alone reads its sequence on from its place, whatever is done to the rest. -/
theorem Mirrors.sameReply_askAfter {w₀ : Shelf α} {p : Asker} {q : Replayed α}
    {rounds : List (List (MemoOp α))} (hrounds : ∀ others ∈ rounds, ∀ op ∈ others, ¬ op.moves p) :
    ∀ {s : MemoSession α} {r : ReplaySession α} {rd : Reading}, Mirrors w₀ s r →
      r.reading? p = some rd → w₀[rd.memo]? = some q →
      List.Forall₂ (Act.SameReply Fault.Worded) (askAfter p rounds s)
        ((List.range rounds.length).map fun k =>
          (q.source.replay (p.place rd k)).map fun x => .item (.ofOption x)) := by
  induction rounds with
  | nil => exact fun _ _ _ => .nil
  | cons others rounds ih =>
    intro s r rd h hrd hq
    have hafter := mirrors_attemptAll h others
    have hrd' := ReplaySession.reading?_attemptAll (hrounds others List.mem_cons_self) hrd
    obtain ⟨d, -, hq'⟩ := hafter.grown rd.memo q hq
    obtain ⟨hreply, hnext⟩ := (refines_perform w₀ p.ask).attempt hafter
    have hmemo : (p.onwards rd).memo = rd.memo := by cases p <;> rfl
    have hrest := ih (fun others hothers => hrounds others (List.mem_cons_of_mem _ hothers)) hnext
      (ReplaySession.reading?_ask hrd' hq') (hmemo ▸ hq)
    rw [ReplaySession.reply_ask hrd' hq'] at hreply
    rw [List.length_cons, List.range_succ_eq_map, List.map_cons, List.map_map, p.place_zero]
    simp only [p.place_onwards] at hrest
    exact .cons hreply hrest

/-- A session replays the fixed sequences of its sources: every operation gives the reply that it
gives on the shelf, and gives up when it does there. Whoever can be asked for items is answered what
is at its place in its sequence, and then at the places after it, whatever operations on the rest
come in between. -/
theorem replies_replay (sources : List (Source α)) (ops : List (MemoOp α)) :
    List.Forall₂ (Act.SameReply Fault.Worded) ((run ops (start sources)).map (·.reply))
      (Act.attemptAll (ops.map ReplaySession.perform) (ReplaySession.start sources)).1 ∧
    let s := (Act.attemptAll (ops.map perform) (start sources)).2
    let r := (Act.attemptAll (ops.map ReplaySession.perform) (ReplaySession.start sources)).2
    (∀ (i : Nat) (source : Source α), sources[i]? = some source →
      ∃ d, r.shelf[i]? = some ⟨.source source, source, d⟩) ∧
    ∀ (p : Asker) (rd : Reading) (rounds : List (List (MemoOp α))), r.reading? p = some rd →
      (∀ others ∈ rounds, ∀ op ∈ others, ¬ op.moves p) → ∃ q, r.shelf[rd.memo]? = some q ∧
        List.Forall₂ (Act.SameReply Fault.Worded) (askAfter p rounds s)
          ((List.range rounds.length).map fun k =>
            (q.source.replay (p.place rd k)).map fun x => .item (.ofOption x)) := by
  have hmirrors := mirrors_attemptAll (mirrors_start sources) ops
  refine ⟨?_, fun i source hi => exists_replayed_source sources ops hi,
    fun p rd rounds hrd hrounds => ?_⟩
  · rw [map_reply_run]
    exact (Act.forall₂_attemptAll (forall₂_perform _ ops) (mirrors_start sources)).1
  · obtain ⟨q, hq⟩ := hmirrors.exists_replayed hrd
    have hsince : Mirrors _ _ _ := { hmirrors with grown := .refl _ }
    exact ⟨q, hq, hsince.sameReply_askAfter hrounds hrd hq⟩

theorem replies_replay_of_list :
    let rounds : List (List (MemoOp Nat)) := [[], [.get 0 5], [.clone 0, .drop 0], []]
    (∀ others ∈ rounds, ∀ op ∈ others, ¬ op.moves (.iter 0)) ∧
    List.Forall₂ (Act.SameReply Fault.Worded)
      (askAfter (.iter 0) rounds
        (Act.attemptAll ([.iter 0].map perform) (start [.ofList [7, 8]])).2)
      [.ok (.item (.present 7)), .ok (.item (.present 8)), .ok (.item .absent),
        .ok (.item .absent)] := by
  intro rounds
  have hrounds : ∀ others ∈ rounds, ∀ op ∈ others, ¬ op.moves (.iter 0) := by
    simp [rounds, MemoOp.moves]
  have hmemo : (ReplaySession.start [Source.ofList [7, 8]]).memo? 0 = some 0 := by
    simp [ReplaySession.start, ReplaySession.memo?]
  have hread : (Act.attemptAll ([.iter 0].map ReplaySession.perform)
      (ReplaySession.start [Source.ofList [7, 8]])).2.reading? (.iter 0) = some ⟨0, 0⟩ := by
    simp only [List.map_cons, List.map_nil, Act.attemptAll, Act.attempt, ReplaySession.perform,
      ReplaySession.withMemo, hmemo]
    rfl
  obtain ⟨-, hshelf, hask⟩ := replies_replay [Source.ofList [7, 8]] [.iter 0]
  obtain ⟨q, hq, hreplies⟩ := hask (.iter 0) ⟨0, 0⟩ rounds hread hrounds
  obtain ⟨d, hsource⟩ := hshelf 0 (.ofList [7, 8]) rfl
  obtain rfl := Option.some.inj (hsource.symm.trans hq)
  exact ⟨hrounds, hreplies⟩

end MemoSession

end Streamkit
