import Streamkit.Proofs.Memo.ReplaySession

/-!
# Independence of handles

An `Asker` is a handle with a position, an iterator or a cursor of a session, and it stands at a
place of a sequence: the `Reading` that gives its next item. Operations that neither call an asker
nor give it up leave its reading as it is (`ReplaySession.reading?_attemptAll`), so what it is
answered next depends on nothing that happens to the rest of the session.
-/

namespace Streamkit

variable {α β : Type}

/-- Whoever can be asked for an item. -/
inductive Asker where
  /-- A handle on a memo, for the item at a position. -/
  | handle (handle position : Nat)
  | iter (iter : Nat)
  | cursor (cursor : Nat)

/-- The operation that asks for the item. -/
def Asker.ask : Asker → MemoOp α
  | handle m k => .get m k
  | iter i => .iterNext i
  | cursor c => .cursorNext c

/-- Where an asker stands once it has been answered: traversals move on. -/
def Asker.onwards : Asker → Reading → Reading
  | handle _ _, rd => rd
  | iter _, rd | cursor _, rd => rd.called

/-- The position that an asker reads when it is asked again after `k` answers. -/
def Asker.place : Asker → Reading → Nat → Nat
  | handle _ _, rd, _ => rd.calls
  | iter _, rd, k | cursor _, rd, k => rd.calls + k

theorem Asker.place_zero (p : Asker) (rd : Reading) : p.place rd 0 = rd.calls := by
  cases p <;> rfl

theorem Asker.place_onwards (p : Asker) (rd : Reading) (k : Nat) :
    p.place (p.onwards rd) k = p.place rd (k + 1) := by
  cases p with
  | handle m i => rfl
  | iter i => exact Nat.add_right_comm _ _ _
  | cursor c => exact Nat.add_right_comm _ _ _

/-- The operation calls the asker or gives it up. -/
def MemoOp.moves : MemoOp α → Asker → Prop
  | drop m, .handle m' _ | intoCursor m, .handle m' _ => m = m'
  | iterNext i, .iter i' | iterPull i _, .iter i' | iterCount i _, .iter i' => i = i'
  | cursorNext c, .cursor c' | cursorPull c _, .cursor c' | cursorCount c _, .cursor c'
  | cursorDrop c, .cursor c' => c = c'
  | _, _ => False

theorem setIfInBounds_of_some {γ : Type} {xs : Array γ} {i : Nat} {x : γ} (h : xs[i]? = some x) :
    xs.setIfInBounds i x = xs := by
  obtain ⟨hi, rfl⟩ := Array.getElem?_eq_some_iff.1 h
  rw [Array.setIfInBounds_def, dif_pos hi, Array.set_getElem_self]

namespace ReplaySession

/-- Where an asker stands. -/
def reading? (r : ReplaySession α) : Asker → Option Reading
  | .handle m k => (r.memo? m).map (⟨·, k⟩)
  | .iter i => r.iters[i]?
  | .cursor c => (r.cursors[c]?).join

/-- The computation leaves the asker where it is. -/
def Spares (act : Act (ReplaySession α) β) (p : Asker) : Prop :=
  ∀ (r : ReplaySession α) (rd : Reading), r.reading? p = some rd →
    (act.attempt r).2.reading? p = some rd

/-- An asker is answered what is at its place, and moves on; this is a demand for the place. -/
theorem attempt_ask {r : ReplaySession α} {p : Asker} {rd : Reading} {q : Replayed α}
    (hrd : r.reading? p = some rd) (hq : r.shelf[rd.memo]? = some q) :
    ∃ r', (perform p.ask).attempt r =
        ((q.source.replay rd.calls).map fun x => .item (.ofOption x), r') ∧
      r'.reading? p = some (p.onwards rd) ∧ r'.shelf = r.shelf.raise rd.memo (rd.calls + 1) := by
  cases p with
  | handle m k =>
    obtain ⟨i, hi, rfl⟩ := Option.map_eq_some_iff.1 hrd
    simp only [Asker.ask, perform, withMemo, hi, Act.attempt, onShelf, Functor.map, EStateM.map,
      Shelf.read_eq hq]
    cases q.source.replay k <;> exact ⟨_, rfl, hrd, rfl⟩
  | iter i =>
    have hi : i < r.iters.size := (Array.getElem?_eq_some_iff.1 hrd).1
    have hset := Array.getElem?_setIfInBounds_self_of_lt (a := rd.called) hi
    simp only [reading?] at hrd
    simp only [Asker.ask, perform, withIter, hrd, Act.attempt, Bind.bind, EStateM.bind,
      Reading.next, Shelf.read_eq hq]
    cases q.source.replay rd.calls <;> exact ⟨_, rfl, hset, rfl⟩
  | cursor c =>
    have hslot := Option.join_eq_some_iff.1 hrd
    have hc : c < r.cursors.size := (Array.getElem?_eq_some_iff.1 hslot).1
    have hset := Array.getElem?_setIfInBounds_self_of_lt (a := some rd.called) hc
    simp only [reading?] at hrd
    simp only [Asker.ask, perform, withCursor, hrd, Act.attempt, Bind.bind, EStateM.bind,
      Reading.next, Shelf.read_eq hq]
    cases q.source.replay rd.calls <;> exact ⟨_, rfl, Option.join_eq_some_iff.2 hset, rfl⟩

theorem reply_ask {r : ReplaySession α} {p : Asker} {rd : Reading} {q : Replayed α}
    (hrd : r.reading? p = some rd) (hq : r.shelf[rd.memo]? = some q) :
    ((perform p.ask).attempt r).1 =
      (q.source.replay rd.calls).map fun x => .item (.ofOption x) := by
  obtain ⟨r', hask, -⟩ := attempt_ask hrd hq
  rw [hask]

theorem reading?_ask {r : ReplaySession α} {p : Asker} {rd : Reading} {q : Replayed α}
    (hrd : r.reading? p = some rd) (hq : r.shelf[rd.memo]? = some q) :
    ((perform p.ask).attempt r).2.reading? p = some (p.onwards rd) := by
  obtain ⟨r', hask, honwards, -⟩ := attempt_ask hrd hq
  rw [hask, honwards]

theorem shelf_ask {r : ReplaySession α} {p : Asker} {rd : Reading} {q : Replayed α}
    (hrd : r.reading? p = some rd) (hq : r.shelf[rd.memo]? = some q) :
    ((perform p.ask).attempt r).2.shelf = r.shelf.raise rd.memo (rd.calls + 1) := by
  obtain ⟨r', hask, -, hshelf⟩ := attempt_ask hrd hq
  rw [hask, hshelf]

/-! ## The parts of a session -/

section Parts

variable {p : Asker}

theorem reading?_withShelf (r : ReplaySession α) (shelf : Shelf α) (p : Asker) :
    reading? { r with shelf } p = r.reading? p := by
  cases p <;> rfl

theorem spares_onShelf (act : Act (Shelf α) β) : Spares (onShelf act) p := by
  intro r rd hrd
  simp only [Act.attempt, onShelf]
  cases act r.shelf <;> exact (reading?_withShelf r _ p).trans hrd

theorem spares_withMemo {m : Nat} {act : Nat → Act (ReplaySession α) (MemoReply α)}
    (h : ∀ i, Spares (act i) p) : Spares (withMemo m act) p := by
  intro r rd hrd
  simp only [Act.attempt, withMemo]
  cases r.memo? m with
  | none => exact hrd
  | some i => exact h i r rd hrd

theorem spares_inspect (i : Nat) (look : Replayed α → MemoReply α) : Spares (inspect i look) p := by
  intro r rd hrd
  simp only [Act.attempt, inspect]
  cases r.shelf[i]? <;> exact hrd

theorem spares_addHandle (i : Nat) : Spares (addHandle (α := α) i) p := by
  intro r rd hrd
  cases p with
  | handle m k =>
    obtain ⟨j, hj, rfl⟩ := Option.map_eq_some_iff.1 hrd
    have hm := getElem?_push_of_some (Option.join_eq_some_iff.1 hj) (some i)
    exact Option.map_eq_some_iff.2 ⟨j, Option.join_eq_some_iff.2 hm, rfl⟩
  | iter i => exact hrd
  | cursor c => exact hrd

theorem spares_addIter (rd : Reading) : Spares (addIter (α := α) rd) p := by
  intro r rd' hrd
  cases p with
  | handle m k => exact hrd
  | iter i => exact getElem?_push_of_some hrd rd
  | cursor c => exact hrd

theorem spares_addCursor (rd : Reading) : Spares (addCursor (α := α) rd) p := by
  intro r rd' hrd
  cases p with
  | handle m k => exact hrd
  | iter i => exact hrd
  | cursor c =>
    have hc := getElem?_push_of_some (Option.join_eq_some_iff.1 hrd) (some rd)
    exact Option.join_eq_some_iff.2 hc

theorem spares_derive (i : Nat) (f : α → Except Fault α) : Spares (derive i f) p := by
  intro r rd hrd
  simp only [Act.attempt, derive]
  cases r.shelf[i]? with
  | none => exact hrd
  | some q =>
    exact spares_addHandle _ { r with shelf := _ } rd ((reading?_withShelf r _ p).trans hrd)

theorem reading?_dropHandle (r : ReplaySession α) {m : Nat} (h : ∀ k, p ≠ .handle m k) :
    (r.dropHandle m).reading? p = r.reading? p := by
  cases p with
  | handle m' k =>
    have hne : m ≠ m' := fun e => h k (e ▸ rfl)
    simp only [reading?, memo?, dropHandle, Array.getElem?_setIfInBounds_ne hne]
  | iter i => rfl
  | cursor c => rfl

theorem spares_withIter {i : Nat} (h : p ≠ .iter i)
    (act : Act (Reading × Shelf α) (MemoReply α)) : Spares (withIter i act) p := by
  have hset : ∀ (r : ReplaySession α) (rd : Reading) (shelf : Shelf α),
      reading? { r with shelf, iters := r.iters.setIfInBounds i rd } p = r.reading? p := by
    intro r rd shelf
    cases p with
    | handle m k => rfl
    | iter j =>
      have hne : i ≠ j := fun e => h (e ▸ rfl)
      exact Array.getElem?_setIfInBounds_ne hne
    | cursor c => rfl
  intro r rd hrd
  simp only [Act.attempt, withIter]
  cases r.iters[i]? with
  | none => exact hrd
  | some it =>
    dsimp only
    cases act (it, r.shelf) <;> exact (hset r _ _).trans hrd

theorem spares_withCursor {c : Nat} (h : p ≠ .cursor c)
    (act : Act (Reading × Shelf α) (MemoReply α)) : Spares (withCursor c act) p := by
  have hset : ∀ (r : ReplaySession α) (rd : Reading) (shelf : Shelf α),
      reading? { r with shelf, cursors := r.cursors.setIfInBounds c (some rd) } p =
        r.reading? p := by
    intro r rd shelf
    cases p with
    | handle m k => rfl
    | iter i => rfl
    | cursor d =>
      have hne : c ≠ d := fun e => h (e ▸ rfl)
      simp only [reading?, Array.getElem?_setIfInBounds_ne hne]
  intro r rd hrd
  simp only [Act.attempt, withCursor]
  cases (r.cursors[c]?).join with
  | none => exact hrd
  | some cursor =>
    dsimp only
    cases act (cursor, r.shelf) <;> exact (hset r _ _).trans hrd

theorem spares_iterRecord (i : Nat) : Spares (withIter (α := α) i iterRecord) p := by
  intro r rd hrd
  simp only [Act.attempt, withIter]
  cases hi : r.iters[i]? with
  | none => exact hrd
  | some it =>
    simp only [iterRecord, setIfInBounds_of_some hi]
    exact hrd

theorem spares_cursorRecord (c : Nat) : Spares (withCursor (α := α) c cursorRecord) p := by
  intro r rd hrd
  simp only [Act.attempt, withCursor]
  cases hc : (r.cursors[c]?).join with
  | none => exact hrd
  | some cursor =>
    simp only [cursorRecord, setIfInBounds_of_some (Option.join_eq_some_iff.1 hc)]
    exact hrd

end Parts

/-! ## Operations -/

variable {p : Asker}

theorem spares_perform {op : MemoOp α} (h : ¬ op.moves p) : Spares (perform op) p := by
  cases op with
  | head m | get m k | findFirst m test | all m n | count m n | window m w n | traversals m k =>
    exact spares_withMemo fun i => spares_onShelf _
  | evaluated m | isExhausted m | debug m => exact spares_withMemo fun i => spares_inspect i _
  | clone m => exact spares_withMemo fun i => spares_addHandle i
  | drop m =>
    refine spares_withMemo fun i r rd hrd => ?_
    exact (reading?_dropHandle r fun k e => h (by rw [e]; rfl)).trans hrd
  | iter m => exact spares_withMemo fun i => spares_addIter _
  | cursor m => exact spares_withMemo fun i => spares_addCursor _
  | intoCursor m =>
    refine spares_withMemo fun i r rd hrd => ?_
    refine spares_addCursor (.start i) (r.dropHandle m) rd ?_
    exact (reading?_dropHandle r fun k e => h (by rw [e]; rfl)).trans hrd
  | derive m f => exact spares_withMemo fun i => spares_derive i f
  | merge ms order n =>
    intro r rd hrd
    simp only [Act.attempt, perform]
    cases ms.mapM r.memo? with
    | none => exact hrd
    | some memos => exact spares_onShelf _ r rd hrd
  | iterNext i | iterPull i n | iterCount i n =>
    exact spares_withIter (fun e => h (by rw [e]; rfl)) _
  | iterClone i =>
    intro r rd hrd
    simp only [Act.attempt, perform]
    cases r.iters[i]? with
    | none => exact hrd
    | some it => exact spares_addIter it r rd hrd
  | iterDebug i => exact spares_iterRecord i
  | cursorNext c | cursorPull c n | cursorCount c n =>
    exact spares_withCursor (fun e => h (by rw [e]; rfl)) _
  | cursorClone c =>
    intro r rd hrd
    simp only [Act.attempt, perform]
    cases (r.cursors[c]?).join with
    | none => exact hrd
    | some cursor => exact spares_addCursor cursor r rd hrd
  | cursorDrop c =>
    intro r rd hrd
    cases p with
    | handle m k => exact hrd
    | iter i => exact hrd
    | cursor d =>
      have hne : c ≠ d := fun e => h e
      show ((r.cursors.setIfInBounds c none)[d]?).join = some rd
      rw [Array.getElem?_setIfInBounds_ne hne]
      exact hrd
  | cursorDebug c => exact spares_cursorRecord c

theorem reading?_attemptAll {ops : List (MemoOp α)} (h : ∀ op ∈ ops, ¬ op.moves p)
    {r : ReplaySession α} {rd : Reading} (hrd : r.reading? p = some rd) :
    (Act.attemptAll (ops.map perform) r).2.reading? p = some rd := by
  induction ops generalizing r with
  | nil => exact hrd
  | cons op ops ih =>
    have hop := spares_perform (h op List.mem_cons_self) r rd hrd
    exact ih (fun op hop => h op (List.mem_cons_of_mem _ hop)) hop

end ReplaySession

end Streamkit
