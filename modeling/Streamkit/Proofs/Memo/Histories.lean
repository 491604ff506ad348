import Mathlib.Logic.Function.Basic
import Mathlib.Tactic.MkIffOfInductiveProp
import Streamkit.Proofs.Memo.Standing

/-!
# What traversals were answered

The history of a traversal is the list of the answers to its calls, after those of the traversal
that it was cloned from (`MemoSession.Heard`). It determines what the traversal knows of itself:
its position is the number of items in it, an iterator is finished if the end is in it, and a cursor
has started if anything but faults is in it (`MemoSession.Told`). What a traversal is answered next
depends on its position alone: an iterator and a cursor that stand at one position are both answered
what the memo has there, since one that has seen the end stands where the memo has ended. So they
cannot be told apart by what they have received: `MemoSession.traversals_alike`.
-/

namespace Streamkit

variable {α β σ ρ τ : Type}

/-- Calls the sequence and notes its answer. -/
def Act.noted (next : Act σ (Option α)) : Act (σ × List (Answer α)) (Option α) := fun (s, notes) =>
  match next s with
  | .ok x s => .ok x (s, notes ++ [.ok x])
  | .error e s => .error e (s, notes ++ [.error e])

/-- What an operation does with the traversal that it calls. -/
def MemoOp.calling (next : Act σ (Option α)) : MemoOp α → Act σ (MemoReply α)
  | .iterNext _ | .cursorNext _ => do return .item (.ofOption (← next))
  | .iterPull _ n | .cursorPull _ n => do return .pulled (← pull next n)
  | .iterCount _ n | .cursorCount _ n => do return .number (← countUpTo next n)
  | _ => pure .nothing

/-- The answers that the operation gets. -/
def MemoOp.answers (op : MemoOp α) (next : Act σ (Option α)) (s : σ) : List (Answer α) :=
  ((op.calling (Act.noted next)).attempt (s, [])).2.2

/-- The answer is an item. -/
def Answer.isItem : Answer α → Bool
  | .ok (some _) => true
  | _ => false

/-- The number of items received. -/
def received (history : List (Answer α)) : Nat := history.countP Answer.isItem

theorem received_concat (history : List (Answer α)) (x : Answer α) :
    received (history ++ [x]) = received history + if x.isItem then 1 else 0 := by
  simp only [received, List.countP_append, List.countP_singleton]

/-- The iterator knows what its history says. -/
structure MemoIter.Told (it : MemoIter) (history : List (Answer α)) : Prop where
  position : it.position = received history
  finished : it.finished = true ↔ .ok none ∈ history

/-- The cursor knows what its history says. -/
structure MemoCursor.Told (c : MemoCursor) (history : List (Answer α)) : Prop where
  position : c.position = received history
  started : c.started = true ↔ ∃ x, .ok x ∈ history
  atEnd : c.atEnd = true ↔ .ok none ∈ history

/-- A traversal with notes beside one without, which knows what its history and the notes say. -/
def Noting (told : τ → List (Answer α) → Prop) (history : List (Answer α))
    (p : (τ × MemoStore α) × List (Answer α)) (q : τ × MemoStore α) : Prop :=
  p.1 = q ∧ told q.1 (history ++ p.2)

/-- All traversals that are found know what their histories say. -/
def AllTold (told : τ → List (Answer α) → Prop) (find : Nat → Option τ)
    (histories : Nat → List (Answer α)) : Prop :=
  ∀ x t, find x = some t → told t (histories x)

/-- Only the traversal at `x` has changed, and has a new history. -/
theorem AllTold.update {told : τ → List (Answer α) → Prop} {find find' : Nat → Option τ}
    {histories : Nat → List (Answer α)} (h : AllTold told find histories) {x : Nat}
    {history : List (Answer α)} (hne : ∀ y, y ≠ x → find' y = find y)
    (hx : ∀ t, find' x = some t → told t history) :
    AllTold told find' (Function.update histories x history) := by
  intro y t hy
  by_cases hyx : y = x
  · rw [hyx, Function.update_self]
    exact hx t (hyx ▸ hy)
  · rw [Function.update_of_ne hyx]
    exact h y t (hne y hyx ▸ hy)

/-! ## Calls with notes -/

theorem MemoOp.refines_calling {faults : Fault → Fault → Prop} {states : σ → ρ → Prop}
    {next : Act σ (Option α)} {next' : Act ρ (Option α)}
    (h : Act.Refines faults states next next') (op : MemoOp α) :
    Act.Refines faults states (op.calling next) (op.calling next') := by
  cases op with
  | iterNext x | cursorNext x => exact h.bind fun _ => Act.refines_pure _
  | iterPull x n | cursorPull x n => exact (Act.refines_pull h n).bind fun _ => Act.refines_pure _
  | iterCount x n | cursorCount x n =>
    exact (Act.refines_countUpTo h n).bind fun _ => Act.refines_pure _
  | _ => exact Act.refines_pure _

theorem MemoIter.told_start (memo : Nat) : (MemoIter.start memo).Told ([] : List (Answer α)) :=
  ⟨rfl, by simp [MemoIter.start]⟩

theorem MemoCursor.told_start (memo : Nat) :
    (MemoCursor.start memo).Told ([] : List (Answer α)) :=
  ⟨rfl, by simp [MemoCursor.start], by simp [MemoCursor.start]⟩

/-- If every call tells the traversal its answer, so do calls with notes. -/
theorem refines_noted {next : Act (τ × MemoStore α) (Option α)}
    {told : τ → List (Answer α) → Prop}
    (h : ∀ t s history, told t history →
      Act.Leaves (fun x q => told q.1 (history ++ [.ok x]))
        (fun e q => told q.1 (history ++ [.error e])) (next (t, s)))
    (history : List (Answer α)) :
    Act.Refines (· = ·) (Noting told history) (Act.noted next) next := by
  rintro ⟨⟨t, s⟩, notes⟩ _ ⟨rfl, ht⟩
  simp only [Act.noted]
  refine (h t s _ ht).elim (fun x q hq => ?_) (fun e q hq => ?_)
  · exact ⟨rfl, rfl, by rwa [← List.append_assoc]⟩
  · exact ⟨rfl, rfl, by rwa [← List.append_assoc]⟩

section Told

variable {history : List (Answer α)} {it : MemoIter} {c : MemoCursor}

theorem MemoIter.Told.item (h : it.Told history) (a : α) :
    Told { it with position := it.position + 1 } (history ++ [.ok (some a)]) where
  position := by rw [received_concat, ← h.position]; rfl
  finished := by simpa using h.finished

theorem MemoIter.Told.end (h : it.Told history) :
    Told { it with finished := true } (history ++ [.ok none]) where
  position := by rw [received_concat, ← h.position]; rfl
  finished := by simp

theorem MemoIter.Told.error (h : it.Told history) (e : Fault) :
    it.Told (history ++ [.error e]) where
  position := by rw [received_concat, ← h.position]; rfl
  finished := by simpa using h.finished

theorem MemoIter.told_next (s : MemoStore α) (h : it.Told history) :
    Act.Leaves (fun x q => Told q.1 (history ++ [.ok x]))
      (fun e q => Told q.1 (history ++ [.error e])) (next (it, s)) := by
  obtain ⟨memo, position, finished⟩ := it
  cases finished with
  | true => exact h.end
  | false =>
    simp only [next, Bool.false_eq_true, if_false]
    cases s.force memo position with
    | error e s' => exact h.error e
    | ok x s' =>
      cases x with
      | none => exact h.end
      | some a => exact h.item a

theorem MemoIter.refines_noted (history : List (Answer α)) :
    Act.Refines (· = ·) (Noting Told history) (Act.noted next) next :=
  Streamkit.refines_noted (fun _ s _ ht => told_next s ht) history

theorem MemoCursor.Told.item (h : c.Told history) (a : α) :
    Told { c with position := c.position + 1, started := true } (history ++ [.ok (some a)]) where
  position := by rw [received_concat, ← h.position]; rfl
  started := by simp
  atEnd := by simpa using h.atEnd

theorem MemoCursor.Told.end (h : c.Told history) :
    Told { c with started := true, atEnd := true } (history ++ [.ok none]) where
  position := by rw [received_concat, ← h.position]; rfl
  started := by simp
  atEnd := by simp

theorem MemoCursor.Told.error (h : c.Told history) (e : Fault) :
    c.Told (history ++ [.error e]) where
  position := by rw [received_concat, ← h.position]; rfl
  started := by simpa using h.started
  atEnd := by simpa using h.atEnd

theorem MemoCursor.told_next (s : MemoStore α) (h : c.Told history) :
    Act.Leaves (fun x q => Told q.1 (history ++ [.ok x]))
      (fun e q => Told q.1 (history ++ [.error e])) (next (c, s)) := by
  obtain ⟨memo, position, started, atEnd⟩ := c
  cases atEnd with
  | true =>
    obtain rfl : started = true := h.started.2 ⟨none, h.atEnd.1 rfl⟩
    exact h.end
  | false =>
    simp only [next, Bool.false_eq_true, if_false]
    cases s.force memo position with
    | error e s' => exact h.error e
    | ok x s' =>
      cases x with
      | none => exact h.end
      | some a => exact h.item a

theorem MemoCursor.refines_noted (history : List (Answer α)) :
    Act.Refines (· = ·) (Noting Told history) (Act.noted next) next :=
  Streamkit.refines_noted (fun _ s _ ht => told_next s ht) history

end Told

/-! ## Calls by position -/

/-- The answer at a position of a memo; an item leads to the next position. -/
def MemoStore.advance : Act ((Nat × Nat) × MemoStore α) (Option α) := fun ((i, k), s) =>
  match s.force i k with
  | .ok (some a) s => .ok (some a) ((i, k + 1), s)
  | .ok none s => .ok none ((i, k), s)
  | .error e s => .error e ((i, k), s)

theorem MemoStore.place_advance (i k : Nat) (s : MemoStore α) :
    (advance.attempt ((i, k), s)).2.1 =
      (i, k + if Answer.isItem (advance.attempt ((i, k), s)).1 then 1 else 0) := by
  cases hforce : s.force i k with
  | error e s' =>
    simp only [Act.attempt, advance, hforce]
    rfl
  | ok x s' => cases x <;> simp [Act.attempt, advance, hforce, Answer.isItem]

/-- The traversal stands at the place, over the same store. -/
def StandsAt (stand : τ → Nat × Nat) (q : τ × MemoStore α) (p : (Nat × Nat) × MemoStore α) : Prop :=
  stand q.1 = p.1 ∧ q.2 = p.2

section Advance

variable {s : MemoStore α}

/-- An iterator is no more than its position, if there is nothing at the position where it has seen
the end. -/
theorem MemoIter.agree_advance {it : MemoIter}
    (hend : it.finished = true → s.force it.memo it.position = .ok none s) :
    Act.Agree (· = ·) (StandsAt fun it : MemoIter => (it.memo, it.position)) (next (it, s))
      (MemoStore.advance ((it.memo, it.position), s)) := by
  obtain ⟨memo, position, finished⟩ := it
  simp only [next, MemoStore.advance]
  cases finished with
  | true =>
    rw [hend rfl]
    exact ⟨rfl, rfl, rfl⟩
  | false =>
    simp only [Bool.false_eq_true, if_false]
    cases s.force memo position with
    | error e s' => exact ⟨rfl, rfl, rfl⟩
    | ok x s' => cases x <;> exact ⟨rfl, rfl, rfl⟩

theorem MemoCursor.agree_advance {c : MemoCursor}
    (hend : c.atEnd = true → s.force c.memo c.position = .ok none s) :
    Act.Agree (· = ·) (StandsAt fun c : MemoCursor => (c.memo, c.position)) (next (c, s))
      (MemoStore.advance ((c.memo, c.position), s)) := by
  obtain ⟨memo, position, started, atEnd⟩ := c
  simp only [next, MemoStore.advance]
  cases atEnd with
  | true =>
    rw [hend rfl]
    exact ⟨rfl, rfl, rfl⟩
  | false =>
    simp only [Bool.false_eq_true, if_false]
    cases s.force memo position with
    | error e s' => exact ⟨rfl, rfl, rfl⟩
    | ok x s' => cases x <;> exact ⟨rfl, rfl, rfl⟩

/-- Where a reading has seen the end, the memo has ended. -/
theorem Reading.Of.force_of_ended {rd : Reading} {w : Shelf α} {r : Replayed α} (hr : rd.Of w r)
    (h : s.Kept w) {position : Nat} (hp : r.source.Place rd.calls position true) :
    s.force rd.memo position = .ok none s := by
  obtain ⟨m, hm, -, hreads, -⟩ := h.exists_memo hr.1
  have hlt := (r.source.replay_of_ended hp.ended (Nat.le_refl _)).1
  have hsize : m.items.size = position := by
    rw [hreads.evaluated, hp.position, r.source.itemsWithin_of_stopped hlt hr.2]
  have hstatus : m.status = .ended := by
    rw [hreads.status, r.source.statusWithin_of_stopped hlt hr.2, hp.ended]
  rw [MemoStore.force, hm]
  simp only [hsize, Nat.lt_irrefl, dite_false, hstatus]

end Advance

/-! ## Histories of a session -/

namespace MemoSession

/-- The history of each iterator and of each cursor. -/
structure Heard (α : Type) where
  iters : Nat → List (Answer α)
  cursors : Nat → List (Answer α)

/-- The answers that an operation gets from an iterator. -/
def iterAnswers (s : MemoSession α) (op : MemoOp α) (x : Nat) : List (Answer α) :=
  match s.iters[x]? with
  | none => []
  | some it => op.answers MemoIter.next (it, s.store)

/-- The answers that an operation gets from a cursor. -/
def cursorAnswers (s : MemoSession α) (op : MemoOp α) (x : Nat) : List (Answer α) :=
  match (s.cursors[x]?).join with
  | none => []
  | some c => op.answers MemoCursor.next (c, s.store)

namespace Heard

/-- Nothing has been called. -/
def nothing : Heard α := ⟨fun _ => [], fun _ => []⟩

def setIter (x : Nat) (history : List (Answer α)) (h : Heard α) : Heard α :=
  { h with iters := Function.update h.iters x history }

def setCursor (x : Nat) (history : List (Answer α)) (h : Heard α) : Heard α :=
  { h with cursors := Function.update h.cursors x history }

/-- The histories after an operation. A new traversal has the history of the one that it was cloned
from, or none. -/
def after (s : MemoSession α) (h : Heard α) (op : MemoOp α) : Heard α :=
  match op with
  | .iter _ => h.setIter s.iters.size []
  | .iterClone x => h.setIter s.iters.size (h.iters x)
  | .iterNext x | .iterPull x _ | .iterCount x _ =>
    h.setIter x (h.iters x ++ s.iterAnswers op x)
  | .cursor _ | .intoCursor _ => h.setCursor s.cursors.size []
  | .cursorClone x => h.setCursor s.cursors.size (h.cursors x)
  | .cursorNext x | .cursorPull x _ | .cursorCount x _ =>
    h.setCursor x (h.cursors x ++ s.cursorAnswers op x)
  | _ => h

/-- The histories after operations one after the other. -/
def afterAll : List (MemoOp α) → MemoSession α → Heard α → Heard α
  | [], _, h => h
  | op :: ops, s, h => afterAll ops ((perform op).attempt s).2 (h.after s op)

end Heard

theorem attempt_iterDebug {s : MemoSession α} {x : Nat} {it : MemoIter}
    (hx : s.iters[x]? = some it) :
    (perform (.iterDebug x)).attempt s = (.ok (.text it.debug), s) := by
  simp only [Act.attempt, perform, withIter, hx, Act.get_bind]
  exact congrArg (fun iters => (_, { s with iters })) (setIfInBounds_of_some hx)

theorem attempt_cursorDebug {s : MemoSession α} {x : Nat} {c : MemoCursor}
    (hx : (s.cursors[x]?).join = some c) :
    (perform (.cursorDebug x)).attempt s = (.ok (.text c.debug), s) := by
  simp only [Act.attempt, perform, withCursor, hx, Act.get_bind]
  exact congrArg (fun cursors => (_, { s with cursors }))
    (setIfInBounds_of_some (Option.join_eq_some_iff.1 hx))

theorem stays_iterDebug (s : MemoSession α) (x : Nat) :
    ((perform (.iterDebug x)).attempt s).2 = s := by
  cases hx : s.iters[x]? with
  | none => simp only [Act.attempt, perform, withIter, hx]
  | some it => rw [attempt_iterDebug hx]

theorem stays_cursorDebug (s : MemoSession α) (x : Nat) :
    ((perform (.cursorDebug x)).attempt s).2 = s := by
  cases hx : (s.cursors[x]?).join with
  | none => simp only [Act.attempt, perform, withCursor, hx]
  | some c => rw [attempt_cursorDebug hx]

/-- Every traversal knows what its history says. -/
structure Told (h : Heard α) (s : MemoSession α) : Prop where
  iters : AllTold MemoIter.Told (fun x => s.iters[x]?) h.iters
  cursors : AllTold MemoCursor.Told (fun x => (s.cursors[x]?).join) h.cursors

namespace Told

variable {h : Heard α} {s s' : MemoSession α}

theorem of_same (ht : Told h s) (hiters : s'.iters = s.iters) (hcursors : s'.cursors = s.cursors) :
    Told h s' :=
  ⟨by rw [hiters]; exact ht.iters, by rw [hcursors]; exact ht.cursors⟩

/-- The history at a place that is not in use does not matter. -/
theorem setIter_of_none (ht : Told h s) {x : Nat} (hx : s.iters[x]? = none)
    (history : List (Answer α)) : Told (h.setIter x history) s :=
  ⟨ht.iters.update (fun _ _ => rfl) (fun _ hit => nomatch hx.symm.trans hit), ht.cursors⟩

theorem setCursor_of_none (ht : Told h s) {x : Nat} (hx : (s.cursors[x]?).join = none)
    (history : List (Answer α)) : Told (h.setCursor x history) s :=
  ⟨ht.iters, ht.cursors.update (fun _ _ => rfl) (fun _ hc => nomatch hx.symm.trans hc)⟩

theorem addIter (ht : Told h s) {it : MemoIter} {history : List (Answer α)}
    (hit : it.Told history) :
    Told (h.setIter s.iters.size history) ((MemoSession.addIter it).attempt s).2 := by
  refine ⟨ht.iters.update (fun y hy => ?_) fun it' hit' => ?_, ht.cursors⟩
  · exact (Array.getElem?_push).trans (if_neg hy)
  · rw [Act.attempt, MemoSession.addIter, Array.getElem?_push_size] at hit'
    exact Option.some.inj hit' ▸ hit

theorem addCursor (ht : Told h s) {c : MemoCursor} {history : List (Answer α)}
    (hc : c.Told history) :
    Told (h.setCursor s.cursors.size history) ((MemoSession.addCursor c).attempt s).2 := by
  refine ⟨ht.iters, ht.cursors.update (fun y hy => ?_) fun c' hc' => ?_⟩
  · exact congrArg Option.join ((Array.getElem?_push).trans (if_neg hy))
  · rw [Act.attempt, MemoSession.addCursor, Array.getElem?_push_size] at hc'
    exact Option.some.inj hc' ▸ hc

theorem withMemo {handle : Nat} {act : Nat → Act (MemoSession α) (MemoReply α)}
    (hnone : Told h s) (hact : ∀ i, Told h ((act i).attempt s).2) :
    Told h ((MemoSession.withMemo handle act).attempt s).2 := by
  cases hi : s.memo? handle with
  | none => rwa [Act.attempt, withMemo_of_none hi]
  | some i =>
    rw [Act.attempt, withMemo_of_some hi]
    exact hact i

theorem onStore (ht : Told h s) (act : Act (MemoStore α) (MemoReply α)) :
    Told h ((MemoSession.onStore act).attempt s).2 := by
  rw [stays_onStore]
  exact ht.of_same rfl rfl

theorem inspect (ht : Told h s) (i : Nat) (look : Memo α → MemoReply α) :
    Told h ((MemoSession.inspect i look).attempt s).2 := by
  simp only [Act.attempt, MemoSession.inspect, Act.get_bind]
  cases s.store.memos[i]? <;> exact ht

/-- Calling an iterator adds the answers to its history. -/
theorem withIter (ht : Told h s) (op : MemoOp α) (x : Nat) :
    Told (h.setIter x (h.iters x ++ s.iterAnswers op x))
      ((MemoSession.withIter x (op.calling MemoIter.next)).attempt s).2 := by
  cases hx : s.iters[x]? with
  | none =>
    simp only [Act.attempt, MemoSession.withIter, hx]
    exact ht.setIter_of_none hx _
  | some it =>
    have hlt := (Array.getElem?_eq_some_iff.1 hx).1
    have hcalls := MemoOp.refines_calling (MemoIter.refines_noted (h.iters x)) op
      ((it, s.store), []) (it, s.store) ⟨rfl, by rw [List.append_nil]; exact ht.iters x it hx⟩
    have hset : ∀ (it' : MemoIter) (store : MemoStore α) (notes : List (Answer α)),
        it'.Told (h.iters x ++ notes) → Told (h.setIter x (h.iters x ++ notes))
          { s with store, iters := s.iters.setIfInBounds x it' } := by
      intro it' store notes hit'
      refine ⟨ht.iters.update (fun y hy => ?_) fun it'' hit'' => ?_, ht.cursors⟩
      · exact Array.getElem?_setIfInBounds_ne hy.symm
      · rw [Array.getElem?_setIfInBounds_self_of_lt hlt] at hit''
        exact Option.some.inj hit'' ▸ hit'
    simp only [Act.attempt, MemoSession.withIter, hx, iterAnswers, MemoOp.answers]
    exact hcalls.elim (fun _ _ _ hp => hset _ _ _ hp.2) (fun _ _ _ _ _ hp => hset _ _ _ hp.2)

theorem withCursor (ht : Told h s) (op : MemoOp α) (x : Nat) :
    Told (h.setCursor x (h.cursors x ++ s.cursorAnswers op x))
      ((MemoSession.withCursor x (op.calling MemoCursor.next)).attempt s).2 := by
  cases hx : (s.cursors[x]?).join with
  | none =>
    simp only [Act.attempt, MemoSession.withCursor, hx]
    exact ht.setCursor_of_none hx _
  | some c =>
    have hlt := (Array.getElem?_eq_some_iff.1 (Option.join_eq_some_iff.1 hx)).1
    have hcalls := MemoOp.refines_calling (MemoCursor.refines_noted (h.cursors x)) op
      ((c, s.store), []) (c, s.store) ⟨rfl, by rw [List.append_nil]; exact ht.cursors x c hx⟩
    have hset : ∀ (c' : MemoCursor) (store : MemoStore α) (notes : List (Answer α)),
        c'.Told (h.cursors x ++ notes) → Told (h.setCursor x (h.cursors x ++ notes))
          { s with store, cursors := s.cursors.setIfInBounds x (some c') } := by
      intro c' store notes hc'
      refine ⟨ht.iters, ht.cursors.update (fun y hy => ?_) fun c'' hc'' => ?_⟩
      · exact congrArg Option.join (Array.getElem?_setIfInBounds_ne hy.symm)
      · rw [Array.getElem?_setIfInBounds_self_of_lt hlt] at hc''
        exact Option.some.inj hc'' ▸ hc'
    simp only [Act.attempt, MemoSession.withCursor, hx, cursorAnswers, MemoOp.answers]
    exact hcalls.elim (fun _ _ _ hp => hset _ _ _ hp.2) (fun _ _ _ _ _ hp => hset _ _ _ hp.2)

theorem intoCursor (ht : Told h s) (m : Nat) :
    Told (h.setCursor s.cursors.size []) ((MemoSession.perform (.intoCursor m)).attempt s).2 := by
  have hnone : (s.cursors[s.cursors.size]?).join = none := by simp
  refine withMemo (ht.setCursor_of_none hnone []) fun i => ?_
  have hdropped : Told h { s with handles := s.handles.setIfInBounds m none } := ht.of_same rfl rfl
  exact hdropped.addCursor (MemoCursor.told_start i)

theorem dropCursor (ht : Told h s) (x : Nat) :
    Told h { s with cursors := s.cursors.setIfInBounds x none } := by
  refine ⟨ht.iters, fun y c hy => ht.cursors y c ?_⟩
  obtain hslot := Option.join_eq_some_iff.1 hy
  rw [Array.getElem?_setIfInBounds] at hslot
  split at hslot
  · split at hslot <;> cases hslot
  · exact Option.join_eq_some_iff.2 hslot

/-- Every operation tells the traversals what it gets from them. -/
theorem perform (ht : Told h s) (op : MemoOp α) :
    Told (h.after s op) ((MemoSession.perform op).attempt s).2 := by
  have hiter : s.iters[s.iters.size]? = none := Array.getElem?_eq_none (Nat.le_refl _)
  have hcursor : (s.cursors[s.cursors.size]?).join = none := by simp
  cases op with
  | head m | get m k | findFirst m test | all m n | count m n | window m w n | traversals m k =>
    exact withMemo ht fun i => ht.onStore _
  | evaluated m | isExhausted m | debug m => exact withMemo ht fun i => ht.inspect i _
  | clone m | drop m | derive m f => exact withMemo ht fun i => ht.of_same rfl rfl
  | merge ms order n =>
    simp only [MemoSession.perform, Act.attempt, Act.get_bind]
    cases ms.mapM s.memo? with
    | none => exact ht
    | some memos => exact ht.onStore _
  | iter m =>
    exact withMemo (ht.setIter_of_none hiter []) fun i => ht.addIter (MemoIter.told_start i)
  | cursor m =>
    exact withMemo (ht.setCursor_of_none hcursor []) fun i => ht.addCursor (MemoCursor.told_start i)
  | intoCursor m => exact ht.intoCursor m
  | iterNext x | iterPull x n | iterCount x n => exact ht.withIter _ x
  | cursorNext x | cursorPull x n | cursorCount x n => exact ht.withCursor _ x
  | iterClone x =>
    simp only [MemoSession.perform, Act.attempt, Act.get_bind]
    cases hx : s.iters[x]? with
    | none => exact ht.setIter_of_none hiter _
    | some it => exact ht.addIter (ht.iters x it hx)
  | cursorClone x =>
    simp only [MemoSession.perform, Act.attempt, Act.get_bind]
    cases hx : (s.cursors[x]?).join with
    | none => exact ht.setCursor_of_none hcursor _
    | some c => exact ht.addCursor (ht.cursors x c hx)
  | iterDebug x =>
    rw [stays_iterDebug]
    exact ht
  | cursorDebug x =>
    rw [stays_cursorDebug]
    exact ht
  | cursorDrop x => exact ht.dropCursor x

theorem start (sources : List (Source α)) : Told Heard.nothing (MemoSession.start sources) :=
  ⟨fun _ _ hx => (nomatch hx), fun _ _ hx => (nomatch hx)⟩

theorem attemptAll (ops : List (MemoOp α)) : ∀ {s : MemoSession α} {h : Heard α}, Told h s →
    Told (Heard.afterAll ops s h) (Act.attemptAll (ops.map MemoSession.perform) s).2 := by
  induction ops with
  | nil => exact fun ht => ht
  | cons op ops ih => exact fun ht => ih (ht.perform op)

end Told

/-! ## Positions -/

section Positions

variable {s : MemoSession α} {r : ReplaySession α} {w₀ : Shelf α} {x : Nat}

/-- A traversal that has seen the end stands where its memo has ended. -/
theorem Mirrors.force_of_finished (h : Mirrors w₀ s r) {it : MemoIter} (hx : s.iters[x]? = some it)
    (hend : it.finished = true) : s.store.force it.memo it.position = .ok none s.store := by
  rcases h.iters.cases x with ⟨hnone, -⟩ | ⟨it', rd, hx', -, hat⟩
  · exact nomatch hnone.symm.trans hx
  · obtain rfl := Option.some.inj (hx.symm.trans hx')
    obtain ⟨q, hq, hplace⟩ := hat.place
    rw [hat.memo]
    exact hq.force_of_ended h.kept (hend ▸ hplace)

theorem Mirrors.force_of_atEnd (h : Mirrors w₀ s r) {c : MemoCursor}
    (hx : (s.cursors[x]?).join = some c) (hend : c.atEnd = true) :
    s.store.force c.memo c.position = .ok none s.store := by
  rcases h.cursor_cases x with ⟨hnone, -⟩ | ⟨c', rd, hx', -, hat⟩
  · exact nomatch hnone.symm.trans hx
  · obtain rfl := Option.some.inj (hx.symm.trans hx')
    obtain ⟨q, hq, hplace⟩ := hat.place
    rw [hat.memo]
    exact hq.force_of_ended h.kept (hend ▸ hplace)

/-- Asked for its next item, the asker is answered what is at position `k` of memo `i`, and moves
on. -/
@[mk_iff]
structure AnsweredAt (s : MemoSession α) (a : Asker) (i k : Nat) (answers : List (Answer α)) :
    Prop where
  reply : ((perform a.ask).attempt s).1 =
    (MemoStore.advance.attempt ((i, k), s.store)).1.map fun x => .item (.ofOption x)
  answers : answers = [(MemoStore.advance.attempt ((i, k), s.store)).1]
  store : ((perform a.ask).attempt s).2.store =
    (MemoStore.advance.attempt ((i, k), s.store)).2.2
  stands : ((perform a.ask).attempt s).2.stands? a =
    some (MemoStore.advance.attempt ((i, k), s.store)).2.1

theorem Mirrors.iter_answeredAt (h : Mirrors w₀ s r) {it : MemoIter}
    (hx : s.iters[x]? = some it) :
    s.AnsweredAt (.iter x) it.memo it.position (s.iterAnswers (.iterNext x) x) := by
  have hlt := (Array.getElem?_eq_some_iff.1 hx).1
  have hstands : ∀ (it' : MemoIter) (store : MemoStore α),
      stands? { s with store, iters := s.iters.setIfInBounds x it' } (.iter x) =
        some (it'.memo, it'.position) := fun it' store =>
    congrArg (Option.map _) (Array.getElem?_setIfInBounds_self_of_lt hlt)
  simp only [answeredAt_iff, Asker.ask, perform, Act.attempt, withIter, hx, iterAnswers,
    MemoOp.answers, MemoOp.calling, Act.noted, Bind.bind, EStateM.bind]
  refine (MemoIter.agree_advance (h.force_of_finished hx)).elim ?_ ?_
  · rintro a ⟨it', store⟩ p ⟨hstand, hstore⟩
    exact ⟨rfl, rfl, hstore, (hstands it' store).trans (congrArg some hstand)⟩
  · rintro e _ ⟨it', store⟩ p rfl ⟨hstand, hstore⟩
    exact ⟨rfl, rfl, hstore, (hstands it' store).trans (congrArg some hstand)⟩

theorem Mirrors.cursor_answeredAt (h : Mirrors w₀ s r) {c : MemoCursor}
    (hx : (s.cursors[x]?).join = some c) :
    s.AnsweredAt (.cursor x) c.memo c.position (s.cursorAnswers (.cursorNext x) x) := by
  have hlt := (Array.getElem?_eq_some_iff.1 (Option.join_eq_some_iff.1 hx)).1
  have hstands : ∀ (c' : MemoCursor) (store : MemoStore α),
      stands? { s with store, cursors := s.cursors.setIfInBounds x (some c') } (.cursor x) =
        some (c'.memo, c'.position) := fun c' store =>
    congrArg (Option.map _ ∘ Option.join) (Array.getElem?_setIfInBounds_self_of_lt hlt)
  simp only [answeredAt_iff, Asker.ask, perform, Act.attempt, withCursor, hx, cursorAnswers,
    MemoOp.answers, MemoOp.calling, Act.noted, Bind.bind, EStateM.bind]
  refine (MemoCursor.agree_advance (h.force_of_atEnd hx)).elim ?_ ?_
  · rintro a ⟨c', store⟩ p ⟨hstand, hstore⟩
    exact ⟨rfl, rfl, hstore, (hstands c' store).trans (congrArg some hstand)⟩
  · rintro e _ ⟨c', store⟩ p rfl ⟨hstand, hstore⟩
    exact ⟨rfl, rfl, hstore, (hstands c' store).trans (congrArg some hstand)⟩

end Positions

/-- An iterator and a cursor that have received equally many items are answered alike, do the same
to their memo and come to the same place; and what they show of themselves is in their histories. -/
theorem traversals_alike (sources : List (Source α)) (ops : List (MemoOp α)) :
    let s := (Act.attemptAll (ops.map perform) (start sources)).2
    let h := Heard.afterAll ops (start sources) .nothing
    (∀ (x y : Nat) (it : MemoIter) (c : MemoCursor), s.iters[x]? = some it →
      (s.cursors[y]?).join = some c → it.memo = c.memo →
      received (h.iters x) = received (h.cursors y) → ∃ answer : Answer α,
        ((perform (.iterNext x)).attempt s).1 = answer.map (fun a => .item (.ofOption a)) ∧
        ((perform (.cursorNext y)).attempt s).1 = answer.map (fun a => .item (.ofOption a)) ∧
        (h.after s (.iterNext x)).iters x = h.iters x ++ [answer] ∧
        (h.after s (.cursorNext y)).cursors y = h.cursors y ++ [answer] ∧
        ((perform (.iterNext x)).attempt s).2.store =
          ((perform (.cursorNext y)).attempt s).2.store ∧
        ((perform (.iterNext x)).attempt s).2.stands? (.iter x) =
          some (it.memo, received (h.iters x ++ [answer])) ∧
        ((perform (.cursorNext y)).attempt s).2.stands? (.cursor y) =
          some (it.memo, received (h.iters x ++ [answer]))) ∧
    (∀ (x : Nat) (it : MemoIter), s.iters[x]? = some it → ∃ finished : Bool,
      (perform (.iterDebug x)).attempt s =
        (.ok (.text (Text.record "Iter" [("finished", Text.truth finished)])), s) ∧
      (finished = true ↔ .ok none ∈ h.iters x)) ∧
    ∀ (y : Nat) (c : MemoCursor), (s.cursors[y]?).join = some c → ∃ started : Bool,
      (perform (.cursorDebug y)).attempt s =
        (.ok (.text (Text.record "Cursor" [("started", Text.truth started)])), s) ∧
      (started = true ↔ ∃ a, .ok a ∈ h.cursors y) := by
  intro s h
  have hmirrors := mirrors_attemptAll (mirrors_start sources) ops
  have htold : Told h s := (Told.start sources).attemptAll ops
  refine ⟨fun x y it c hx hy hmemo hreceived => ?_, fun x it hx => ?_, fun y c hy => ?_⟩
  · have hiter := hmirrors.iter_answeredAt hx
    have hcursor := hmirrors.cursor_answeredAt hy
    have hposition : c.position = it.position := by
      rw [(htold.iters x it hx).position, (htold.cursors y c hy).position, hreceived]
    rw [← hmemo, hposition] at hcursor
    refine ⟨(MemoStore.advance.attempt ((it.memo, it.position), s.store)).1, hiter.reply,
      hcursor.reply, ?_, ?_, hiter.store.trans hcursor.store.symm, ?_, ?_⟩
    · rw [← hiter.answers]
      exact Function.update_self x _ _
    · rw [← hcursor.answers]
      exact Function.update_self y _ _
    · rw [received_concat, ← (htold.iters x it hx).position, ← MemoStore.place_advance]
      exact hiter.stands
    · rw [received_concat, ← (htold.iters x it hx).position, ← MemoStore.place_advance]
      exact hcursor.stands
  · exact ⟨it.finished, attempt_iterDebug hx, (htold.iters x it hx).finished⟩
  · exact ⟨c.started, attempt_cursorDebug hy, (htold.cursors y c hy).started⟩

theorem traversals_alike_of_script :
    let source : Source Nat := .ofScript [.item 4, .stop, .item 9]
    let ops : List (MemoOp Nat) := [.iter 0, .cursor 0, .iterPull 0 3, .iterClone 0, .cursorNext 0]
    ∃ s h, s = (Act.attemptAll (ops.map perform) (start [source])).2 ∧
      h = Heard.afterAll ops (start [source]) .nothing ∧
      s.iters[1]? = some ⟨0, 1, true⟩ ∧ (s.cursors[0]?).join = some ⟨0, 1, true, false⟩ ∧
      h.iters 1 = [.ok (some 4), .ok none] ∧ h.cursors 0 = [.ok (some 4)] ∧
      ((perform (.iterNext 1)).attempt s).2.store =
        ((perform (.cursorNext 0)).attempt s).2.store ∧
      (perform (.iterDebug 1)).attempt s =
        (.ok (.text (Text.record "Iter" [("finished", Text.truth true)])), s) := by
  intro source ops
  have hx : (Act.attemptAll (ops.map perform) (start [source])).2.iters[1]? =
      some ⟨0, 1, true⟩ := by
    subst source ops
    with_unfolding_all rfl
  have hy : ((Act.attemptAll (ops.map perform) (start [source])).2.cursors[0]?).join =
      some ⟨0, 1, true, false⟩ := by
    subst source ops
    with_unfolding_all rfl
  have hiter : (Heard.afterAll ops (start [source]) .nothing).iters 1 =
      [.ok (some 4), .ok none] := by
    subst source ops
    with_unfolding_all rfl
  have hcursor : (Heard.afterAll ops (start [source]) .nothing).cursors 0 = [.ok (some 4)] := by
    subst source ops
    with_unfolding_all rfl
  obtain ⟨s, hs⟩ : ∃ s, s = (Act.attemptAll (ops.map perform) (start [source])).2 := ⟨_, rfl⟩
  obtain ⟨h, hh⟩ : ∃ h, h = Heard.afterAll ops (start [source]) .nothing := ⟨_, rfl⟩
  rw [← hs] at hx hy
  rw [← hh] at hiter hcursor
  obtain ⟨halike, hfinished, -⟩ := traversals_alike [source] ops
  rw [← hs, ← hh] at halike
  rw [← hs, ← hh] at hfinished
  have hreceived : received (h.iters 1) = received (h.cursors 0) := by
    rw [hiter, hcursor]
    rfl
  obtain ⟨answer, -, -, -, -, hstore, -⟩ := halike 1 0 _ _ hx hy rfl hreceived
  obtain ⟨finished, hdebug, hiff⟩ := hfinished 1 _ hx
  have hend : .ok none ∈ h.iters 1 := by
    rw [hiter]
    simp
  obtain rfl : finished = true := hiff.2 hend
  exact ⟨s, h, hs, hh, hx, hy, hiter, hcursor, hstore, hdebug⟩

end MemoSession

end Streamkit
