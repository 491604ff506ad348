import Streamkit.Proofs.Memo.Lockstep
import Streamkit.Proofs.Memo.Store

/-!
# Operations as reads of positions

`MemoStore.Yields` is what forcing a position can do, as a relation: one rule for each way in which
the position is found, or polled for, with the poll of the earlier memo as a premise. To poll a memo
of an earlier one is to move a cursor of the earlier one (`MemoStore.force_mapped`).

Whatever an operation does to a store is done by forcing positions of memos, noting tests and adding
memos: `MemoStore.Goes`. An operation that gives up has come to a store in this way, in which a
closure of the operation has raised the fault, or has forced one more position, with that fault
(`MemoSession.perform_goes`). So what forcing, noting and adding keep is kept by every session:
`MemoSession.attemptAll_keeps`.
-/

namespace Streamkit

variable {α : Type}

/-- The memo once a poll has been answered. -/
def Memo.settled (m : Memo α) : Except Fault (Option α) → Memo α
  | .ok (some a) => { m with items := m.items.push a }
  | .ok none => { m with status := .ended }
  | .error _ => { m with status := .failed }

/-- The cursor by which a memo reads the memo `parent`: it stands after the items of the memo. -/
def Memo.cursor (m : Memo α) (parent : Nat) : MemoCursor where
  memo := parent
  position := m.items.size
  started := m.isExhausted || decide (0 < m.items.size)
  atEnd := m.isExhausted

@[simp] theorem Memo.cursor_ofOrigin (origin : MemoOrigin α) (parent : Nat) :
    (Memo.ofOrigin origin).cursor parent = .start parent := rfl

namespace MemoStore

/-! ## What forcing a position does -/

/-- The store once a poll of memo `i` has been answered. -/
def settled (i : Nat) (x : Except Fault (Option α)) (s : MemoStore α) : MemoStore α :=
  match x with
  | .ok none => (s.adjust i (·.settled x)).note (.exhausted i)
  | _ => s.adjust i (·.settled x)

/-- Position `k` of memo `i`, which is `m`, has to be polled for. -/
structure Lacks (s : MemoStore α) (i k : Nat) (m : Memo α) : Prop where
  memo : s.memos[i]? = some m
  beyond : m.items.size ≤ k
  status : m.status = .reading

/-- Forcing position `k` of memo `i` gives a value or a fault and leaves a store. -/
inductive Yields : Nat → Nat → MemoStore α → Except Fault (Option α) → MemoStore α → Prop where
  | absent {i k : Nat} {s : MemoStore α} (hm : s.memos[i]? = none) : Yields i k s (.ok none) s
  | item {i k : Nat} {s : MemoStore α} {m : Memo α} {a : α} (hm : s.memos[i]? = some m)
    (ha : m.items[k]? = some a) : Yields i k s (.ok (some a)) s
  | ended {i k : Nat} {s : MemoStore α} {m : Memo α} (hm : s.memos[i]? = some m)
    (hk : m.items.size ≤ k) (hstatus : m.status = .ended) : Yields i k s (.ok none) s
  | failed {i k : Nat} {s : MemoStore α} {m : Memo α} (hm : s.memos[i]? = some m)
    (hk : m.items.size ≤ k) (hstatus : m.status = .failed) : Yields i k s (.error .memoFailed) s
  | source {i k : Nat} {s : MemoStore α} {m : Memo α} {source : Source α} (hm : s.Lacks i k m)
    (ho : m.origin = .source source) :
    Yields i k s (source.answer m.polls) ((s.countPoll i).settled i (source.answer m.polls))
  | mapped {i k parent : Nat} {s s₁ : MemoStore α} {m : Memo α} {f : α → Except Fault α} {a : α}
    (hm : s.Lacks i k m) (ho : m.origin = .mapped parent f) (hlt : parent < i)
    (h : Yields parent m.items.size (s.countPoll i) (.ok (some a)) s₁) :
    Yields i k s ((f a).map some) ((s₁.note (.mapping i a)).settled i ((f a).map some))
  | stopped {i k parent : Nat} {s s₁ : MemoStore α} {m : Memo α} {f : α → Except Fault α}
    {x : Except Fault (Option α)} (hm : s.Lacks i k m) (ho : m.origin = .mapped parent f)
    (hlt : parent < i) (h : Yields parent m.items.size (s.countPoll i) x s₁)
    (hx : ∀ a, x ≠ .ok (some a)) : Yields i k s x (s₁.settled i x)
  /-- A memo of a later one has no items. -/
  | dangling {i k parent : Nat} {s : MemoStore α} {m : Memo α} {f : α → Except Fault α}
    (hm : s.Lacks i k m) (ho : m.origin = .mapped parent f) (hge : i ≤ parent) :
    Yields i k s (.ok none) ((s.countPoll i).settled i (.ok none))

theorem settle_answer (i : Nat) (s : MemoStore α) (x : Except Fault (Option α)) :
    settle i (answer s x) = answer (s.settled i x) x := by
  rcases x with e | _ | a <;> rfl

/-- What forcing does is described by the rules. -/
theorem yields_force (i : Nat) : ∀ (k : Nat) (s : MemoStore α),
    ∃ x s', force i k s = answer s' x ∧ Yields i k s x s' := by
  -- a mapped memo forces an earlier one, so the induction is on the number of the memo
  induction i using Nat.strongRecOn with
  | ind i ih =>
    intro k s
    unfold force
    cases hm : s.memos[i]? with
    | none => exact ⟨_, _, rfl, .absent hm⟩
    | some m =>
      dsimp only
      by_cases hk : k < m.items.size
      · rw [dif_pos hk]
        exact ⟨_, _, rfl, .item hm (Array.getElem?_eq_getElem hk)⟩
      rw [dif_neg hk]
      have hk : m.items.size ≤ k := Nat.le_of_not_lt hk
      cases hstatus : m.status with
      | ended => exact ⟨_, _, rfl, .ended hm hk hstatus⟩
      | failed => exact ⟨_, _, rfl, .failed hm hk hstatus⟩
      | reading =>
        have hlacks : s.Lacks i k m := ⟨hm, hk, hstatus⟩
        dsimp only
        cases ho : m.origin with
        | source source => exact ⟨_, _, settle_answer i _ _, .source hlacks ho⟩
        | mapped parent f =>
          dsimp only
          by_cases hlt : parent < i
          · obtain ⟨x, s₁, hforce, hyields⟩ := ih parent hlt m.items.size (s.countPoll i)
            rw [if_pos hlt, hforce]
            rcases x with e | _ | a
            · exact ⟨_, _, rfl, .stopped hlacks ho hlt hyields nofun⟩
            · exact ⟨_, _, rfl, .stopped hlacks ho hlt hyields nofun⟩
            · exact ⟨_, _, settle_answer i _ _, .mapped hlacks ho hlt hyields⟩
          · rw [if_neg hlt]
            exact ⟨_, _, rfl, .dangling hlacks ho (Nat.le_of_not_lt hlt)⟩

theorem yields_of_ok {i k : Nat} {s s' : MemoStore α} {x : Option α}
    (h : s.force i k = .ok x s') : Yields i k s (.ok x) s' := by
  obtain ⟨y, s₁, hforce, hyields⟩ := yields_force i k s
  rw [h] at hforce
  cases y with
  | ok y =>
    obtain ⟨rfl, rfl⟩ := EStateM.Result.ok.inj hforce
    exact hyields
  | error e => cases hforce

theorem yields_of_error {i k : Nat} {s s' : MemoStore α} {e : Fault}
    (h : s.force i k = .error e s') : Yields i k s (.error e) s' := by
  obtain ⟨y, s₁, hforce, hyields⟩ := yields_force i k s
  rw [h] at hforce
  cases y with
  | ok y => cases hforce
  | error f =>
    obtain ⟨rfl, rfl⟩ := EStateM.Result.error.inj hforce
    exact hyields

theorem memos_settled (s : MemoStore α) (i : Nat) (x : Except Fault (Option α)) :
    (s.settled i x).memos = s.memos.modify i (·.settled x) := by
  rcases x with e | _ | a <;> rfl

theorem getElem?_settled (s : MemoStore α) (i j : Nat) (x : Except Fault (Option α)) :
    (s.settled i x).memos[j]? = if i = j then s.memos[j]?.map (·.settled x) else s.memos[j]? := by
  rw [memos_settled, Array.getElem?_modify]

theorem memo_settled_ne (s : MemoStore α) {i j : Nat} (h : i ≠ j) (x : Except Fault (Option α)) :
    (s.settled i x).memos[j]? = s.memos[j]? := by
  rw [getElem?_settled, if_neg h]

theorem memo_countPoll_ne (s : MemoStore α) {i j : Nat} (h : i ≠ j) :
    (s.countPoll i).memos[j]? = s.memos[j]? := by
  rw [countPoll, getElem?_adjust, if_neg h]

theorem Lacks.countPoll {s : MemoStore α} {i k : Nat} {m : Memo α} (hm : s.Lacks i k m) :
    (s.countPoll i).memos[i]? = some { m with polls := m.polls + 1 } := by
  rw [MemoStore.countPoll, getElem?_adjust, if_pos rfl, hm.memo]
  rfl

/-- Later memos are left as they are. -/
theorem Yields.memo_above {i k : Nat} {s t : MemoStore α} {x : Except Fault (Option α)}
    (h : Yields i k s x t) : ∀ j, i < j → t.memos[j]? = s.memos[j]? := by
  induction h with
  | absent | item | ended | failed => exact fun _ _ => rfl
  | source | dangling =>
    intro j hj
    rw [memo_settled_ne _ (Nat.ne_of_lt hj), memo_countPoll_ne _ (Nat.ne_of_lt hj)]
  | mapped _ _ hlt _ ih =>
    intro j hj
    rw [memo_settled_ne _ (Nat.ne_of_lt hj), memos_note, ih j (hlt.trans hj),
      memo_countPoll_ne _ (Nat.ne_of_lt hj)]
  | stopped _ _ hlt _ _ ih =>
    intro j hj
    rw [memo_settled_ne _ (Nat.ne_of_lt hj), ih j (hlt.trans hj),
      memo_countPoll_ne _ (Nat.ne_of_lt hj)]

/-- A memo waits for the one that it maps. -/
theorem Yields.memo_waiting {i k parent n : Nat} {s t : MemoStore α} {m : Memo α}
    {x : Except Fault (Option α)} (h : Yields parent n (s.countPoll i) x t) (hlt : parent < i)
    (hm : s.Lacks i k m) : t.memos[i]? = some { m with polls := m.polls + 1 } :=
  (h.memo_above i hlt).trans hm.countPoll

/-! ## Memos of memos

The source of a memo of an earlier one is a cursor of that one, whose items are mapped. A fresh memo
has it at the start, and each poll leaves it where the memo says, so that memos need not hold it. -/

/-- The next item of a cursor, mapped for memo `i`. -/
def nextMapped (i : Nat) (f : α → Except Fault α) : Act (MemoCursor × MemoStore α) (Option α) :=
    fun p =>
  match MemoCursor.next p with
  | .ok (some a) (c, s) => Act.ofExcept ((f a).map some) (c, s.note (.mapping i a))
  | .ok none p => .ok none p
  | .error e p => .error e p

/-- The outcome without the cursor. -/
def withoutCursor {β : Type} :
    EStateM.Result Fault (MemoCursor × MemoStore α) β → EStateM.Result Fault (MemoStore α) β
  | .ok b (_, s) => .ok b s
  | .error e (_, s) => .error e s

section Mapped

variable {i k parent : Nat} {s s₁ : MemoStore α} {m : Memo α} {f : α → Except Fault α}

theorem Lacks.atEnd_cursor (hm : s.Lacks i k m) (parent : Nat) :
    (m.cursor parent).atEnd = false := by
  rw [Memo.cursor, Memo.isExhausted, hm.status]
  rfl

/-- To poll a memo of another one is to move its cursor and to map the item. -/
theorem force_mapped (hm : s.Lacks i k m) (ho : m.origin = .mapped parent f) (hlt : parent < i) :
    s.force i k = settle i (withoutCursor (nextMapped i f (m.cursor parent, s.countPoll i))) := by
  have hposition : (s.countPoll i).force (m.cursor parent).memo (m.cursor parent).position =
      (s.countPoll i).force parent m.items.size := rfl
  rw [force, hm.memo]
  simp only [dif_neg (Nat.not_lt_of_ge hm.beyond), hm.status, ho, if_pos hlt, nextMapped,
    MemoCursor.next, hm.atEnd_cursor parent, hposition, Bool.false_eq_true, if_false]
  cases (s.countPoll i).force parent m.items.size with
  | error e s => rfl
  | ok x s =>
    cases x with
    | none => rfl
    | some a =>
      dsimp only
      cases f a <;> rfl

/-- The cursor that was moved is the one by which the memo reads on. -/
theorem cursor_of_force (hm : s.Lacks i k m) (ho : m.origin = .mapped parent f) (hlt : parent < i)
    {x : Option α} {c : MemoCursor}
    (h : nextMapped i f (m.cursor parent, s.countPoll i) = .ok x (c, s₁)) :
    ∃ t m', s.force i k = .ok x t ∧ t.memos[i]? = some m' ∧ m'.cursor parent = c := by
  have hforce := force_mapped hm ho hlt
  rw [h] at hforce
  suffices hleft : s₁.memos[i]? = some { m with polls := m.polls + 1 } ∧
      (Memo.settled { m with polls := m.polls + 1 } (.ok x)).cursor parent = c by
    refine ⟨_, _, hforce.trans (settle_answer i s₁ (.ok x)), ?_, hleft.2⟩
    rw [getElem?_settled, if_pos rfl, hleft.1]
    rfl
  have hreading : m.isExhausted = false := hm.atEnd_cursor parent
  simp only [nextMapped, MemoCursor.next, hm.atEnd_cursor parent, Bool.false_eq_true, if_false] at h
  cases hparent : (s.countPoll i).force (m.cursor parent).memo (m.cursor parent).position with
  | error e s' =>
    rw [hparent] at h
    cases h
  | ok y s' =>
    have hwaiting := (yields_of_ok hparent).memo_waiting hlt hm
    rw [hparent] at h
    cases y with
    | none =>
      cases h
      exact ⟨hwaiting, rfl⟩
    | some a =>
      dsimp only at h
      cases hf : f a with
      | error e =>
        rw [hf] at h
        cases h
      | ok b =>
        rw [hf] at h
        cases h
        refine ⟨hwaiting, ?_⟩
        show Memo.cursor { m with items := m.items.push b, polls := m.polls + 1 } parent = _
        simpa [Memo.cursor, Memo.isExhausted] using hreading

end Mapped

/-! ## What operations do -/

/-- From one store to another by forcing positions, noting tests and adding memos, none of which
gives up. -/
inductive Goes (s : MemoStore α) : MemoStore α → Prop where
  | refl : Goes s s
  | force {s₁ s₂ : MemoStore α} {i k : Nat} {x : Option α} (h : Goes s s₁)
    (hforce : s₁.force i k = .ok x s₂) : Goes s s₂
  | note {s₁ : MemoStore α} (h : Goes s s₁) (a : α) : Goes s (s₁.note (.tested a))
  | add {s₁ : MemoStore α} (h : Goes s s₁) (parent : Nat) (f : α → Except Fault α) :
    Goes s (s₁.add (.mapped parent f))

/-- The fault was raised by a closure of the operation, or by forcing one more position. -/
inductive GivesUp (op : MemoOp α) (s : MemoStore α) (e : Fault) : MemoStore α → Prop where
  | raised {s₁ : MemoStore α} (h : Goes s s₁) (he : op.Raises e) : GivesUp op s e s₁
  | force {s₁ s₂ : MemoStore α} {i k : Nat} (h : Goes s s₁)
    (hforce : s₁.force i k = .error e s₂) : GivesUp op s e s₂

/-- Forcing, noting tests and adding memos keep what is said of a store. -/
structure KeptByReading (inv : MemoStore α → Prop) : Prop where
  yields : ∀ {i k s x s'}, Yields i k s x s' → inv s → inv s'
  note : ∀ {s} a, inv s → inv (s.note (.tested a))
  add : ∀ {s} parent f, inv s → inv (s.add (.mapped parent f))

variable {inv : MemoStore α → Prop} (hinv : KeptByReading inv) {s s' : MemoStore α}

include hinv

theorem Goes.keeps (h : s.Goes s') (hs : inv s) : inv s' := by
  induction h with
  | refl => exact hs
  | force _ hforce ih => exact hinv.yields (yields_of_ok hforce) ih
  | note _ a ih => exact hinv.note a ih
  | add _ parent f ih => exact hinv.add parent f ih

theorem GivesUp.keeps {op : MemoOp α} {e : Fault} (h : s.GivesUp op e s') (hs : inv s) :
    inv s' := by
  cases h with
  | raised h _ => exact h.keeps hinv hs
  | force h hforce => exact hinv.yields (yields_of_error hforce) (h.keeps hinv hs)

end MemoStore

namespace MemoSession

theorem matching_goes (op : MemoOp α) (s₀ : MemoStore α) :
    MemoStore.Matching op.Raises (Act.Single s₀.Goes)
      fun e e' s r => e = e' ∧ Act.Single (s₀.GivesUp op e) s r where
  force i k := by
    refine Act.keeps_iff_coupled.1 fun s h => ?_
    cases hforce : s.force i k with
    | ok x s' => exact h.force hforce
    | error e s' => exact .force h hforce
  note a hs := ⟨by rw [hs.1], hs.2.note a⟩
  add parent f _ hs := ⟨by rw [hs.1], hs.2.add parent f⟩
  known hs := by rw [hs.1]
  raise he hs := ⟨rfl, hs.1, .raised hs.2 he⟩

theorem perform_goes (op : MemoOp α) (s : MemoSession α) :
    Act.Leaves (fun _ s' => s.store.Goes s'.store) (fun e s' => s.store.GivesUp op e s'.store)
      (perform op s) := by
  have hmeet := coupled_perform (matching_goes op s.store) (fun _ he => he) s s
    ⟨⟨rfl, .refl⟩, rfl, rfl, rfl⟩
  cases hrun : perform op s with
  | ok x s' =>
    rw [hrun] at hmeet
    exact hmeet.2.store.2
  | error e s' =>
    rw [hrun] at hmeet
    exact hmeet.store.2.2

/-- What reading keeps is kept by every operation, whether it gives up or not. -/
theorem attempt_keeps {inv : MemoStore α → Prop} (hinv : MemoStore.KeptByReading inv)
    (op : MemoOp α) {s : MemoSession α} (hs : inv s.store) :
    inv ((perform op).attempt s).2.store := by
  simp only [Act.attempt]
  exact (perform_goes op s).elim (fun _ _ h => h.keeps hinv hs) (fun _ _ h => h.keeps hinv hs)

theorem attemptAll_keeps {inv : MemoStore α → Prop} (hinv : MemoStore.KeptByReading inv)
    (ops : List (MemoOp α)) : ∀ {s : MemoSession α}, inv s.store →
      inv (Act.attemptAll (ops.map perform) s).2.store := by
  induction ops with
  | nil => exact id
  | cons op ops ih => exact fun hs => ih (attempt_keeps hinv op hs)

end MemoSession

end Streamkit
