import Streamkit.Proofs.Merge.Transfer
import Streamkit.Sequence.Memo.Session

/-!
# Sessions in lockstep

Two sessions with the same handles and traversals, on stores that are related, move in lockstep: an
operation gives the same reply in both and leaves them related, or gives up in both, and then the
handles and traversals are the same again (`MemoSession.coupled_perform`). What has to be known of
the relations between the stores is how reading a position changes them, and that nothing else tells
the stores apart: `MemoStore.Matching`.
-/

namespace Streamkit

variable {α β : Type}

/-- A closure of the operation raises the fault. -/
def MemoOp.Raises : MemoOp α → Fault → Prop
  | findFirst _ test, e => ∃ a, test a = .error e
  | derive _ f, e => ∃ a, f a = .error e
  | merge _ order _, e => ∃ a b, order a b = .error e
  | _, _ => False

/-- Relations between stores, after a value and after a fault, that hold on while the stores are
used in the same way and closures raise no faults but `raised`. -/
structure MemoStore.Matching (raised : Fault → Prop) (values : MemoStore α → MemoStore α → Prop)
    (faults : Fault → Fault → MemoStore α → MemoStore α → Prop) : Prop where
  force : ∀ i k, Act.Coupled values faults (MemoStore.force i k) (MemoStore.force i k)
  note : ∀ {s r} a, values s r → values (s.note (.tested a)) (r.note (.tested a))
  add : ∀ {s r} parent f, (∀ a e, f a = .error e → raised e) → values s r →
    values (s.add (.mapped parent f)) (r.add (.mapped parent f))
  known : ∀ {s r}, values s r →
    s.memos.map (fun m => (m.evaluated, m.isExhausted)) =
      r.memos.map fun m => (m.evaluated, m.isExhausted)
  raise : ∀ {s r e}, raised e → values s r → faults e e s r

section Traversals

variable {raised : Fault → Prop} {values : MemoStore α → MemoStore α → Prop}
  {faults : Fault → Fault → MemoStore α → MemoStore α → Prop}

namespace MemoStore.Matching

variable (h : MemoStore.Matching raised values faults)

include h

theorem size {s r : MemoStore α} (hs : values s r) : s.memos.size = r.memos.size := by
  simpa using congrArg Array.size (h.known hs)

theorem coupled_iterNext :
    Act.Coupled (Act.Beside values) (fun e f => Act.Beside (faults e f)) MemoIter.next
      MemoIter.next := by
  rintro ⟨it, s⟩ ⟨it', r⟩ ⟨rfl, hs⟩
  simp only [MemoIter.next]
  cases it.finished with
  | true => exact ⟨rfl, rfl, hs⟩
  | false =>
    simp only [Bool.false_eq_true, if_false]
    refine (h.force it.memo it.position s r hs).elim (fun x s r hs => ?_)
      (fun _ _ _ _ hs => ⟨rfl, hs⟩)
    cases x <;> exact ⟨rfl, rfl, hs⟩

theorem coupled_cursorNext :
    Act.Coupled (Act.Beside values) (fun e f => Act.Beside (faults e f)) MemoCursor.next
      MemoCursor.next := by
  rintro ⟨c, s⟩ ⟨c', r⟩ ⟨rfl, hs⟩
  simp only [MemoCursor.next]
  cases c.atEnd with
  | true => exact ⟨rfl, rfl, hs⟩
  | false =>
    simp only [Bool.false_eq_true, if_false]
    refine (h.force c.memo c.position s r hs).elim (fun x s r hs => ?_)
      (fun _ _ _ _ hs => ⟨rfl, hs⟩)
    cases x <;> exact ⟨rfl, rfl, hs⟩

theorem coupled_noteTest {test : α → Except Fault Bool}
    (htest : ∀ a e, test a = .error e → raised e) (a : α) :
    Act.Coupled (Act.Beside values) (fun e f => Act.Beside (faults e f))
      (MemoSession.noteTest test a) (MemoSession.noteTest test a) := by
  rintro ⟨it, s⟩ ⟨it', r⟩ ⟨rfl, hs⟩
  have hreply : Act.Coupled (Act.Beside values) (fun e f => Act.Beside (faults e f))
      (Act.ofExcept (test a) : Act (MemoIter × MemoStore α) Bool) (Act.ofExcept (test a)) :=
    Act.coupled_ofExcept fun e he p q hpq => ⟨hpq.1, h.raise (htest a e he) hpq.2⟩
  exact hreply (it, s.note (.tested a)) (it, r.note (.tested a)) ⟨rfl, h.note a hs⟩

theorem coupled_mergeInputs {order : α → α → Except Fault Ordering}
    (horder : ∀ a b e, order a b = .error e → raised e) :
    (MemoSession.mergeInputs order).Coupled (Act.Beside values)
      (fun e f => Act.Beside (faults e f)) (MemoSession.mergeInputs order) where
  poll j := by
    rintro ⟨iters, s⟩ ⟨iters', r⟩ ⟨rfl, hs⟩
    simp only [MemoSession.mergeInputs]
    cases iters[j]? with
    | none => exact ⟨rfl, rfl, hs⟩
    | some it =>
      dsimp only
      refine (h.coupled_iterNext (it, s) (it, r) ⟨rfl, hs⟩).elim ?_ ?_
      · rintro x ⟨it, s⟩ ⟨it', r⟩ ⟨rfl, hs⟩
        exact ⟨rfl, rfl, hs⟩
      · rintro e f ⟨it, s⟩ ⟨it', r⟩ ⟨rfl, hs⟩
        exact ⟨rfl, hs⟩
  order a b := Act.coupled_ofExcept fun e he p q hpq =>
    ⟨hpq.1, h.raise (horder a b e he) hpq.2⟩

theorem coupled_mergeMemos {order : α → α → Except Fault Ordering}
    (horder : ∀ a b e, order a b = .error e → raised e) (memos : List Nat) (limit : Nat) :
    Act.Coupled values faults (MemoSession.mergeMemos order memos limit)
      (MemoSession.mergeMemos order memos limit) := by
  intro s r hs
  have hinputs := h.coupled_mergeInputs horder
  have hmerge := (Merge.coupled_openAll hinputs memos.length).bind fun _ =>
    Act.coupled_pull (Merge.coupled_next hinputs) limit
  simp only [MemoSession.mergeMemos]
  refine (hmerge (.ofWorld (_, s)) (.ofWorld (_, r)) ⟨rfl, rfl, hs⟩).elim ?_ ?_
  · exact fun p m m' hm => ⟨rfl, hm.2.2⟩
  · exact fun e f m m' hm => hm.2.2

end MemoStore.Matching

theorem MemoStore.coupled_traverse {act act' : Act (MemoIter × MemoStore α) β}
    (hact : Act.Coupled (Act.Beside values) (fun e f => Act.Beside (faults e f)) act act')
    (i : Nat) : Act.Coupled values faults (traverse i act) (traverse i act') := by
  intro s r hs
  simp only [traverse]
  refine (hact (.start i, s) (.start i, r) ⟨rfl, hs⟩).elim ?_ ?_
  · exact fun b p q hpq => ⟨rfl, hpq.2⟩
  · exact fun e f p q hpq => hpq.2

end Traversals

namespace MemoSession

/-- The same handles and traversals, on related stores. -/
structure Lockstep (stores : MemoStore α → MemoStore α → Prop) (s r : MemoSession α) : Prop where
  store : stores s.store r.store
  handles : s.handles = r.handles
  iters : s.iters = r.iters
  cursors : s.cursors = r.cursors

variable {raised : Fault → Prop} {values : MemoStore α → MemoStore α → Prop}
  {faults : Fault → Fault → MemoStore α → MemoStore α → Prop}

/-! ## The parts of a session -/

section Parts

theorem Lockstep.memo?_eq {s r : MemoSession α} (h : Lockstep values s r) : s.memo? = r.memo? :=
  funext fun handle => by rw [memo?, memo?, h.handles]

theorem coupled_onStore {act : Act (MemoStore α) β} (hact : Act.Coupled values faults act act) :
    Act.Coupled (Lockstep values) (fun e f => Lockstep (faults e f)) (onStore act)
      (onStore act) := by
  rintro ⟨s, handles, iters, cursors⟩ ⟨r, _, _, _⟩ ⟨hs, rfl, rfl, rfl⟩
  simp only [onStore]
  refine (hact s r hs).elim ?_ ?_
  · exact fun b s r hs => ⟨rfl, hs, rfl, rfl, rfl⟩
  · exact fun e f s r hs => ⟨hs, rfl, rfl, rfl⟩

theorem coupled_withMemo {act : Nat → Act (MemoSession α) (MemoReply α)}
    (hact : ∀ i, Act.Coupled (Lockstep values) (fun e f => Lockstep (faults e f)) (act i) (act i))
    (handle : Nat) :
    Act.Coupled (Lockstep values) (fun e f => Lockstep (faults e f)) (withMemo handle act)
      (withMemo handle act) := by
  intro s r hs
  rw [withMemo, Act.get_bind, Act.get_bind, hs.memo?_eq]
  cases r.memo? handle with
  | none => exact ⟨rfl, hs⟩
  | some i => exact hact i s r hs

theorem coupled_withIter {act : Act (MemoIter × MemoStore α) (MemoReply α)}
    (hact : Act.Coupled (Act.Beside values) (fun e f => Act.Beside (faults e f)) act act)
    (iter : Nat) :
    Act.Coupled (Lockstep values) (fun e f => Lockstep (faults e f)) (withIter iter act)
      (withIter iter act) := by
  rintro ⟨s, handles, iters, cursors⟩ ⟨r, _, _, _⟩ ⟨hs, rfl, rfl, rfl⟩
  simp only [withIter]
  cases iters[iter]? with
  | none => exact ⟨rfl, hs, rfl, rfl, rfl⟩
  | some it =>
    dsimp only
    refine (hact (it, s) (it, r) ⟨rfl, hs⟩).elim ?_ ?_
    · rintro b ⟨it, s⟩ ⟨it', r⟩ ⟨rfl, hs⟩
      exact ⟨rfl, hs, rfl, rfl, rfl⟩
    · rintro e f ⟨it, s⟩ ⟨it', r⟩ ⟨rfl, hs⟩
      exact ⟨hs, rfl, rfl, rfl⟩

theorem coupled_withCursor {act : Act (MemoCursor × MemoStore α) (MemoReply α)}
    (hact : Act.Coupled (Act.Beside values) (fun e f => Act.Beside (faults e f)) act act)
    (cursor : Nat) :
    Act.Coupled (Lockstep values) (fun e f => Lockstep (faults e f)) (withCursor cursor act)
      (withCursor cursor act) := by
  rintro ⟨s, handles, iters, cursors⟩ ⟨r, _, _, _⟩ ⟨hs, rfl, rfl, rfl⟩
  simp only [withCursor]
  cases (cursors[cursor]?).join with
  | none => exact ⟨rfl, hs, rfl, rfl, rfl⟩
  | some c =>
    dsimp only
    refine (hact (c, s) (c, r) ⟨rfl, hs⟩).elim ?_ ?_
    · rintro b ⟨c, s⟩ ⟨c', r⟩ ⟨rfl, hs⟩
      exact ⟨rfl, hs, rfl, rfl, rfl⟩
    · rintro e f ⟨c, s⟩ ⟨c', r⟩ ⟨rfl, hs⟩
      exact ⟨hs, rfl, rfl, rfl⟩

theorem coupled_inspect (h : MemoStore.Matching raised values faults) {look : Memo α → MemoReply α}
    (hlook : ∀ m m', m.evaluated = m'.evaluated → m.isExhausted = m'.isExhausted →
      look m = look m') (i : Nat) :
    Act.Coupled (Lockstep values) (fun e f => Lockstep (faults e f)) (inspect i look)
      (inspect i look) := by
  intro s r hs
  rw [inspect, Act.get_bind, Act.get_bind]
  have hknown := congrArg (·[i]?) (h.known hs.store)
  simp only [Array.getElem?_map] at hknown
  cases hm : s.store.memos[i]? with
  | none =>
    rw [hm, Option.map_none, eq_comm, Option.map_eq_none_iff] at hknown
    rw [hknown]
    exact ⟨rfl, hs⟩
  | some m =>
    rw [hm, Option.map_some, eq_comm, Option.map_eq_some_iff] at hknown
    obtain ⟨m', hm', heq⟩ := hknown
    rw [hm']
    exact ⟨hlook m m' (congrArg Prod.fst heq).symm (congrArg Prod.snd heq).symm, hs⟩

theorem coupled_addHandle (i : Nat) :
    Act.Coupled (Lockstep values) (fun e f => Lockstep (faults e f)) (addHandle i)
      (addHandle i) := by
  rintro ⟨s, handles, iters, cursors⟩ ⟨r, _, _, _⟩ ⟨hs, rfl, rfl, rfl⟩
  exact ⟨rfl, hs, rfl, rfl, rfl⟩

theorem coupled_dropHandle (handle : Nat) :
    Act.Coupled (Lockstep values) (fun e f => Lockstep (faults e f)) (dropHandle handle)
      (dropHandle handle) := by
  rintro ⟨s, handles, iters, cursors⟩ ⟨r, _, _, _⟩ ⟨hs, rfl, rfl, rfl⟩
  exact ⟨rfl, hs, rfl, rfl, rfl⟩

theorem coupled_addIter (it : MemoIter) :
    Act.Coupled (Lockstep values) (fun e f => Lockstep (faults e f)) (addIter it)
      (addIter it) := by
  rintro ⟨s, handles, iters, cursors⟩ ⟨r, _, _, _⟩ ⟨hs, rfl, rfl, rfl⟩
  exact ⟨rfl, hs, rfl, rfl, rfl⟩

theorem coupled_addCursor (c : MemoCursor) :
    Act.Coupled (Lockstep values) (fun e f => Lockstep (faults e f)) (addCursor c)
      (addCursor c) := by
  rintro ⟨s, handles, iters, cursors⟩ ⟨r, _, _, _⟩ ⟨hs, rfl, rfl, rfl⟩
  exact ⟨rfl, hs, rfl, rfl, rfl⟩

theorem coupled_derive (h : MemoStore.Matching raised values faults) {f : α → Except Fault α}
    (hf : ∀ a e, f a = .error e → raised e) (parent : Nat) :
    Act.Coupled (Lockstep values) (fun e f => Lockstep (faults e f)) (derive parent f)
      (derive parent f) := by
  rintro ⟨s, handles, iters, cursors⟩ ⟨r, _, _, _⟩ ⟨hs, rfl, rfl, rfl⟩
  simp only [derive, h.size hs]
  exact coupled_addHandle _ _ _ ⟨h.add parent f hf hs, rfl, rfl, rfl⟩

theorem coupled_iterText :
    Act.Coupled (Act.Beside values) (fun e f => Act.Beside (faults e f))
      (do return .text (← get).1.debug : Act (MemoIter × MemoStore α) (MemoReply α))
      (do return .text (← get).1.debug) := by
  rintro ⟨it, s⟩ ⟨it', r⟩ ⟨rfl, hs⟩
  exact ⟨rfl, rfl, hs⟩

theorem coupled_cursorText :
    Act.Coupled (Act.Beside values) (fun e f => Act.Beside (faults e f))
      (do return .text (← get).1.debug : Act (MemoCursor × MemoStore α) (MemoReply α))
      (do return .text (← get).1.debug) := by
  rintro ⟨c, s⟩ ⟨c', r⟩ ⟨rfl, hs⟩
  exact ⟨rfl, rfl, hs⟩

end Parts

/-! ## Operations -/

/-- Sessions in lockstep stay so, whatever is done. -/
theorem coupled_perform (h : MemoStore.Matching raised values faults) {op : MemoOp α}
    (hop : ∀ e, op.Raises e → raised e) :
    Act.Coupled (Lockstep values) (fun e f => Lockstep (faults e f)) (perform op)
      (perform op) := by
  have hnext := h.coupled_iterNext
  have hcursor := h.coupled_cursorNext
  cases op with
  | head m =>
    exact coupled_withMemo (fun i => coupled_onStore (.map
      (MemoStore.coupled_traverse (Act.coupled_first hnext) i) _)) m
  | get m k =>
    exact coupled_withMemo (fun i => coupled_onStore (.map
      (MemoStore.coupled_traverse (Act.coupled_nth hnext k) i) _)) m
  | evaluated m | debug m =>
    exact coupled_withMemo (coupled_inspect h fun m m' hm _ => by simp only [hm]) m
  | isExhausted m =>
    exact coupled_withMemo (coupled_inspect h fun m m' _ hm => by simp only [hm]) m
  | findFirst m test =>
    have htest := h.coupled_noteTest fun a e he => hop e ⟨a, he⟩
    exact coupled_withMemo (fun i => coupled_onStore (.map
      (MemoStore.coupled_traverse (Act.coupled_findFirst hnext htest _) i) _)) m
  | all m n =>
    exact coupled_withMemo (fun i => coupled_onStore (.map
      (MemoStore.coupled_traverse (Act.coupled_pull hnext n) i) _)) m
  | count m n =>
    exact coupled_withMemo (fun i => coupled_onStore (.map
      (MemoStore.coupled_traverse (Act.coupled_countUpTo hnext n) i) _)) m
  | clone m => exact coupled_withMemo coupled_addHandle m
  | drop m =>
    exact coupled_withMemo (fun _ => (coupled_dropHandle m).bind fun _ => Act.coupled_pure _) m
  | iter m => exact coupled_withMemo (fun i => coupled_addIter _) m
  | cursor m => exact coupled_withMemo (fun i => coupled_addCursor _) m
  | intoCursor m =>
    exact coupled_withMemo (fun i => (coupled_dropHandle m).bind fun _ => coupled_addCursor _) m
  | window m w n =>
    exact coupled_withMemo (fun i => coupled_onStore (.map
      (MemoStore.coupled_traverse (Act.coupled_nestPull hnext [w] n) i) _)) m
  | derive m f => exact coupled_withMemo (coupled_derive h fun a e he => hop e ⟨a, he⟩) m
  | traversals m k =>
    exact coupled_withMemo (fun i => coupled_onStore (.map (Act.coupled_mapM (fun _ =>
      MemoStore.coupled_traverse (Act.coupled_pull hnext maxSize) i) _) _)) m
  | merge ms order n =>
    intro s r hs
    rw [perform, Act.get_bind, Act.get_bind, hs.memo?_eq]
    cases ms.mapM r.memo? with
    | none => exact ⟨rfl, hs⟩
    | some memos =>
      have hmerge := h.coupled_mergeMemos (fun a b e he => hop e ⟨a, b, he⟩) memos n
      exact coupled_onStore (hmerge.map _) s r hs
  | iterNext i => exact coupled_withIter (hnext.bind fun _ => Act.coupled_pure _) i
  | iterPull i n =>
    exact coupled_withIter ((Act.coupled_pull hnext n).bind fun _ => Act.coupled_pure _) i
  | iterCount i n =>
    exact coupled_withIter ((Act.coupled_countUpTo hnext n).bind fun _ => Act.coupled_pure _) i
  | iterClone i =>
    intro s r hs
    rw [perform, Act.get_bind, Act.get_bind, hs.iters]
    cases r.iters[i]? with
    | none => exact ⟨rfl, hs⟩
    | some it => exact coupled_addIter it s r hs
  | iterDebug i => exact coupled_withIter coupled_iterText i
  | cursorNext c => exact coupled_withCursor (hcursor.bind fun _ => Act.coupled_pure _) c
  | cursorPull c n =>
    exact coupled_withCursor ((Act.coupled_pull hcursor n).bind fun _ => Act.coupled_pure _) c
  | cursorCount c n =>
    exact coupled_withCursor
      ((Act.coupled_countUpTo hcursor n).bind fun _ => Act.coupled_pure _) c
  | cursorClone c =>
    intro s r hs
    rw [perform, Act.get_bind, Act.get_bind, hs.cursors]
    cases (r.cursors[c]?).join with
    | none => exact ⟨rfl, hs⟩
    | some cursor => exact coupled_addCursor cursor s r hs
  | cursorDrop c =>
    rintro ⟨s, handles, iters, cursors⟩ ⟨r, _, _, _⟩ ⟨hs, rfl, rfl, rfl⟩
    exact ⟨rfl, hs, rfl, rfl, rfl⟩
  | cursorDebug c => exact coupled_withCursor coupled_cursorText c

end MemoSession

end Streamkit
