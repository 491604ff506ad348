import Streamkit.Proofs.Memo.Poison
import Streamkit.Proofs.Memo.Session

/-!
# Where askers stand

Whoever can be asked for an item of a memo stands at a position of it (`MemoSession.stands?`), and
asking forces that position. For a memo whose source gives up at position `p` this says exactly what
an asker does to it: below `p` it makes the memo poll up to its position and no further, from `p` on
it poisons the memo (`MemoSession.watched_ask`). Giving up, a traversal stays where it is, and one
that is asked again and again has come to `p` when it gives up (`Traversing.keeps_next`).
-/

namespace Streamkit

variable {α τ : Type}

/-- How a traversal reads: it stands at a position of a memo, which it forces unless it has seen the
end; an item leads it to the next position. -/
structure Traversing (next : Act (τ × MemoStore α) (Option α)) (stand : τ → Nat × Nat)
    (ended : τ → Bool) : Prop where
  item : ∀ {t s a s'}, ended t = false → s.force (stand t).1 (stand t).2 = .ok (some a) s' →
    ∃ t', next (t, s) = .ok (some a) (t', s') ∧ stand t' = ((stand t).1, (stand t).2 + 1) ∧
      ended t' = false
  error : ∀ {t s e s'}, ended t = false → s.force (stand t).1 (stand t).2 = .error e s' →
    next (t, s) = .error e (t, s')

theorem MemoIter.traversing :
    Traversing (α := α) MemoIter.next (fun it => (it.memo, it.position)) MemoIter.finished where
  item hit hforce := by
    simp only [MemoIter.next, hit, hforce]
    exact ⟨_, rfl, rfl, rfl⟩
  error hit hforce := by
    simp only [MemoIter.next, hit, hforce]
    rfl

theorem MemoCursor.traversing :
    Traversing (α := α) MemoCursor.next (fun c => (c.memo, c.position)) MemoCursor.atEnd where
  item hc hforce := by
    simp only [MemoCursor.next, hc, hforce]
    exact ⟨_, rfl, rfl, rfl⟩
  error hc hforce := by
    simp only [MemoCursor.next, hc, hforce]
    rfl

/-! ## Reading a memo whose source gives up -/

section Traversing

variable {next : Act (τ × MemoStore α) (Option α)} {stand : τ → Nat × Nat} {ended : τ → Bool}
  {raised : Fault → Prop} {source : Source α} {i p n k : Nat} {fault : Fault} {t : τ}
  {s : MemoStore α}

theorem Traversing.leaves_next (ht : Traversing next stand ended)
    (hsource : source.FailsAt p fault)
    (h : s.Watched raised source i (Memo.HealthyAt p n)) (hstand : stand t = (i, k))
    (hended : ended t = false) (hk : k ≤ n) :
    Act.Leaves
      (fun x q => k < p ∧ (∃ a, x = some a) ∧ stand q.1 = (i, k + 1) ∧ ended q.1 = false ∧
        q.2.Watched raised source i (Memo.HealthyAt p (max n (k + 1))))
      (fun _ q => k = p ∧ q.1 = t ∧ q.2.Watched raised source i (Memo.Poisoned p))
      (next (t, s)) := by
  have hn : n ≤ p := by
    obtain ⟨m, -, -, hhealthy, rfl⟩ := h.memo
    exact hhealthy.polls
  have hgiven : ∀ {a s'}, k < p → s.force i k = .ok (some a) s' →
      s'.Watched raised source i (Memo.HealthyAt p (max n (k + 1))) →
      Act.Leaves
        (fun x q => k < p ∧ (∃ a, x = some a) ∧ stand q.1 = (i, k + 1) ∧ ended q.1 = false ∧
          q.2.Watched raised source i (Memo.HealthyAt p (max n (k + 1))))
        (fun _ q => k = p ∧ q.1 = t ∧ q.2.Watched raised source i (Memo.Poisoned p))
        (next (t, s)) := by
    intro a s' hlt hforce h'
    obtain ⟨t', hnext, hstand', hended'⟩ := ht.item hended (by rwa [hstand])
    rw [hnext]
    rw [hstand] at hstand'
    exact ⟨hlt, ⟨a, rfl⟩, hstand', hended', h'⟩
  rcases Nat.lt_or_eq_of_le hk with hlt | rfl
  · obtain ⟨a, hforce⟩ := MemoStore.force_known h hlt
    refine hgiven (by omega) hforce ?_
    rwa [Nat.max_eq_left hlt]
  · rcases Nat.lt_or_eq_of_le hn with hlt | rfl
    · obtain ⟨a, s', hforce, h'⟩ := MemoStore.force_frontier hsource h (Nat.le_refl k) hlt
      refine hgiven hlt hforce ?_
      rwa [Nat.max_eq_right (Nat.le_succ k)]
    · obtain ⟨s', hforce, h'⟩ := MemoStore.force_failing hsource h (Nat.le_refl k)
      rw [ht.error hended (by rwa [hstand])]
      exact ⟨rfl, rfl, h'⟩

theorem Traversing.leaves_nth (ht : Traversing next stand ended)
    (hsource : source.FailsAt p fault) (j : Nat) :
    ∀ {k n : Nat} {t : τ} {s : MemoStore α}, s.Watched raised source i (Memo.HealthyAt p n) →
      stand t = (i, k) → ended t = false → k ≤ n →
      Act.Leaves
        (fun _ q => k + j < p ∧
          q.2.Watched raised source i (Memo.HealthyAt p (max n (k + j + 1))))
        (fun _ q => p ≤ k + j ∧ q.2.Watched raised source i (Memo.Poisoned p))
        (nth next j (t, s)) := by
  induction j with
  | zero =>
    intro k n t s h hstand hended hk
    simp only [nth, Nat.add_zero]
    refine (ht.leaves_next hsource h hstand hended hk).elim ?_ ?_
    · exact fun x q hq => ⟨hq.1, hq.2.2.2.2⟩
    · exact fun e q hq => ⟨Nat.le_of_eq hq.1.symm, hq.2.2⟩
  | succ j ih =>
    intro k n t s h hstand hended hk
    simp only [nth]
    refine (ht.leaves_next hsource h hstand hended hk).elim ?_ ?_
    · rintro x ⟨t', s'⟩ ⟨hlt, ⟨a, rfl⟩, hstand', hended', h'⟩
      have hj : k + 1 + j = k + (j + 1) := Nat.add_right_comm k 1 j
      have hmax : max (max n (k + 1)) (k + 1 + j + 1) = max n (k + (j + 1) + 1) := by omega
      have hrest := ih h' hstand' hended' (Nat.le_max_right _ _)
      rwa [hmax, hj] at hrest
    · rintro e q ⟨rfl, -, h'⟩
      exact ⟨Nat.le_add_right _ _, h'⟩

/-- The traversal stands at a position that the memo has read up to, or has failed to read. -/
def Traversing.Inside (stand : τ → Nat × Nat) (ended : τ → Bool) (raised : Fault → Prop)
    (source : Source α) (i p : Nat) (q : τ × MemoStore α) : Prop :=
  ∃ k, stand q.1 = (i, k) ∧ ended q.1 = false ∧
    ((∃ n, k ≤ n ∧ q.2.Watched raised source i (Memo.HealthyAt p n)) ∨
      k ≤ p ∧ q.2.Watched raised source i (Memo.Poisoned p))

/-- A traversal that gives up stands at position `p`. -/
theorem Traversing.keeps_next (ht : Traversing next stand ended)
    (hsource : source.FailsAt p fault) :
    Act.Keeps (Inside stand ended raised source i p) (fun _ q => stand q.1 = (i, p)) next := by
  rintro ⟨t, s⟩ ⟨k, hstand, hended, ⟨n, hk, h⟩ | ⟨hk, h⟩⟩
  · refine (ht.leaves_next hsource h hstand hended hk).elim ?_ ?_
    · rintro x q ⟨-, -, hstand', hended', h'⟩
      exact ⟨k + 1, hstand', hended', .inl ⟨_, Nat.le_max_right _ _, h'⟩⟩
    · rintro e q ⟨rfl, hq, -⟩
      exact (congrArg stand hq).trans hstand
  · rcases Nat.lt_or_eq_of_le hk with hlt | rfl
    · obtain ⟨a, hforce⟩ := MemoStore.force_replayed h hlt
      obtain ⟨t', hnext, hstand', hended'⟩ := ht.item hended (by rwa [hstand])
      rw [hnext]
      rw [hstand] at hstand'
      exact ⟨k + 1, hstand', hended', .inr ⟨hlt, h⟩⟩
    · have hforce := MemoStore.force_poisoned h (Nat.le_refl k)
      rw [ht.error hended (by rwa [hstand])]
      exact hstand

end Traversing

/-! ## Asking -/

theorem MemoIter.stays_next (it : MemoIter) (s : MemoStore α) :
    Act.Leaves (fun _ _ => True) (fun _ q => q.1 = it) (MemoIter.next (it, s)) := by
  simp only [MemoIter.next]
  split
  · trivial
  · cases s.force it.memo it.position with
    | ok x s' => cases x <;> trivial
    | error e s' => rfl

theorem MemoCursor.stays_next (c : MemoCursor) (s : MemoStore α) :
    Act.Leaves (fun _ _ => True) (fun _ q => q.1 = c) (MemoCursor.next (c, s)) := by
  simp only [MemoCursor.next]
  split
  · trivial
  · cases s.force c.memo c.position with
    | ok x s' => cases x <;> trivial
    | error e s' => rfl

namespace MemoSession

/-- The memo and the position that an asker stands at. -/
def stands? (s : MemoSession α) : Asker → Option (Nat × Nat)
  | .handle m k => (s.memo? m).map (·, k)
  | .iter x => s.iters[x]?.map fun it => (it.memo, it.position)
  | .cursor c => (s.cursors[c]?).join.map fun c => (c.memo, c.position)

/-- The traversals of memo `i` have not seen its end, and stand at most at position `n`. -/
structure Behind (s : MemoSession α) (i n : Nat) : Prop where
  iters : ∀ (x : Nat) (it : MemoIter), s.iters[x]? = some it → it.memo = i →
    it.finished = false ∧ it.position ≤ n
  cursors : ∀ (x : Nat) (c : MemoCursor), (s.cursors[x]?).join = some c → c.memo = i →
    c.atEnd = false ∧ c.position ≤ n

variable {raised : Fault → Prop} {source : Source α} {i p n k : Nat} {fault : Fault}
  {s : MemoSession α}

/-- Below `p` an asker makes the memo poll up to its position, from there on it poisons it. -/
theorem watched_ask (hsource : source.FailsAt p fault)
    (h : s.store.Watched raised source i (Memo.HealthyAt p n)) (hbehind : s.Behind i n)
    {a : Asker} (ha : s.stands? a = some (i, k)) :
    k < p ∧ ((perform a.ask).attempt s).2.store.Watched raised source i
      (Memo.HealthyAt p (max n (k + 1))) ∨
    p ≤ k ∧ ((perform a.ask).attempt s).2.store.Watched raised source i (Memo.Poisoned p) := by
  cases a with
  | handle m k' =>
    obtain ⟨j, hj, hjk⟩ := Option.map_eq_some_iff.1 ha
    cases hjk
    have hstand : ((MemoIter.start i).memo, (MemoIter.start i).position) = (i, 0) := rfl
    have hnth := MemoIter.traversing.leaves_nth hsource k h hstand rfl (Nat.zero_le n)
    simp only [Asker.ask, perform, Act.attempt, withMemo_of_some hj, onStore, Functor.map,
      EStateM.map, MemoStore.traverse]
    simp only [Nat.zero_add] at hnth
    exact hnth.elim (fun _ _ h => .inl h) (fun _ _ h => .inr h)
  | iter x =>
    obtain ⟨it, hit, hik⟩ := Option.map_eq_some_iff.1 ha
    cases hik
    obtain ⟨hended, hle⟩ := hbehind.iters x it hit rfl
    have hnext := MemoIter.traversing.leaves_next hsource h rfl hended hle
    simp only [Asker.ask, perform, Act.attempt, withIter, hit, Bind.bind, EStateM.bind]
    refine hnext.elim (fun _ _ h => .inl ⟨h.1, h.2.2.2.2⟩) (fun _ _ h => .inr ⟨?_, h.2.2⟩)
    exact Nat.le_of_eq h.1.symm
  | cursor x =>
    obtain ⟨c, hc, hck⟩ := Option.map_eq_some_iff.1 ha
    cases hck
    obtain ⟨hended, hle⟩ := hbehind.cursors x c hc rfl
    have hnext := MemoCursor.traversing.leaves_next hsource h rfl hended hle
    simp only [Asker.ask, perform, Act.attempt, withCursor, hc, Bind.bind, EStateM.bind]
    refine hnext.elim (fun _ _ h => .inl ⟨h.1, h.2.2.2.2⟩) (fun _ _ h => .inr ⟨?_, h.2.2⟩)
    exact Nat.le_of_eq h.1.symm

theorem stays_onStore (s : MemoSession α) (act : Act (MemoStore α) (MemoReply α)) :
    ((onStore act).attempt s).2 = { s with store := ((onStore act).attempt s).2.store } := by
  simp only [Act.attempt, onStore]
  cases act s.store <;> rfl

/-- An asker that is answered with a fault stays where it is, and so do all the others. -/
theorem stays_ask (s : MemoSession α) (a : Asker) {e : Fault}
    (he : ((perform a.ask).attempt s).1 = .error e) :
    ((perform a.ask).attempt s).2 = { s with store := ((perform a.ask).attempt s).2.store } := by
  revert he
  cases a with
  | handle m k =>
    simp only [Asker.ask, perform, Act.attempt]
    cases hm : s.memo? m with
    | none =>
      rw [withMemo_of_none hm]
      intro he
      cases he
    | some j =>
      rw [withMemo_of_some hm]
      exact fun _ => stays_onStore s _
  | iter x =>
    simp only [Asker.ask, perform, Act.attempt, withIter, Bind.bind, EStateM.bind]
    cases hx : s.iters[x]? with
    | none =>
      intro he
      cases he
    | some it =>
      dsimp only
      refine (MemoIter.stays_next it s.store).elim (fun y q _ he => by cases he) ?_
      rintro f ⟨it', store⟩ rfl -
      simp only [setIfInBounds_of_some hx]
  | cursor x =>
    simp only [Asker.ask, perform, Act.attempt, withCursor, Bind.bind, EStateM.bind]
    cases hx : (s.cursors[x]?).join with
    | none =>
      intro he
      cases he
    | some c =>
      dsimp only
      refine (MemoCursor.stays_next c s.store).elim (fun y q _ he => by cases he) ?_
      rintro f ⟨c', store⟩ rfl -
      simp only [setIfInBounds_of_some (Option.join_eq_some_iff.1 hx)]

theorem stands?_withIter {x : Nat} {it : MemoIter}
    {act : Act (MemoIter × MemoStore α) (MemoReply α)} {inv : MemoIter × MemoStore α → Prop}
    (hact : Act.Keeps inv (fun _ q => (q.1.memo, q.1.position) = (i, p)) act)
    (hx : s.iters[x]? = some it) (hinv : inv (it, s.store)) {e : Fault}
    (he : ((withIter x act).attempt s).1 = .error e) :
    ((withIter x act).attempt s).2.stands? (.iter x) = some (i, p) := by
  have hlt : x < s.iters.size := (Array.getElem?_eq_some_iff.1 hx).1
  revert he
  simp only [Act.attempt, withIter, hx]
  refine (hact (it, s.store) hinv).elim (fun y q _ he => by cases he) ?_
  rintro f ⟨it', store⟩ hstand -
  simp only [stands?, Array.getElem?_setIfInBounds_self_of_lt hlt, Option.map_some, hstand]

theorem stands?_withCursor {x : Nat} {c : MemoCursor}
    {act : Act (MemoCursor × MemoStore α) (MemoReply α)} {inv : MemoCursor × MemoStore α → Prop}
    (hact : Act.Keeps inv (fun _ q => (q.1.memo, q.1.position) = (i, p)) act)
    (hx : (s.cursors[x]?).join = some c) (hinv : inv (c, s.store)) {e : Fault}
    (he : ((withCursor x act).attempt s).1 = .error e) :
    ((withCursor x act).attempt s).2.stands? (.cursor x) = some (i, p) := by
  have hlt : x < s.cursors.size :=
    (Array.getElem?_eq_some_iff.1 (Option.join_eq_some_iff.1 hx)).1
  revert he
  simp only [Act.attempt, withCursor, hx]
  refine (hact (c, s.store) hinv).elim (fun y q _ he => by cases he) ?_
  rintro f ⟨c', store⟩ hstand -
  simp only [stands?, Array.getElem?_setIfInBounds_self_of_lt hlt, Option.join_some,
    Option.map_some, hstand]

/-- The memo is healthy or poisoned, and the traversals of it are where they can then be. -/
def Steady (raised : Fault → Prop) (source : Source α) (i p : Nat) (s : MemoSession α) : Prop :=
  (∃ n, s.store.Watched raised source i (Memo.HealthyAt p n) ∧ s.Behind i n) ∨
    s.store.Watched raised source i (Memo.Poisoned p) ∧ s.Behind i p

theorem Steady.iter (h : s.Steady raised source i p) {x : Nat} {it : MemoIter}
    (hx : s.iters[x]? = some it) (hi : it.memo = i) :
    Traversing.Inside (fun it : MemoIter => (it.memo, it.position)) MemoIter.finished raised source
      i p (it, s.store) := by
  rcases h with ⟨n, h, hbehind⟩ | ⟨h, hbehind⟩
  · obtain ⟨hended, hle⟩ := hbehind.iters x it hx hi
    exact ⟨it.position, congrArg (·, it.position) hi, hended, .inl ⟨n, hle, h⟩⟩
  · obtain ⟨hended, hle⟩ := hbehind.iters x it hx hi
    exact ⟨it.position, congrArg (·, it.position) hi, hended, .inr ⟨hle, h⟩⟩

theorem Steady.cursor (h : s.Steady raised source i p) {x : Nat} {c : MemoCursor}
    (hx : (s.cursors[x]?).join = some c) (hi : c.memo = i) :
    Traversing.Inside (fun c : MemoCursor => (c.memo, c.position)) MemoCursor.atEnd raised source
      i p (c, s.store) := by
  rcases h with ⟨n, h, hbehind⟩ | ⟨h, hbehind⟩
  · obtain ⟨hended, hle⟩ := hbehind.cursors x c hx hi
    exact ⟨c.position, congrArg (·, c.position) hi, hended, .inl ⟨n, hle, h⟩⟩
  · obtain ⟨hended, hle⟩ := hbehind.cursors x c hx hi
    exact ⟨c.position, congrArg (·, c.position) hi, hended, .inr ⟨hle, h⟩⟩

/-- A traversal that is moved by an operation that gives up has come to position `p`. -/
theorem stands?_of_moves (hsource : source.FailsAt p fault) (h : s.Steady raised source i p)
    {op : MemoOp α} {a : Asker} (hop : op.moves a) (ha : s.stands? a = some (i, k)) {e : Fault}
    (he : ((perform op).attempt s).1 = .error e) :
    ((perform op).attempt s).2.stands? a = some (i, p) := by
  cases a with
  | handle m k' =>
    obtain ⟨j, hj, -⟩ := Option.map_eq_some_iff.1 ha
    cases op with
    | drop m' =>
      cases hop
      rw [perform, Act.attempt, withMemo_of_some hj] at he
      cases he
    | intoCursor m' =>
      cases hop
      rw [perform, Act.attempt, withMemo_of_some hj] at he
      cases he
    | _ => exact hop.elim
  | iter x =>
    obtain ⟨it, hx, hik⟩ := Option.map_eq_some_iff.1 ha
    have hinside := h.iter hx (congrArg Prod.fst hik)
    have hnext : Act.Keeps (Traversing.Inside _ _ raised source i p) _ MemoIter.next :=
      MemoIter.traversing.keeps_next hsource
    cases op with
    | iterNext x' =>
      cases hop
      exact stands?_withIter (hnext.bind fun _ => Act.keeps_pure _) hx hinside he
    | iterPull x' n =>
      cases hop
      exact stands?_withIter ((hnext.pull n).bind fun _ => Act.keeps_pure _) hx hinside he
    | iterCount x' n =>
      cases hop
      exact stands?_withIter ((hnext.countUpTo n).bind fun _ => Act.keeps_pure _) hx hinside he
    | _ => exact hop.elim
  | cursor x =>
    obtain ⟨c, hx, hck⟩ := Option.map_eq_some_iff.1 ha
    have hinside := h.cursor hx (congrArg Prod.fst hck)
    have hnext : Act.Keeps (Traversing.Inside _ _ raised source i p) _ MemoCursor.next :=
      MemoCursor.traversing.keeps_next hsource
    cases op with
    | cursorNext x' =>
      cases hop
      exact stands?_withCursor (hnext.bind fun _ => Act.keeps_pure _) hx hinside he
    | cursorPull x' n =>
      cases hop
      exact stands?_withCursor ((hnext.pull n).bind fun _ => Act.keeps_pure _) hx hinside he
    | cursorCount x' n =>
      cases hop
      exact stands?_withCursor ((hnext.countUpTo n).bind fun _ => Act.keeps_pure _) hx hinside he
    | cursorDrop x' => cases he
    | _ => exact hop.elim

end MemoSession

end Streamkit
