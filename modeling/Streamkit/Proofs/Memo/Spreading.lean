import Streamkit.Proofs.Memo.Layers
import Streamkit.Proofs.Memo.Session

/-!
# How faults spread through layers

Forcing a position polls a memo, the one that it maps, and so on: `MemoStore.pollers`, from the top
down. A fault makes the first of these memos fail, from the top down to the one where the fault
comes from, and no other memo. That is all of them when it comes from the source at the bottom, and
those from the mapping memo up when it comes from a mapping function (`MemoStore.Blame`,
`MemoStore.Yields.exists_spread`).

So a tree of memos reads its sources once, however it is read: `MemoSession.stacked_reading`.
-/

namespace Streamkit

variable {α : Type}

namespace MemoStore

/-- The memo has failed. -/
def Failed (s : MemoStore α) (i : Nat) : Prop := ∃ m, s.memos[i]? = some m ∧ m.status = .failed

/-- The polls of the source of memo `i`. -/
def pollsOf (s : MemoStore α) (i : Nat) : Option Nat := s.memos[i]?.map (·.polls)

/-- The memos whose sources are polled when position `k` of memo `i` is forced: each of them but the
first is the one that the one before maps. -/
def pollers (i k : Nat) (s : MemoStore α) : List Nat :=
  match s.memos[i]? with
  | none => []
  | some m =>
    if m.items.size ≤ k ∧ m.status = .reading then
      match m.origin with
      | .source _ => [i]
      | .mapped parent _ => if parent < i then i :: pollers parent m.items.size s else [i]
    else []
termination_by i

/-- Why forcing a position of memo `i` has given a fault, if it has. Those of the memos polled that
have failed are `top`, of which the last one is to blame, and `rest` have not. -/
inductive Blame (s t : MemoStore α) (i : Nat) :
    Except Fault (Option α) → List Nat → List Nat → Prop where
  | nothing (x : Option α) (rest : List Nat) : Blame s t i (.ok x) [] rest
  /-- The memo itself had failed earlier. -/
  | memo (hi : s.Failed i) : Blame s t i (.error .memoFailed) [] []
  /-- The last memo polled maps one that had failed earlier. -/
  | below {c parent : Nat} {m : Memo α} {f : α → Except Fault α} (top : List Nat)
    (hm : s.memos[c]? = some m) (ho : m.origin = .mapped parent f) (hparent : s.Failed parent) :
    Blame s t i (.error .memoFailed) (top ++ [c]) []
  /-- The source at the bottom has raised the fault. -/
  | source {c : Nat} {m : Memo α} {source : Source α} {e : Fault} (top : List Nat)
    (hm : s.memos[c]? = some m) (ho : m.origin = .source source)
    (he : source.answer m.polls = .error e) : Blame s t i (.error e) (top ++ [c]) []
  /-- The function of a memo has raised the fault when it was called, last of all, on an item. -/
  | function {c parent : Nat} {m : Memo α} {f : α → Except Fault α} {a : α} {e : Fault}
    (top rest : List Nat) (hm : s.memos[c]? = some m) (ho : m.origin = .mapped parent f)
    (he : f a = .error e) (hlast : t.trace.back? = some (.mapping c a)) :
    Blame s t i (.error e) (top ++ [c]) rest

/-- Of the memos that were polled when position `k` of memo `i` was forced, those in `top` have
failed, as against those in `rest`. -/
structure Spread (i k : Nat) (s : MemoStore α) (x : Except Fault (Option α)) (t : MemoStore α)
    (top rest : List Nat) : Prop where
  pollers : s.pollers i k = top ++ rest
  failed : ∀ j, t.Failed j ↔ s.Failed j ∨ j ∈ top
  blame : s.Blame t i x top rest

variable {s t : MemoStore α} {i k : Nat} {m : Memo α} {x : Except Fault (Option α)}

/-! ## Who is polled -/

theorem Lacks.pollers_source (hm : s.Lacks i k m) {source : Source α}
    (ho : m.origin = .source source) : s.pollers i k = [i] := by
  rw [pollers, hm.memo]
  dsimp only
  rw [if_pos ⟨hm.beyond, hm.status⟩, ho]

theorem Lacks.pollers_mapped (hm : s.Lacks i k m) {parent : Nat} {f : α → Except Fault α}
    (ho : m.origin = .mapped parent f) (hlt : parent < i) :
    s.pollers i k = i :: s.pollers parent m.items.size := by
  rw [pollers, hm.memo]
  dsimp only
  rw [if_pos ⟨hm.beyond, hm.status⟩, ho]
  exact if_pos hlt

theorem Lacks.pollers_dangling (hm : s.Lacks i k m) {parent : Nat} {f : α → Except Fault α}
    (ho : m.origin = .mapped parent f) (hge : i ≤ parent) : s.pollers i k = [i] := by
  rw [pollers, hm.memo]
  dsimp only
  rw [if_pos ⟨hm.beyond, hm.status⟩, ho]
  exact if_neg (Nat.not_lt.2 hge)

theorem pollers_of_absent (hm : s.memos[i]? = none) : s.pollers i k = [] := by
  rw [pollers, hm]

theorem pollers_of_item (hm : s.memos[i]? = some m) {a : α} (ha : m.items[k]? = some a) :
    s.pollers i k = [] := by
  rw [pollers, hm]
  exact if_neg fun h => Nat.not_lt.2 h.1 (Array.getElem?_eq_some_iff.1 ha).1

theorem pollers_of_stopped (hm : s.memos[i]? = some m) (hstatus : m.status ≠ .reading) :
    s.pollers i k = [] := by
  rw [pollers, hm]
  exact if_neg fun h => hstatus h.2

theorem le_of_mem_pollers {j : Nat} (h : j ∈ s.pollers i k) : j ≤ i := by
  fun_induction pollers i k s with
  | case1 => cases h
  | case2 => exact Nat.le_of_eq (List.mem_singleton.1 h)
  | case3 _ _ _ _ _ _ _ _ hlt ih =>
    rcases List.mem_cons.1 h with rfl | h
    · exact Nat.le_refl _
    · exact (ih h).trans (Nat.le_of_lt hlt)
  | case4 => exact Nat.le_of_eq (List.mem_singleton.1 h)
  | case5 => cases h

theorem getElem?_countPoll (s : MemoStore α) (i j : Nat) :
    (s.countPoll i).memos[j]? =
      s.memos[j]?.map fun m => { m with polls := m.polls + if i = j then 1 else 0 } := by
  rw [countPoll, getElem?_adjust]
  split
  · rfl
  · exact Option.map_id'.symm

theorem pollers_countPoll (s : MemoStore α) (j : Nat) (i : Nat) :
    ∀ k, (s.countPoll j).pollers i k = s.pollers i k := by
  induction i using Nat.strongRecOn with
  | ind i ih =>
    intro k
    rw [pollers, pollers, getElem?_countPoll]
    cases s.memos[i]? with
    | none => rfl
    | some m =>
      dsimp only [Option.map_some]
      cases m.origin with
      | source source => rfl
      | mapped parent f =>
        dsimp only
        by_cases hlt : parent < i
        · rw [if_pos hlt, if_pos hlt, ih parent hlt]
        · rw [if_neg hlt, if_neg hlt]

theorem pollsOf_countPoll (s : MemoStore α) (i j : Nat) :
    (s.countPoll i).pollsOf j = (s.pollsOf j).map (· + if i = j then 1 else 0) := by
  rw [pollsOf, getElem?_countPoll, pollsOf, Option.map_map, Option.map_map]
  rfl

theorem pollsOf_settled (s : MemoStore α) (i j : Nat) (x : Except Fault (Option α)) :
    (s.settled i x).pollsOf j = s.pollsOf j := by
  rw [pollsOf, getElem?_settled]
  split
  · rw [Option.map_map, pollsOf]
    rcases x with e | _ | a <;> rfl
  · rfl

theorem pollsOf_of_no_pollers (h : s.pollers i k = []) (j : Nat) :
    s.pollsOf j = (s.pollsOf j).map (· + if j ∈ s.pollers i k then 1 else 0) := by
  rw [h]
  exact Option.map_id'.symm

theorem pollsOf_of_one_poller (h : s.pollers i k = [i]) (x : Except Fault (Option α)) (j : Nat) :
    ((s.countPoll i).settled i x).pollsOf j =
      (s.pollsOf j).map (· + if j ∈ s.pollers i k then 1 else 0) := by
  simp only [h, pollsOf_settled, pollsOf_countPoll, List.mem_singleton, eq_comm]

theorem pollsOf_of_more_pollers {parent n : Nat} (h : s.pollers i k = i :: s.pollers parent n)
    (hlt : parent < i) (j : Nat) :
    ((s.countPoll i).pollsOf j).map
        (· + if j ∈ (s.countPoll i).pollers parent n then 1 else 0) =
      (s.pollsOf j).map (· + if j ∈ s.pollers i k then 1 else 0) := by
  rw [h, pollers_countPoll, pollsOf_countPoll, Option.map_map]
  refine congrArg (Option.map · (s.pollsOf j)) (funext fun count => ?_)
  by_cases hij : i = j
  · subst hij
    have hnot : i ∉ s.pollers parent n := fun hmem => Nat.not_lt.2 (le_of_mem_pollers hmem) hlt
    simp [hnot]
  · simp [hij, Ne.symm hij]

/-- One poll is counted for each of the memos that are polled. -/
theorem Yields.pollsOf (h : Yields i k s x t) (j : Nat) :
    t.pollsOf j = (s.pollsOf j).map (· + if j ∈ s.pollers i k then 1 else 0) := by
  induction h with
  | absent hm => exact pollsOf_of_no_pollers (pollers_of_absent hm) j
  | item hm ha => exact pollsOf_of_no_pollers (pollers_of_item hm ha) j
  | ended hm _ hstatus =>
    exact pollsOf_of_no_pollers (pollers_of_stopped hm (by rw [hstatus]; nofun)) j
  | failed hm _ hstatus =>
    exact pollsOf_of_no_pollers (pollers_of_stopped hm (by rw [hstatus]; nofun)) j
  | source hm ho => exact pollsOf_of_one_poller (hm.pollers_source ho) _ j
  | mapped hm ho hlt _ ih =>
    rw [pollsOf_settled]
    exact ih.trans (pollsOf_of_more_pollers (hm.pollers_mapped ho hlt) hlt j)
  | stopped hm ho hlt _ _ ih =>
    rw [pollsOf_settled]
    exact ih.trans (pollsOf_of_more_pollers (hm.pollers_mapped ho hlt) hlt j)
  | dangling hm ho hge => exact pollsOf_of_one_poller (hm.pollers_dangling ho hge) _ j

/-! ## Who fails -/

theorem failed_countPoll (s : MemoStore α) (i j : Nat) : (s.countPoll i).Failed j ↔ s.Failed j := by
  rw [Failed, getElem?_countPoll, Failed]
  cases s.memos[j]? <;> simp

theorem failed_settled (hm : s.memos[i]? = some m) (hstatus : m.status = .reading)
    (x : Except Fault (Option α)) (j : Nat) :
    (s.settled i x).Failed j ↔ s.Failed j ∨ j = i ∧ ∃ e, x = .error e := by
  rw [Failed, getElem?_settled]
  by_cases hij : i = j
  · subst hij
    have hnot : ¬ s.Failed i := by
      rintro ⟨m', hm', hfailed⟩
      obtain rfl := Option.some.inj (hm.symm.trans hm')
      exact absurd (hstatus.symm.trans hfailed) nofun
    rcases x with e | _ | a <;> simp [hm, hnot, Memo.settled, hstatus]
  · simp [hij, Ne.symm hij, Failed]

/-- The memo that maps one of the memos to blame fails as well. -/
theorem Blame.push {s₁ : MemoStore α} {parent : Nat} {f : α → Except Fault α} {e : Fault}
    {top rest : List Nat} (h : (s.countPoll i).Blame s₁ parent (.error e) top rest)
    (hm : s.Lacks i k m) (ho : m.origin = .mapped parent f) (htop : ∀ c ∈ top, c < i)
    (htrace : t.trace = s₁.trace) : s.Blame t i (.error e) (i :: top) rest := by
  have hmemo : ∀ {c : Nat} {m : Memo α} {top : List Nat}, (∀ c' ∈ top ++ [c], c' < i) →
      (s.countPoll i).memos[c]? = some m → s.memos[c]? = some m := by
    intro c m top htop hc
    have hlt : c < i := htop c (List.mem_append_right _ (List.mem_singleton.2 rfl))
    rwa [memo_countPoll_ne s (Nat.ne_of_gt hlt)] at hc
  cases h with
  | memo hparent => exact .below [] hm.memo ho ((failed_countPoll s i parent).1 hparent)
  | below top hc ho' hfailed =>
    exact .below (i :: top) (hmemo htop hc) ho' ((failed_countPoll s i _).1 hfailed)
  | source top hc ho' he => exact .source (i :: top) (hmemo htop hc) ho' he
  | function top rest hc ho' he hlast =>
    exact .function (i :: top) rest (hmemo htop hc) ho' he (htrace ▸ hlast)

/-- A value makes no memo fail. -/
theorem spread_value (y : Option α) (h : ∀ j, t.Failed j ↔ s.Failed j) :
    Spread i k s (.ok y) t [] (s.pollers i k) where
  pollers := rfl
  failed j := (h j).trans (by simp)
  blame := .nothing y _

theorem Spread.same {y : Option α} {top rest : List Nat} (h : Spread i k s (.ok y) t top rest)
    (j : Nat) : t.Failed j ↔ s.Failed j := by
  obtain ⟨-, hfailed, hblame⟩ := h
  cases hblame
  rw [hfailed j]
  simp

section Settle

variable {s₁ : MemoStore α} {m₁ : Memo α} {e : Fault} {top rest : List Nat}

theorem spread_settled (hm₁ : s₁.memos[i]? = some m₁) (hstatus : m₁.status = .reading)
    (hsame : ∀ j, s₁.Failed j ↔ s.Failed j) (y : Option α) :
    Spread i k s (.ok y) (s₁.settled i (.ok y)) [] (s.pollers i k) := by
  refine spread_value y fun j => ?_
  rw [failed_settled hm₁ hstatus, hsame j]
  simp

/-- The memo fails, with those that map it, but nothing below it. -/
theorem spread_fault (hm₁ : s₁.memos[i]? = some m₁) (hstatus : m₁.status = .reading)
    (hsame : ∀ j, s₁.Failed j ↔ s.Failed j) (hpollers : s.pollers i k = i :: rest)
    (hblame : s.Blame (s₁.settled i (.error e)) i (.error e) [i] rest) :
    Spread i k s (.error e) (s₁.settled i (.error e)) [i] rest where
  pollers := hpollers
  failed j := by
    rw [failed_settled hm₁ hstatus, hsame j]
    simp
  blame := hblame

/-- The memo fails after those below it. -/
theorem Spread.push {parent : Nat} {f : α → Except Fault α}
    (h : Spread parent m.items.size (s.countPoll i) (.error e) s₁ top rest) (hm : s.Lacks i k m)
    (ho : m.origin = .mapped parent f) (hlt : parent < i) (hm₁ : s₁.memos[i]? = some m₁)
    (hstatus : m₁.status = .reading) :
    Spread i k s (.error e) (s₁.settled i (.error e)) (i :: top) rest := by
  have hpollers := h.pollers
  rw [pollers_countPoll] at hpollers
  refine ⟨?_, fun j => ?_, h.blame.push hm ho (fun c hc => ?_) rfl⟩
  · rw [hm.pollers_mapped ho hlt, hpollers, List.cons_append]
  · rw [failed_settled hm₁ hstatus, h.failed j, failed_countPoll, List.mem_cons]
    simp [or_assoc, or_comm]
  · have hmem : c ∈ s.pollers parent m.items.size := hpollers ▸ List.mem_append_left _ hc
    exact (le_of_mem_pollers hmem).trans_lt hlt

end Settle

/-- A fault makes the memos fail that are polled, from the top down to the one to blame. -/
theorem Yields.exists_spread (h : Yields i k s x t) : ∃ top rest, Spread i k s x t top rest := by
  induction h with
  | absent hm => exact ⟨[], _, spread_value none fun _ => .rfl⟩
  | item hm ha => exact ⟨[], _, spread_value _ fun _ => .rfl⟩
  | ended hm hk hstatus => exact ⟨[], _, spread_value none fun _ => .rfl⟩
  | @failed i k s m hm hk hstatus =>
    have hpollers : s.pollers i k = [] := pollers_of_stopped hm (by rw [hstatus]; nofun)
    exact ⟨[], [], hpollers, fun j => by simp, .memo ⟨m, hm, hstatus⟩⟩
  | @source i k s m source hm ho =>
    have hsame := failed_countPoll s i
    cases hx : source.answer m.polls with
    | ok y => exact ⟨[], _, spread_settled hm.countPoll hm.status hsame y⟩
    | error e =>
      exact ⟨[i], [], spread_fault hm.countPoll hm.status hsame (hm.pollers_source ho)
        (.source [] hm.memo ho hx)⟩
  | @mapped i k parent s s₁ m f a hm ho hlt hyields ih =>
    obtain ⟨top, rest, hspread⟩ := ih
    have hm₁ : (s₁.note (.mapping i a)).memos[i]? = _ := hyields.memo_waiting hlt hm
    have hsame := fun j => (hspread.same j).trans (failed_countPoll s i j)
    cases hf : f a with
    | ok b => exact ⟨[], _, spread_settled hm₁ hm.status hsame (some b)⟩
    | error e =>
      exact ⟨[i], _, spread_fault hm₁ hm.status hsame (hm.pollers_mapped ho hlt)
        (.function [] _ hm.memo ho hf Array.back?_push)⟩
  | @stopped i k parent s s₁ m f x hm ho hlt hyields hx ih =>
    obtain ⟨top, rest, hspread⟩ := ih
    have hm₁ := hyields.memo_waiting hlt hm
    rcases x with e | _ | a
    · exact ⟨_, _, hspread.push hm ho hlt hm₁ hm.status⟩
    · have hsame := fun j => (hspread.same j).trans (failed_countPoll s i j)
      exact ⟨[], _, spread_settled hm₁ hm.status hsame none⟩
    · exact absurd rfl (hx a)
  | @dangling i k parent s m f hm ho hge =>
    exact ⟨[], _, spread_settled hm.countPoll hm.status (failed_countPoll s i) none⟩

theorem Yields.failed_of_ok {y : Option α} (h : Yields i k s (.ok y) t) (j : Nat) :
    t.Failed j ↔ s.Failed j := by
  obtain ⟨top, rest, hspread⟩ := h.exists_spread
  exact hspread.same j

theorem failed_add (s : MemoStore α) (origin : MemoOrigin α) (j : Nat) :
    (s.add origin).Failed j ↔ s.Failed j := by
  rw [Failed, getElem?_add]
  split
  · rename_i hj
    subst hj
    simp [Failed, Memo.ofOrigin]
  · rfl

theorem Goes.failed (h : s.Goes t) (j : Nat) : t.Failed j ↔ s.Failed j := by
  induction h with
  | refl => rfl
  | force _ hforce ih => exact ((yields_of_ok hforce).failed_of_ok j).trans ih
  | note _ a ih => exact ih
  | add _ parent f ih => exact (failed_add _ _ j).trans ih

/-- Forcing position `k` of memo `i` has given a fault, which has spread. -/
structure Breaks (i k : Nat) (e : Fault) (top rest : List Nat) (s t : MemoStore α) : Prop extends
    Spread i k s (.error e) t top rest where
  force : s.force i k = .error e t
  polls : ∀ j, t.pollsOf j = (s.pollsOf j).map (· + if j ∈ top ++ rest then 1 else 0)

theorem exists_breaks {e : Fault} (h : s.force i k = .error e t) :
    ∃ top rest, Breaks i k e top rest s t := by
  have hyields := yields_of_error h
  obtain ⟨top, rest, hspread⟩ := hyields.exists_spread
  exact ⟨top, rest, hspread, h, fun j => hspread.pollers ▸ hyields.pollsOf j⟩

end MemoStore

/-! ## Sessions -/

namespace Memo

/-- The memo has read the source from its start, and has stopped where the source has. -/
structure ReadFrom (source : Source α) (m : Memo α) : Prop where
  items : ∀ k a, m.items[k]? = some a → source.answer k = .ok (some a)
  ended : m.status = .ended → source.answer m.evaluated = .ok none
  failed : m.status = .failed → ∃ e, source.answer m.evaluated = .error e

variable {source : Source α} {d : Nat} {m : Memo α}

theorem Reads.polls_eq (h : m.Reads source d) :
    m.polls = m.evaluated + if m.status = .reading then 0 else 1 := by
  rw [h.polls, h.status, Memo.evaluated, h.evaluated, Source.pollsWithin]
  rcases source.statusWithin_cases d with ⟨hs, hn⟩ | ⟨hs, hn, -⟩ | ⟨hs, hn, -⟩
  · rw [hs, if_pos rfl]
    omega
  · rw [hs, if_neg (by decide)]
    omega
  · rw [hs, if_neg (by decide)]
    omega

theorem Reads.readFrom (h : m.Reads source d) : m.ReadFrom source := by
  have hanswer := source.replay_eq_answer (Nat.le_refl (source.itemsWithin d))
  refine ⟨fun k a ha => ?_, fun hended => ?_, fun hfailed => ?_⟩
  · obtain ⟨hk, rfl⟩ := Array.getElem?_eq_some_iff.1 ha
    rw [← source.replay_eq_answer (Nat.le_of_lt (h.evaluated ▸ hk)), h.item k hk]
  · rw [Memo.evaluated, h.evaluated, ← hanswer]
    exact (source.replay_of_ended (h.status ▸ hended) (Nat.le_refl _)).2
  · rw [Memo.evaluated, h.evaluated, ← hanswer]
    rcases source.statusWithin_cases d with ⟨hs, -⟩ | ⟨hs, -⟩ | ⟨-, -, hfault⟩
    · rw [h.status, hs] at hfailed
      cases hfailed
    · rw [h.status, hs] at hfailed
      cases hfailed
    · exact hfault

end Memo

/-- Memo `i`, which is `m`, rests on memo `parent`, which is `p` and which it maps by `f`. -/
structure MemoStore.Rests (s : MemoStore α) (i : Nat) (m : Memo α) (parent : Nat) (p : Memo α)
    (f : α → Except Fault α) : Prop extends s.Maps i m parent p f where
  layer : m.Layer f p (s.calls i)
  evaluated_le : m.evaluated ≤ p.evaluated
  tripped_lt : m.Tripped f p → m.evaluated + 1 ≤ p.evaluated
  order : ∀ n : Nat, s.trace[n]? = some (MemoEvent.exhausted i) →
    ∃ n' < n, s.trace[n']? = some (MemoEvent.exhausted parent)

/-- Memo `i`, which is `m`, has polled its source once for each item and once more if it has
stopped. -/
structure MemoStore.ReadsOnce (s : MemoStore α) (i : Nat) (m : Memo α) : Prop where
  polls : m.polls = m.evaluated + if m.status = .reading then 0 else 1
  endings : s.endings i = if m.isExhausted then 1 else 0
  source : ∀ source, m.origin = .source source → m.ReadFrom source
  mapped : ∀ parent f, m.origin = .mapped parent f → ∃ p, s.Rests i m parent p f

namespace MemoSession

/-- An operation makes no memo fail unless it gives up, and then those that were polled for the
fault, from the top down to the one to blame, if no closure of the operation has raised it. -/
structure Spreads (s : MemoSession α) (op : MemoOp α) : Prop where
  value : ∀ reply, ((perform op).attempt s).1 = .ok reply →
    ∀ j, ((perform op).attempt s).2.store.Failed j ↔ s.store.Failed j
  fault : ∀ e, ((perform op).attempt s).1 = .error e →
    (op.Raises e ∧ ∀ j, ((perform op).attempt s).2.store.Failed j ↔ s.store.Failed j) ∨
    ∃ s₁ i k top rest, s.store.Goes s₁ ∧ (∀ j, s₁.Failed j ↔ s.store.Failed j) ∧
      MemoStore.Breaks i k e top rest s₁ ((perform op).attempt s).2.store

theorem spreads (s : MemoSession α) (op : MemoOp α) : s.Spreads op := by
  have hgoes := perform_goes op s
  cases hrun : perform op s with
  | ok reply t =>
    rw [hrun] at hgoes
    have hattempt : (perform op).attempt s = (.ok reply, t) := by rw [Act.attempt, hrun]
    refine ⟨fun _ _ j => ?_, fun e he => ?_⟩
    · rw [hattempt]
      exact hgoes.failed j
    · rw [hattempt] at he
      cases he
  | error e t =>
    rw [hrun] at hgoes
    have hattempt : (perform op).attempt s = (.error e, t) := by rw [Act.attempt, hrun]
    refine ⟨fun reply hreply => ?_, fun e' he => ?_⟩
    · rw [hattempt] at hreply
      cases hreply
    · rw [hattempt] at he ⊢
      obtain rfl := Except.error.inj he
      cases hgoes with
      | raised hgoes hraises => exact .inl ⟨hraises, hgoes.failed⟩
      | force hgoes hforce =>
        obtain ⟨top, rest, hbreaks⟩ := MemoStore.exists_breaks hforce
        exact .inr ⟨_, _, _, top, rest, hgoes, hgoes.failed, hbreaks⟩

/-- What the shelf and the layers say of a memo. -/
theorem Mirrors.readsOnce {w₀ : Shelf α} {s : MemoSession α} {r : ReplaySession α}
    (h : Mirrors w₀ s r) (hs : s.store.Stacked) {i : Nat} {m : Memo α}
    (hm : s.store.memos[i]? = some m) : s.store.ReadsOnce i m := by
  have hi : i < r.shelf.size := h.kept.size ▸ (Array.getElem?_eq_some_iff.1 hm).1
  have hq := Array.getElem?_eq_getElem hi
  obtain ⟨m', hm', ho, hreads, hends⟩ := h.kept.exists_memo hq
  obtain rfl := Option.some.inj (hm.symm.trans hm')
  have hsound := h.kept.sound i _ hq
  refine ⟨hreads.polls_eq, hends, fun source hsource => ?_, fun parent f hmapped => ?_⟩
  · rw [← ho, hsource] at hsound
    exact hsound ▸ hreads.readFrom
  · rw [← ho, hmapped] at hsound
    obtain ⟨hlt, q, hq, -⟩ := hsound
    obtain ⟨p, hp, -⟩ := h.kept.exists_memo hq
    have hmaps : s.store.Maps i m parent p f := ⟨hm, hmapped, hlt, hp⟩
    have hlayer := hs.layer hmaps
    exact ⟨p, { hmaps with
      layer := hlayer
      evaluated_le := hlayer.evaluated_le
      tripped_lt := fun htripped => htripped.lt
      order := hs.order hmaps }⟩

/-- However a tree of memos is read, every memo polls its source once for each item and once more if
it has stopped, calls its function once for each item and once more if that gives up, and stops only
where the memo below has, or where its function gives up. A fault makes the memos fail through which
it was asked for, from the one where it was raised up, and no others. -/
theorem stacked_reading (sources : List (Source α)) (ops : List (MemoOp α)) :
    let s := (Act.attemptAll (ops.map perform) (start sources)).2
    (∀ (i : Nat) (source : Source α), sources[i]? = some source →
      ∃ m, s.store.memos[i]? = some m ∧ m.origin = .source source) ∧
    (∀ (i : Nat) (m : Memo α), s.store.memos[i]? = some m → s.store.ReadsOnce i m) ∧
    ∀ op, s.Spreads op := by
  intro s
  have hmirrors := mirrors_attemptAll (mirrors_start sources) ops
  refine ⟨fun i source hi => ?_, fun i m => hmirrors.readsOnce (stacked_attemptAll sources ops),
    spreads s⟩
  obtain ⟨d, hq⟩ := exists_replayed_source sources ops hi
  obtain ⟨m, hm, ho, -⟩ := hmirrors.kept.exists_memo hq
  exact ⟨m, hm, ho⟩

theorem stacked_reading_of_list :
    let source : Source Nat := .ofList [1, 2, 3]
    let f : Nat → Except Fault Nat := fun a =>
      if a = 2 then .error (.raised "two") else .ok (10 * a)
    let s := (Act.attemptAll ([.derive 0 f, .get 1 5].map perform) (start [source])).2
    ∃ p m, s.store.memos[0]? = some p ∧ s.store.memos[1]? = some m ∧ m.Tripped f p ∧
      s.store.ReadsOnce 0 p ∧ s.store.Rests 1 m 0 p f ∧ s.store.calls 1 = [1, 2] ∧
      s.Spreads (.get 1 0) := by
  intro source f s
  obtain ⟨-, hmemos, hspreads⟩ := stacked_reading [source] [.derive 0 f, .get 1 5]
  have hp : s.store.memos[0]? = some ⟨.source source, #[1, 2], .reading, 2⟩ := by
    subst s source f
    with_unfolding_all rfl
  have hm : s.store.memos[1]? = some ⟨.mapped 0 f, #[10], .failed, 2⟩ := by
    subst s source f
    with_unfolding_all rfl
  have htripped : Memo.Tripped ⟨.mapped 0 f, #[10], .failed, 2⟩ f
      ⟨.source source, #[1, 2], .reading, 2⟩ := ⟨rfl, 2, .raised "two", rfl, rfl⟩
  obtain ⟨p, hrests⟩ := (hmemos 1 _ hm).mapped 0 f rfl
  obtain rfl := Option.some.inj (hp.symm.trans hrests.below)
  exact ⟨_, _, hp, hm, htripped, hmemos 0 _ hp, hrests, hrests.layer.tripped htripped, hspreads _⟩

end MemoSession

end Streamkit
