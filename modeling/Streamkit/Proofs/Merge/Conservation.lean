import Mathlib.Algebra.BigOperators.Fin
import Mathlib.Algebra.Order.BigOperators.Group.Finset
import Mathlib.Data.List.Forall2
import Streamkit.Proofs.Merge.Shuffle
import Streamkit.Proofs.Sequences
import Streamkit.Sequence.Merge.Session

/-!
# What a merge gives, under any comparator

A merge neither loses nor invents items, whatever its comparator answers. `Merge.nextFrom` tells
which source an item comes from, and `Merge.Accounts` relates the items given so far to the sources:
each source has been read one answer ahead of the items given of it, and the heap holds these
answers. Every step keeps the accounts (`Merge.Accounts.nextFrom_cases`), so what comes of a source
is what it starts with, and the merge ends when no source has more: `merge_conserves`.
-/

open Finset

namespace Streamkit

open Act

variable {α τ : Type}

/-- The comparator returns, whatever it answers and does to its own state. -/
def Comparator.Returns (order : Comparator α τ) : Prop := ∀ a b t, ∃ v t', order a b t = .ok v t'

/-- The source does not give up before its end. -/
def Source.Unfailing (s : Source α) : Prop :=
  ∀ items e, s.Starts items → s.answer items.length ≠ .error e

/-- The source answers a poll with an item. -/
def Source.hasItem (s : Source α) (k : Nat) : Bool :=
  match s.answer k with
  | .ok (some _) => true
  | _ => false

/-- The heads of one source, in order. -/
def headsOf (i : Nat) (entries : List (OpenSource α)) : List α :=
  (entries.filter (·.source = i)).map OpenSource.head

/-! ## The heads of a source -/

section Heads

variable {i j : Nat}

theorem headsOf_append (entries entries' : List (OpenSource α)) :
    headsOf i (entries ++ entries') = headsOf i entries ++ headsOf i entries' := by
  rw [headsOf, List.filter_append, List.map_append]
  rfl

theorem headsOf_self (heads : List α) : headsOf i (heads.map (⟨·, i⟩)) = heads := by
  induction heads with
  | nil => rfl
  | cons a heads ih => simpa [headsOf] using ih

theorem headsOf_of_ne {entries : List (OpenSource α)} (h : ∀ a ∈ entries, a.source ≠ i) :
    headsOf i entries = [] := by
  have hnone : entries.filter (·.source = i) = [] :=
    List.filter_eq_nil_iff.2 fun a ha => by simpa using h a ha
  rw [headsOf, hnone]
  rfl

theorem headsOf_map_of_ne (h : j ≠ i) (heads : List α) :
    headsOf i (heads.map (⟨·, j⟩)) = [] := by
  refine headsOf_of_ne fun a ha => ?_
  obtain ⟨b, -, rfl⟩ := List.mem_map.1 ha
  exact h

theorem mem_headsOf {a : OpenSource α} {entries : List (OpenSource α)} (ha : a ∈ entries) :
    a.head ∈ headsOf a.source entries :=
  List.mem_map_of_mem (List.mem_filter.2 ⟨ha, decide_eq_true rfl⟩)

theorem headsOf_cons (a : OpenSource α) (entries : List (OpenSource α)) :
    headsOf i (a :: entries) = headsOf i [a] ++ headsOf i entries :=
  headsOf_append [a] entries

theorem perm_headsOf {entries entries' : List (OpenSource α)} (h : entries.Perm entries') :
    (headsOf i entries).Perm (headsOf i entries') :=
  (h.filter _).map _

theorem length_headsOf_singleton (a : OpenSource α) (i : Nat) :
    (headsOf i [a]).length = if a.source = i then 1 else 0 := by
  by_cases h : a.source = i <;> simp [headsOf, h]

theorem count_map_source (i : Nat) (entries : List (OpenSource α)) :
    (entries.map OpenSource.source).count i = (headsOf i entries).length := by
  induction entries with
  | nil => rfl
  | cons a entries ih =>
    rw [headsOf_cons, List.length_append, length_headsOf_singleton, List.map_cons, List.count_cons,
      ih, Nat.add_comm]
    simp only [beq_iff_eq]

/-- The entries are those of all sources together. -/
theorem sum_length_headsOf {n : Nat} {entries : List (OpenSource α)}
    (h : ∀ a ∈ entries, a.source < n) :
    ∑ i : Fin n, (headsOf i entries).length = entries.length := by
  induction entries with
  | nil => exact Finset.sum_eq_zero fun _ _ => rfl
  | cons a entries ih =>
    have hone : ∑ i : Fin n, (headsOf i [a]).length = 1 := by
      rw [Finset.sum_eq_single (⟨a.source, h a List.mem_cons_self⟩ : Fin n)]
      · rw [length_headsOf_singleton, if_pos rfl]
      · intro i _ hi
        rw [length_headsOf_singleton, if_neg fun e => hi (Fin.ext e.symm)]
      · exact fun hnot => absurd (Finset.mem_univ _) hnot
    have hsplit : ∀ i : Fin n, (headsOf i (a :: entries)).length =
        (headsOf i [a]).length + (headsOf i entries).length := fun i => by
      rw [headsOf_cons, List.length_append]
    rw [Finset.sum_congr rfl fun i _ => hsplit i, Finset.sum_add_distrib, hone,
      ih fun b hb => h b (List.mem_cons_of_mem _ hb), List.length_cons, Nat.add_comm]

end Heads

/-! ## Accounts -/

/-- The source has been read one answer ahead of the items that were taken, which it starts with;
`ahead` is what that answer left. -/
structure Source.ReadAhead (s : Source α) (c : Option (Counted α)) (taken ahead : List α) :
    Prop where
  polled : c = some ⟨s, taken.length + 1⟩
  starts : s.Starts taken
  answer : ∃ x : Option α, s.answer taken.length = .ok x ∧ ahead.Perm x.toList

namespace Merge

/-- The next item with the source that it comes from, which is the root of the heap. -/
def nextFrom {σ : Type} (inputs : MergeInputs α σ) : Act (Merge α σ) (Option (OpenSource α)) := do
  let m ← get
  let _ ← next inputs
  return m.heap[0]?

theorem nextFrom_of_next {σ : Type} {inputs : MergeInputs α σ} {m m' : Merge α σ} {x : Option α}
    (h : next inputs m = .ok x m') : nextFrom inputs m = .ok m.heap[0]? m' := by
  show EStateM.bind (next inputs) (fun _ => pure m.heap[0]?) m = _
  simp only [EStateM.bind, h]
  rfl

theorem nextFrom_of_nil {σ : Type} {inputs : MergeInputs α σ} {m : Merge α σ}
    (hheap : m.heap.toList = []) : nextFrom inputs m = .ok none m := by
  rw [nextFrom_of_next (next_of_nil hheap), ← Array.getElem?_toList, hheap]
  rfl

theorem value_of_next {σ : Type} {inputs : MergeInputs α σ} {m m' : Merge α σ} {x : Option α}
    (h : next inputs m = .ok x m') : m.heap[0]?.map OpenSource.head = x := by
  have hsettle : ∀ {b : Option α} {o : EStateM.Result Fault (Heap α × σ) Unit},
      settle b o = .ok x m' → b = x := by
    intro b o ho
    cases o with
    | ok _ s => exact (EStateM.Result.ok.inj ho).1
    | error e s => cases ho
  cases hroot : m.heap[0]? with
  | none =>
    simp only [next, hroot] at h
    exact (EStateM.Result.ok.inj h).1
  | some root =>
    simp only [next, hroot] at h
    split at h
    · cases h
    · exact hsettle h
    · exact hsettle h

/-- What comes of a source is what the merge gives. -/
theorem map_nextFrom {σ : Type} (inputs : MergeInputs α σ) :
    Option.map OpenSource.head <$> nextFrom inputs = next inputs := by
  funext m
  cases hnext : next inputs m with
  | ok x m' =>
    simp only [Functor.map, EStateM.map, nextFrom_of_next hnext, value_of_next hnext]
  | error e m' =>
    show EStateM.map _ (EStateM.bind (next inputs) fun _ => pure m.heap[0]?) m = _
    simp only [EStateM.map, EStateM.bind, hnext]

/-- The sources below `opened` are open or closed, and have given what `given` has of them; the
others have not been read. -/
structure Accounts (sources : List (Source α)) (opened : Nat) (given : List (OpenSource α))
    (m : Merge α (Array (Counted α) × τ)) : Prop where
  heap_lt : ∀ a ∈ m.heap.toList, a.source < opened
  given_lt : ∀ a ∈ given, a.source < opened
  read : ∀ i s, i < opened → sources[i]? = some s →
    s.ReadAhead m.world.1[i]? (headsOf i given) (headsOf i m.heap.toList)
  unread : ∀ i s, opened ≤ i → sources[i]? = some s → m.world.1[i]? = some ⟨s, 0⟩

section Step

variable {order : Comparator α τ} {sources : List (Source α)} {opened : Nat}
  {given : List (OpenSource α)} {m : Merge α (Array (Counted α) × τ)}

theorem keeps_ofCounted (horder : order.Returns) (cs : Array (Counted α)) :
    (MergeInputs.ofCounted order).order.Keeps (fun w => w.1 = cs) never := by
  rintro a b ⟨_, t⟩ rfl
  obtain ⟨v, t', ht⟩ := horder a b t
  simp only [MergeInputs.ofCounted, onSnd, ht]
  rfl

theorem poll_ofCounted (order : Comparator α τ) {i polls : Nat} {s : Source α}
    {w : Array (Counted α) × τ} (hc : w.1[i]? = some ⟨s, polls⟩) {x : Option α}
    (hx : s.answer polls = .ok x) : (MergeInputs.ofCounted order).poll i w =
      .ok x (w.1.modify i fun c => { c with polls := c.polls + 1 }, w.2) := by
  simp only [MergeInputs.ofCounted, onFst, Counted.pollAt_eq hc, hx]
  rfl

theorem poll_ofCounted_of_error (order : Comparator α τ) {i polls : Nat} {s : Source α}
    {w : Array (Counted α) × τ} (hc : w.1[i]? = some ⟨s, polls⟩) {e : Fault}
    (he : s.answer polls = .error e) : (MergeInputs.ofCounted order).poll i w =
      .error e (w.1.modify i fun c => { c with polls := c.polls + 1 }, w.2) := by
  simp only [MergeInputs.ofCounted, onFst, Counted.pollAt_eq hc, he]
  rfl

variable (horder : order.Returns) (hsources : ∀ s ∈ sources, s.Unfailing)

include horder hsources in
/-- Opening a source reads one answer of it. -/
theorem Accounts.openSource (h : Accounts sources opened given m)
    (hopened : opened < sources.length) : ∃ m',
      Merge.openSource (.ofCounted order) opened m = .ok () m' ∧
        Accounts sources (opened + 1) given m' := by
  obtain ⟨s, hs⟩ : ∃ s, sources[opened]? = some s := ⟨_, List.getElem?_eq_getElem hopened⟩
  have hstart : s.Starts [] := fun _ hk => absurd hk (Nat.not_lt_zero _)
  cases hx : s.answer 0 with
  | error e => exact absurd hx (hsources s (List.mem_of_getElem? hs) [] e hstart)
  | ok x =>
    have hpoll := poll_ofCounted order (h.unread opened s (Nat.le_refl _) hs) hx
    obtain ⟨m', hrun, hheap, hworld⟩ :=
      (openSource_shuffles (keeps_ofCounted horder _) hpoll rfl).exists_ok
    have hnew : ∀ entries : List (OpenSource α), (∀ a ∈ entries, a.source < opened) →
        headsOf opened entries = [] := fun entries hlt =>
      headsOf_of_ne fun a ha => Nat.ne_of_lt (hlt a ha)
    refine ⟨m', hrun, fun a ha => ?_, fun a ha => ?_, fun i s' hi hs' => ?_, fun i s' hi hs' => ?_⟩
    · rcases List.mem_append.1 (hheap.mem_iff.1 ha) with ha | ha
      · exact Nat.lt_succ_of_lt (h.heap_lt a ha)
      · obtain ⟨b, -, rfl⟩ := List.mem_map.1 ha
        exact Nat.lt_succ_self opened
    · exact Nat.lt_succ_of_lt (h.given_lt a ha)
    · rw [hworld, Array.getElem?_modify]
      have hperm := perm_headsOf (i := i) hheap
      rw [headsOf_append] at hperm
      rcases Nat.lt_succ_iff_lt_or_eq.1 hi with hi | rfl
      · obtain ⟨hpolled, hstarts, x', hx', hahead⟩ := h.read i s' hi hs'
        rw [headsOf_map_of_ne (Nat.ne_of_gt hi), List.append_nil] at hperm
        exact ⟨by rw [if_neg (Nat.ne_of_gt hi), hpolled], hstarts, x', hx', hperm.trans hahead⟩
      · obtain rfl : s = s' := Option.some.inj (hs.symm.trans hs')
        rw [hnew _ h.heap_lt, headsOf_self, List.nil_append] at hperm
        rw [hnew _ h.given_lt, if_pos rfl, h.unread i s (Nat.le_refl _) hs]
        exact ⟨rfl, hstart, x, hx, hperm⟩
    · rw [hworld, Array.getElem?_modify, if_neg (by omega)]
      exact h.unread i s' (by omega) hs'

include horder hsources in
theorem Accounts.openAll (h : Accounts sources 0 given m) : ∃ m',
    Merge.openAll (.ofCounted order) sources.length m = .ok () m' ∧
      Accounts sources sources.length given m' := by
  have hsource : ∀ i < sources.length, ∀ m, Accounts sources i given m →
      Leaves (fun _ => Accounts sources (i + 1) given) never
        (Merge.openSource (.ofCounted order) i m) := by
    intro i hi m h
    obtain ⟨m', hrun, h'⟩ := h.openSource horder hsources hi
    rw [hrun]
    exact h'
  obtain ⟨_, m', hrun, h'⟩ := (leaves_forM_range sources.length hsource h).exists_ok
  exact ⟨m', hrun, h'⟩

include horder hsources in
/-- A step gives the head of an open source and reads on there, or there is no open source. -/
theorem Accounts.nextFrom_cases (h : Accounts sources sources.length given m) :
    m.heap.toList = [] ∧ nextFrom (.ofCounted order) m = .ok none m ∨
    ∃ a m', nextFrom (.ofCounted order) m = .ok (some a) m' ∧
      Accounts sources sources.length (given ++ [a]) m' := by
  cases hentries : m.heap.toList with
  | nil =>
    exact .inl ⟨rfl, nextFrom_of_nil hentries⟩
  | cons root rest =>
    have hroot : m.heap[0]? = some root := by rw [← Array.getElem?_toList, hentries]; rfl
    have hlt := h.heap_lt root (hentries ▸ List.mem_cons_self)
    obtain ⟨s, hs⟩ : ∃ s, sources[root.source]? = some s := ⟨_, List.getElem?_eq_getElem hlt⟩
    obtain ⟨hpolled, hstarts, x, hx, hahead⟩ := h.read _ s hlt hs
    -- the root is the only entry of its source, and its head is what the source answered last
    have hself : headsOf root.source [root] = [root.head] := headsOf_self (i := root.source) [_]
    rw [hentries, headsOf_cons, hself] at hahead
    obtain ⟨rfl, hrest⟩ : x = some root.head ∧ headsOf root.source rest = [] := by
      cases x with
      | none => exact absurd hahead.length_eq (by simp)
      | some a =>
        have hone := List.perm_singleton.1 hahead
        exact ⟨congrArg some (List.cons.inj hone).1.symm, (List.cons.inj hone).2⟩
    have hstarts' := hstarts.concat hx
    cases hy : s.answer (headsOf root.source given ++ [root.head]).length with
    | error e => exact absurd hy (hsources s (List.mem_of_getElem? hs) _ e hstarts')
    | ok y =>
      have hlength : (headsOf root.source given ++ [root.head]).length =
          (headsOf root.source given).length + 1 := by simp
      have hpoll := poll_ofCounted order hpolled (hlength ▸ hy)
      obtain ⟨m', hrun, hheap, hworld⟩ :=
        (next_shuffles (keeps_ofCounted horder _) hentries hpoll rfl).exists_ok
      refine .inr ⟨root, m', ?_, fun a ha => ?_, fun a ha => ?_, fun i s' hi hs' => ?_,
        fun i s' hi hs' => ?_⟩
      · exact hroot ▸ nextFrom_of_next hrun
      · rcases List.mem_append.1 (hheap.mem_iff.1 ha) with ha | ha
        · obtain ⟨b, -, rfl⟩ := List.mem_map.1 ha
          exact hlt
        · exact h.heap_lt a (hentries ▸ List.mem_cons_of_mem _ ha)
      · rcases List.mem_append.1 ha with ha | ha
        · exact h.given_lt a ha
        · exact List.mem_singleton.1 ha ▸ hlt
      · rw [hworld, Array.getElem?_modify, headsOf_append]
        have hperm := perm_headsOf (i := i) hheap
        rw [headsOf_append] at hperm
        by_cases hne : root.source = i
        · subst hne
          obtain rfl : s = s' := Option.some.inj (hs.symm.trans hs')
          rw [headsOf_self, hrest, List.append_nil] at hperm
          rw [hself, if_pos rfl, hpolled]
          exact ⟨by rw [hlength]; rfl, hstarts', y, hy, hperm⟩
        · obtain ⟨hpolled', hstarts', x', hx', hahead'⟩ := h.read i s' hi hs'
          have hother : headsOf i [root] = [] := headsOf_map_of_ne hne [root.head]
          rw [headsOf_map_of_ne hne, List.nil_append] at hperm
          rw [hentries, headsOf_cons, hother, List.nil_append] at hahead'
          rw [hother, List.append_nil, if_neg hne]
          exact ⟨hpolled', hstarts', x', hx', hperm.trans hahead'⟩
      · exact absurd (List.getElem?_eq_some_iff.1 hs').1 (Nat.not_lt_of_ge hi)

include horder hsources in
/-- The merge gives as many items as it is asked for, or all. -/
theorem Accounts.gives (n : Nat) : ∀ {given : List (OpenSource α)}
    {m : Merge α (Array (Counted α) × τ)}, Accounts sources sources.length given m →
    ∃ more : List (OpenSource α), more.length ≤ n ∧
      Act.Gives (nextFrom (.ofCounted order)) (fun m' =>
        Accounts sources sources.length (given ++ more) m' ∧
          (more.length < n → m'.heap.toList = [])) more m := by
  intro given m h
  refine gives_of_steps (Accounts sources sources.length) (fun given m h => ?_) n h
  exact (h.nextFrom_cases horder hsources).imp_left And.left

theorem Accounts.hasItem_iff {i : Nat} {s : Source α}
    (h : Accounts sources opened given m) (hi : i < opened) (hs : sources[i]? = some s) :
    (headsOf i m.heap.toList).length =
      if s.hasItem (headsOf i given).length then 1 else 0 := by
  obtain ⟨-, -, x, hx, hahead⟩ := h.read i s hi hs
  rw [hahead.length_eq, Source.hasItem, hx]
  cases x <;> rfl

theorem Accounts.openSources (h : Accounts sources sources.length given m) : m.openSources =
    (univ.filter fun i : Fin sources.length =>
      sources[i].hasItem (headsOf i given).length).card := by
  rw [Merge.openSources, ← Array.length_toList, ← sum_length_headsOf h.heap_lt, card_filter]
  exact sum_congr rfl fun i _ => h.hasItem_iff i.isLt (List.getElem?_eq_getElem i.isLt)

theorem Accounts.not_hasItem (h : Accounts sources sources.length given m)
    (hheap : m.heap.toList = []) {i : Nat} {s : Source α} (hs : sources[i]? = some s) :
    s.hasItem (headsOf i given).length = false := by
  have hi := (List.getElem?_eq_some_iff.1 hs).1
  have hlength := h.hasItem_iff hi hs
  rw [hheap] at hlength
  by_contra hitem
  rw [if_pos (by simpa using hitem)] at hlength
  cases hlength

end Step

end Merge

/-! ## Finite sources -/

section Finite

variable {s : Source α} {items taken : List α}

theorem Source.Starts.isPrefix (h : s.Starts taken) (hgives : s.Gives items) : taken <+: items := by
  have hagree : ∀ k ≤ taken.length, k ≤ items.length ∧ items.take k = taken.take k := by
    intro k
    induction k with
    | zero => exact fun _ => ⟨Nat.zero_le _, rfl⟩
    | succ k ih =>
      intro hk
      obtain ⟨hle, htake⟩ := ih (Nat.le_of_succ_le hk)
      have hitem : items[k]? = taken[k]? := Except.ok.inj ((hgives k hle).symm.trans (h k hk))
      have hlt : k < items.length := by
        by_contra hge
        rw [List.getElem?_eq_none (Nat.le_of_not_lt hge), List.getElem?_eq_getElem hk] at hitem
        cases hitem
      exact ⟨hlt, by rw [List.take_add_one, List.take_add_one, htake, hitem]⟩
  have htake := (hagree _ (Nat.le_refl _)).2
  rw [List.take_length] at htake
  exact htake ▸ List.take_prefix _ _

theorem Source.Gives.unfailing (hgives : s.Gives items) : s.Unfailing := by
  intro taken e hstarts he
  rw [hgives _ (hstarts.isPrefix hgives).length_le] at he
  cases he

theorem Source.Starts.eq_of_not_hasItem (h : s.Starts taken) (hgives : s.Gives items)
    (hend : s.hasItem taken.length = false) : taken = items := by
  obtain ⟨rest, rfl⟩ := h.isPrefix hgives
  cases rest with
  | nil => exact (List.append_nil _).symm
  | cons a rest =>
    rw [Source.hasItem, hgives _ (List.length_append ▸ Nat.le_add_right _ _)] at hend
    simp at hend

end Finite

theorem length_flatten_eq_sum (lists : List (List α)) :
    lists.flatten.length = ∑ i : Fin lists.length, lists[i].length := by
  rw [List.length_flatten]
  exact (Fin.sum_univ_fun_getElem lists List.length).symm

namespace Merge

variable {sources : List (Source α)} {given : List (OpenSource α)}
  {m : Merge α (Array (Counted α) × τ)} {lists : List (List α)}

/-- Of finite sources a merge gives as many items as it is asked for, or all. -/
theorem Accounts.length_of_gives (h : Accounts sources sources.length given m)
    (hgives : List.Forall₂ Source.Gives sources lists) {n : Nat} (hlength : given.length ≤ n)
    (hheap : given.length < n → m.heap.toList = []) :
    given.length = min n lists.flatten.length ∧
      (lists.flatten.length ≤ n → ∀ i items, lists[i]? = some items →
        headsOf i given = items) := by
  have hread : ∀ i : Fin lists.length, ∃ s : Source α, sources[i]? = some s ∧
      s.Gives lists[i] ∧ s.Starts (headsOf i given) := by
    intro i
    have hi : i < sources.length := by rw [hgives.length_eq]; exact i.isLt
    have hs := List.getElem?_eq_getElem hi
    exact ⟨sources[i], hs, hgives.get hi i.isLt, (h.read i _ hi hs).starts⟩
  have hle : ∀ i : Fin lists.length, headsOf i given <+: lists[i] := fun i => by
    obtain ⟨s, -, hs, hstart⟩ := hread i
    exact hstart.isPrefix hs
  have hsum := sum_length_headsOf (hgives.length_eq ▸ h.given_lt)
  have htotal : given.length ≤ lists.flatten.length := by
    rw [length_flatten_eq_sum, ← hsum]
    exact sum_le_sum fun i _ => (hle i).length_le
  have hall : given.length < n → lists.flatten.length = given.length := fun hlt => by
    rw [length_flatten_eq_sum, ← hsum]
    refine sum_congr rfl fun i _ => ?_
    obtain ⟨s, hs, hs', hstart⟩ := hread i
    rw [hstart.eq_of_not_hasItem hs' (h.not_hasItem (hheap hlt) hs)]
  refine ⟨by omega, fun hn i items hitems => ?_⟩
  -- no more can be given of any source than it has, so nothing is missing of any
  have hsame : ∑ i : Fin lists.length, (headsOf i given).length =
      ∑ i : Fin lists.length, lists[i].length := by
    rw [hsum, ← length_flatten_eq_sum]
    omega
  obtain ⟨hi, rfl⟩ := List.getElem?_eq_some_iff.1 hitems
  have hlengths := (sum_eq_sum_iff_of_le fun i _ => (hle i).length_le).1 hsame
  exact (hle ⟨i, hi⟩).eq_of_length (hlengths ⟨i, hi⟩ (mem_univ _))

theorem accounts_start (sources : List (Source α)) (t : τ) :
    Accounts sources 0 [] (.ofWorld ((sources.map Counted.ofSource).toArray, t)) where
  heap_lt _ ha := absurd ha List.not_mem_nil
  given_lt _ ha := absurd ha List.not_mem_nil
  read _ _ hi := absurd hi (Nat.not_lt_zero _)
  unread i s _ hs := by simp [ofWorld, hs, Counted.ofSource]

/-- What was given is of the sources: of each of them the items that it starts with, and open are
those that have more. -/
structure Conserves (sources : List (Source α)) (given : List (OpenSource α))
    (m : Merge α (Array (Counted α) × τ)) : Prop where
  known : ∀ a ∈ given, a.source < sources.length
  starts : ∀ i (s : Source α), sources[i]? = some s → s.Starts (headsOf i given)
  openSources : m.openSources = (univ.filter fun i : Fin sources.length =>
    sources[i].hasItem (headsOf i given).length).card

theorem Accounts.conserves (h : Accounts sources sources.length given m) :
    Conserves sources given m where
  known := h.given_lt
  starts i s hs := (h.read i s (List.getElem?_eq_some_iff.1 hs).1 hs).starts
  openSources := h.openSources

variable {order : Comparator α τ} (horder : order.Returns)
  (hsources : ∀ s ∈ sources, s.Unfailing)

include horder hsources in
theorem Accounts.next_isSome (h : Accounts sources sources.length given m) :
    ∃ x m', next (.ofCounted order) m = .ok x m' ∧ (x.isSome ↔ 0 < m.openSources) := by
  rcases h.nextFrom_cases horder hsources with ⟨hnil, -⟩ | ⟨a, m', hnext, -⟩
  · refine ⟨none, m, next_of_nil hnil, ?_⟩
    simp [Merge.openSources, ← Array.length_toList, hnil]
  · refine ⟨some a.head, m', ?_, ?_⟩
    · rw [← map_nextFrom]
      simp only [Functor.map, EStateM.map, hnext, Option.map_some]
    · have hne : m.heap.toList ≠ [] := fun hnil => by
        rw [nextFrom_of_nil hnil] at hnext
        cases hnext
      simpa [Merge.openSources, ← Array.length_toList] using List.length_pos_of_ne_nil hne

include horder hsources in
/-- A merge opens, and gives as many items as it is asked for, or all. -/
theorem exists_gives (t : τ) (n : Nat) : ∃ m₀ given,
    openAll (.ofCounted order) sources.length
      (.ofWorld ((sources.map Counted.ofSource).toArray, t)) = .ok () m₀ ∧
    given.length ≤ n ∧
    Act.Gives (nextFrom (.ofCounted order)) (fun m => Accounts sources sources.length given m ∧
      (given.length < n → m.heap.toList = [])) given m₀ := by
  obtain ⟨m₀, hopen, h₀⟩ := (accounts_start sources t).openAll horder hsources
  obtain ⟨given, hlength, hgives⟩ := h₀.gives horder hsources n
  exact ⟨m₀, given, hopen, hlength, hgives⟩

end Merge

/-- Whatever the comparator answers, a merge gives the items of its sources, each source's in their
order, until no source has more. -/
theorem merge_conserves {order : Comparator α τ} (horder : order.Returns)
    {sources : List (Source α)} (hsources : ∀ s ∈ sources, s.Unfailing) (t : τ) (n : Nat) :
    ∃ given m, given.length ≤ n ∧
      attemptAfter (Merge.openAll (.ofCounted order) sources.length)
        (Merge.nextFrom (.ofCounted order)) n
        (.ofWorld ((sources.map Counted.ofSource).toArray, t)) = .ok (answers given n) m ∧
      attemptAfter (Merge.openAll (.ofCounted order) sources.length)
        (Merge.next (.ofCounted order)) n
        (.ofWorld ((sources.map Counted.ofSource).toArray, t)) =
          .ok (answers (given.map OpenSource.head) n) m ∧
      Merge.Conserves sources given m ∧
      (∃ x m', Merge.next (.ofCounted order) m = .ok x m' ∧ (x.isSome ↔ 0 < m.openSources)) ∧
      -- all items of finite sources are given, and then the end for ever
      ∀ lists, List.Forall₂ Source.Gives sources lists →
        given.length = min n lists.flatten.length ∧
        (lists.flatten.length ≤ n → ∀ i items, lists[i]? = some items →
          headsOf i given = items) := by
  obtain ⟨m₀, given, hopen, hlength, hgives⟩ := Merge.exists_gives horder hsources t n
  obtain ⟨m, ⟨h, hheap⟩, hall⟩ :=
    hgives.attemptAll hlength fun hlt m' h' => Merge.nextFrom_of_nil (h'.2 hlt)
  have hrun : attemptAfter (Merge.openAll (.ofCounted order) sources.length)
      (Merge.nextFrom (.ofCounted order)) n
      (.ofWorld ((sources.map Counted.ofSource).toArray, t)) = .ok (answers given n) m := by
    simp only [attemptAfter, hopen, hall]
  refine ⟨given, m, hlength, hrun, ?_, h.conserves, h.next_isSome horder hsources,
    fun lists hlists => ?_⟩
  · rw [← Merge.map_nextFrom, attemptAfter_map]
    simp only [Functor.map, EStateM.map, hrun, map_answers]
  · exact h.length_of_gives hlists hlength hheap

/-- A comparator that answers by the number of its calls. -/
def byTurns : Comparator Nat Nat := fun _ _ calls =>
  .ok (if calls % 3 = 0 then .gt else .lt) (calls + 1)

theorem merge_conserves_by_turns :
    let sources := [.ofScript [.item 5, .item 2, .stop, .item 0], .ofList [], .ofList [3, 1, 4]]
    byTurns.Returns ∧ (∀ s ∈ sources, s.Unfailing) ∧ ∃ given m, given.length = 5 ∧
      attemptAfter (Merge.openAll (.ofCounted byTurns) 3) (Merge.next (.ofCounted byTurns)) 8
        (.ofWorld ((sources.map Counted.ofSource).toArray, 0)) =
          .ok (answers (given.map OpenSource.head) 8) m ∧
      headsOf 0 given = [5, 2] ∧ headsOf 1 given = [] ∧ headsOf 2 given = [3, 1, 4] := by
  intro sources
  have hreturns : byTurns.Returns := fun _ _ _ => ⟨_, _, rfl⟩
  have hscript : (Source.ofScript [.item 5, .item 2, .stop, .item 0]).Gives [5, 2] := by
    rintro (_ | _ | _ | k) hk
    · rfl
    · rfl
    · rfl
    · simp only [List.length_cons, List.length_nil] at hk
      omega
  have hlists : List.Forall₂ Source.Gives sources [[5, 2], [], [3, 1, 4]] :=
    .cons hscript (.cons (Source.gives_ofList []) (.cons (Source.gives_ofList [3, 1, 4]) .nil))
  have hsources : ∀ s ∈ sources, s.Unfailing := by
    intro s hs
    obtain ⟨i, hi, rfl⟩ := List.getElem_of_mem hs
    exact (hlists.get hi (hlists.length_eq ▸ hi)).unfailing
  obtain ⟨given, m, -, -, hrun, -, -, hfinite⟩ := merge_conserves hreturns hsources 0 8
  obtain ⟨hlength, hheads⟩ := hfinite _ hlists
  have hheads := hheads (by decide)
  exact ⟨hreturns, hsources, given, m, hlength, hrun, hheads 0 _ rfl, hheads 1 _ rfl,
    hheads 2 _ rfl⟩

end Streamkit
