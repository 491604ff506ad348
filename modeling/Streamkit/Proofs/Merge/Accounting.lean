import Mathlib.Data.Set.Card
import Streamkit.Proofs.Merge.Conservation

/-!
# The accounts of a merge whose callbacks give up

A merge goes on after a fault, be it one of a source or of the comparator. `MergeStep` tells what a
call of `Merge.next` comes to, and `Merge.Comes` what the call then leaves of the merge: a source
that gives up costs nothing, a comparator that gives up costs the head of the root. This holds of
every merge, whatever the order of its heap (`Merge.exists_comes`). Over a run of steps the heads
that are gone are, of each source, the first of its items (`Merge.Ledger`); what a run comes to is
stated in `merge_accounts`.
-/

namespace Streamkit

open Act

variable {α τ : Type}

/-! ## The items of a source -/

/-- The source has ended within so many polls. -/
def Source.EndsWithin (s : Source α) (polls : Nat) : Prop := ∃ k < polls, s.answer k = .ok none

namespace Source

variable {s : Source α} {polls : Nat}

/-- After an end no more items come. -/
theorem itemsFrom_add_of_end (k more : Nat) (hend : ∃ j < polls, s.answer (k + j) = .ok none) :
    s.itemsFrom k (polls + more) = s.itemsFrom k polls := by
  induction polls generalizing k with
  | zero => exact absurd hend.choose_spec.1 (Nat.not_lt_zero _)
  | succ polls ih =>
    obtain ⟨j, hj, hend⟩ := hend
    rw [Nat.add_right_comm, itemsFrom, itemsFrom]
    have hlater : s.answer k ≠ .ok none →
        s.itemsFrom (k + 1) (polls + more) = s.itemsFrom (k + 1) polls := by
      intro hk
      cases j with
      | zero => exact absurd hend hk
      | succ j =>
        refine ih (k + 1) ⟨j, Nat.lt_of_succ_lt_succ hj, ?_⟩
        rwa [Nat.add_assoc, Nat.add_comm 1]
    cases hk : s.answer k with
    | error e => exact hlater (hk ▸ nofun)
    | ok x =>
      cases x with
      | none => rfl
      | some a => exact congrArg (a :: ·) (hlater (hk ▸ nofun))

/-- Before the end each answer adds what it gives. -/
theorem itemsFrom_add_of_open (k more : Nat) (hopen : ∀ j < polls, s.answer (k + j) ≠ .ok none) :
    s.itemsFrom k (polls + more) = s.itemsFrom k polls ++ s.itemsFrom (k + polls) more := by
  induction polls generalizing k with
  | zero => rw [Nat.zero_add, itemsFrom]; rfl
  | succ polls ih =>
    have hrest := ih (k + 1) fun j hj => by
      rw [Nat.add_assoc, Nat.add_comm 1]
      exact hopen (j + 1) (Nat.succ_lt_succ hj)
    rw [Nat.add_assoc, Nat.add_comm 1] at hrest
    rw [Nat.add_right_comm, itemsFrom, itemsFrom]
    cases hk : s.answer k with
    | error e => exact hrest
    | ok x =>
      cases x with
      | none => exact absurd hk (hopen 0 (Nat.zero_lt_succ _))
      | some a => exact congrArg (a :: ·) hrest

theorem isPrefix_itemsFrom {k p q : Nat} (h : p ≤ q) : s.itemsFrom k p <+: s.itemsFrom k q := by
  obtain ⟨more, rfl⟩ := Nat.exists_eq_add_of_le h
  by_cases hend : ∃ j < p, s.answer (k + j) = .ok none
  · rw [itemsFrom_add_of_end k more hend]
  · rw [itemsFrom_add_of_open k more fun j hj h => hend ⟨j, hj, h⟩]
    exact List.prefix_append _ _

/-- By so many polls `taken` was taken of the source, and `ahead` is what was read after that;
nothing is ahead only after the end. -/
def ReadTo (s : Source α) (polls : Nat) (taken ahead : List α) : Prop :=
  ∃ x : Option α, s.itemsFrom 0 polls = taken ++ x.toList ∧ ahead.Perm x.toList ∧
    (x = none ↔ s.EndsWithin polls)

variable {taken ahead : List α} {e : Fault} {x : Option α}

theorem endsWithin_succ :
    s.EndsWithin (polls + 1) ↔ s.EndsWithin polls ∨ s.answer polls = .ok none := by
  constructor
  · rintro ⟨k, hk, hend⟩
    rcases Nat.lt_succ_iff_lt_or_eq.1 hk with hk | rfl
    · exact .inl ⟨k, hk, hend⟩
    · exact .inr hend
  · rintro (⟨k, hk, hend⟩ | hend)
    · exact ⟨k, Nat.lt_succ_of_lt hk, hend⟩
    · exact ⟨polls, Nat.lt_succ_self polls, hend⟩

theorem itemsFrom_succ_of_open (hopen : ¬ s.EndsWithin polls) :
    s.itemsFrom 0 (polls + 1) = s.itemsFrom 0 polls ++ s.itemsFrom polls 1 := by
  have hadd : s.itemsFrom 0 (polls + 1) = s.itemsFrom 0 polls ++ s.itemsFrom (0 + polls) 1 :=
    itemsFrom_add_of_open 0 1 fun j hj h => hopen ⟨j, hj, by rwa [Nat.zero_add] at h⟩
  rwa [Nat.zero_add] at hadd

theorem itemsFrom_one_of_ok (hx : s.answer polls = .ok x) : s.itemsFrom polls 1 = x.toList := by
  rw [itemsFrom, hx]
  cases x <;> rfl

theorem itemsFrom_one_of_error (he : s.answer polls = .error e) : s.itemsFrom polls 1 = [] := by
  rw [itemsFrom, he]
  rfl

theorem ReadTo.perm {ahead' : List α} (h : s.ReadTo polls taken ahead) (hperm : ahead'.Perm ahead) :
    s.ReadTo polls taken ahead' :=
  h.imp fun _ h => ⟨h.1, hperm.trans h.2.1, h.2.2⟩

theorem readTo_one (hx : s.answer 0 = .ok x) : s.ReadTo 1 [] x.toList := by
  refine ⟨x, itemsFrom_one_of_ok hx, .refl _, (endsWithin_succ.trans ?_).symm⟩
  have hnone : ¬ s.EndsWithin 0 := fun ⟨k, hk, _⟩ => Nat.not_lt_zero k hk
  rw [hx, or_iff_right hnone, Except.ok.injEq]

theorem ReadTo.not_ended {a : α} (h : s.ReadTo polls taken ahead) (ha : a ∈ ahead) :
    ¬ s.EndsWithin polls ∧ s.itemsFrom 0 polls = taken ++ [a] ∧ ahead = [a] := by
  obtain ⟨x, hitems, hahead, hend⟩ := h
  cases x with
  | none => exact absurd (hahead.mem_iff.1 ha) List.not_mem_nil
  | some b =>
    obtain rfl := List.perm_singleton.1 hahead
    obtain rfl := List.mem_singleton.1 ha
    exact ⟨fun h => (nomatch hend.2 h), hitems, rfl⟩

/-- A poll that fails changes only the number of polls. -/
theorem ReadTo.stall {a : α} (h : s.ReadTo polls taken ahead) (ha : a ∈ ahead)
    (he : s.answer polls = .error e) : s.ReadTo (polls + 1) taken ahead := by
  obtain ⟨hopen, hitems, rfl⟩ := h.not_ended ha
  refine ⟨some a, ?_, .refl _, ⟨nofun, fun hend => ?_⟩⟩
  · rw [itemsFrom_succ_of_open hopen, itemsFrom_one_of_error he, List.append_nil]
    exact hitems
  · rcases endsWithin_succ.1 hend with hend | hend
    · exact absurd hend hopen
    · exact nomatch he.symm.trans hend

/-- A poll that is answered leaves the answer ahead, and what was ahead is taken. -/
theorem ReadTo.read {a : α} (h : s.ReadTo polls taken ahead) (ha : a ∈ ahead)
    (hx : s.answer polls = .ok x) : s.ReadTo (polls + 1) (taken ++ [a]) x.toList := by
  obtain ⟨hopen, hitems, rfl⟩ := h.not_ended ha
  refine ⟨x, ?_, .refl _, (endsWithin_succ.trans ?_).symm⟩
  · rw [itemsFrom_succ_of_open hopen, itemsFrom_one_of_ok hx, hitems]
  · rw [hx, or_iff_right hopen, Except.ok.injEq]

/-- More items come exactly if one is ahead. -/
theorem ReadTo.exists_more_iff (h : s.ReadTo polls taken ahead) :
    (∃ p, taken.length < (s.itemsFrom 0 p).length) ↔ ahead.length = 1 := by
  obtain ⟨x, hitems, hahead, hend⟩ := h
  rw [hahead.length_eq]
  cases x with
  | none =>
    obtain ⟨k, hk, hstop⟩ := hend.1 rfl
    simp only [Option.toList_none, List.append_nil] at hitems
    refine ⟨fun ⟨p, hp⟩ => absurd hp ?_, nofun⟩
    have hle := (isPrefix_itemsFrom (s := s) (k := 0) (Nat.le_add_left p polls)).length_le
    rw [itemsFrom_add_of_end 0 p ⟨k, hk, by rwa [Nat.zero_add]⟩, hitems] at hle
    exact Nat.not_lt_of_ge hle
  | some a =>
    refine ⟨fun _ => rfl, fun _ => ⟨polls, ?_⟩⟩
    rw [hitems, List.length_append]
    exact Nat.lt_succ_self _

end Source

/-! ## Steps -/

/-- What a call of `Merge.next` comes to. -/
inductive MergeStep (α : Type) where
  /-- The head of the root was given. -/
  | gave (root : OpenSource α)
  /-- The comparator gave up, and the head of the root was lost. -/
  | lost (root : OpenSource α) (e : Fault)
  /-- The source of the root gave up. -/
  | stalled (root : OpenSource α) (e : Fault)
  /-- There was no open source. -/
  | ended

namespace MergeStep

/-- What the caller is told. -/
def reply : MergeStep α → Except Fault (Option α)
  | gave root => .ok (some root.head)
  | lost _ e | stalled _ e => .error e
  | ended => .ok none

/-- The head that was given. -/
def given : MergeStep α → List (OpenSource α)
  | gave root => [root]
  | lost _ _ | stalled _ _ | ended => []

/-- The head that was lost. -/
def missing : MergeStep α → List (OpenSource α)
  | lost root _ => [root]
  | gave _ | stalled _ _ | ended => []

/-- The head that is gone, given or lost. -/
def gone (step : MergeStep α) : List (OpenSource α) := step.given ++ step.missing

/-- A poll of this source gave up. -/
def stalls (i : Nat) : MergeStep α → Bool
  | stalled root _ => root.source == i
  | gave _ | lost _ _ | ended => false

@[simp] theorem gone_stalled (root : OpenSource α) (e : Fault) : (stalled root e).gone = [] := rfl

@[simp] theorem gone_ended : (ended : MergeStep α).gone = [] := rfl

@[simp] theorem stalls_stalled (i : Nat) (root : OpenSource α) (e : Fault) :
    (stalled root e).stalls i = (root.source == i) := rfl

@[simp] theorem stalls_ended (i : Nat) : (ended : MergeStep α).stalls i = false := rfl

@[simp] theorem headsOf_nil (i : Nat) : headsOf i ([] : List (OpenSource α)) = [] := rfl

/-- The polls of a source: the one that opened it, one for each head of it that is gone, and those
that gave up. -/
def polls (i : Nat) (steps : List (MergeStep α)) : Nat :=
  1 + (headsOf i (steps.flatMap gone)).length + steps.countP (stalls i)

theorem headsOf_gone_concat (i : Nat) (steps : List (MergeStep α)) (step : MergeStep α) :
    headsOf i ((steps ++ [step]).flatMap gone) =
      headsOf i (steps.flatMap gone) ++ headsOf i step.gone := by
  rw [List.flatMap_append, headsOf_append, List.flatMap_singleton]

theorem polls_concat (i : Nat) (steps : List (MergeStep α)) (step : MergeStep α) :
    polls i (steps ++ [step]) =
      polls i steps + ((headsOf i step.gone).length + if step.stalls i then 1 else 0) := by
  rw [polls, polls, headsOf_gone_concat, List.length_append, List.countP_append,
    List.countP_singleton]
  omega

theorem given_sublist_gone (steps : List (MergeStep α)) :
    (steps.flatMap given).Sublist (steps.flatMap gone) := by
  induction steps with
  | nil => exact .refl _
  | cons step steps ih => exact (List.sublist_append_left _ _).append ih

theorem length_gone (i : Nat) (steps : List (MergeStep α)) :
    (headsOf i (steps.flatMap gone)).length =
      (headsOf i (steps.flatMap given)).length + (headsOf i (steps.flatMap missing)).length := by
  induction steps with
  | nil => rfl
  | cons step steps ih =>
    simp only [List.flatMap_cons, headsOf_append, List.length_append, gone] at ih ⊢
    omega

end MergeStep

/-- The comparator gives up with this fault on some call. -/
def Comparator.Raises (order : Comparator α τ) (e : Fault) : Prop :=
  ∃ a b t t', order a b t = .error e t'

namespace Merge

variable {order : Comparator α τ} {m m' : Merge α (Array (Counted α) × τ)} {root : OpenSource α}

/-- The head of the root is gone, and the source of the root was read on. -/
def ReadsOn (root : OpenSource α) (m m' : Merge α (Array (Counted α) × τ)) : Prop :=
  m.heap[0]? = some root ∧ ∃ x : Option α,
    Counted.pollAt root.source m.world.1 = .ok x m'.world.1 ∧
    m'.heap.toList.Perm (x.toList.map (⟨·, root.source⟩) ++ m.heap.toList.tail)

/-- What a step leaves of the merge. -/
def Comes (order : Comparator α τ) (m m' : Merge α (Array (Counted α) × τ)) :
    MergeStep α → Prop
  | .gave root => ReadsOn root m m'
  | .lost root e => order.Raises e ∧ ReadsOn root m m' ∧
    -- the step comes to the same as one that was completed, with whatever comparator
    ∀ (order' : Comparator α τ) (t : τ) x m'',
      next (.ofCounted order') ⟨m.heap, m.world.1, t⟩ = .ok x m'' →
      x = some root.head ∧ m'.heap.toList.Perm m''.heap.toList ∧ m'.world.1 = m''.world.1
  | .stalled root e => m.heap[0]? = some root ∧
    Counted.pollAt root.source m.world.1 = .error e m'.world.1 ∧
    m'.heap = m.heap ∧ m'.world.2 = m.world.2
  | .ended => m.heap = #[] ∧ m' = m

/-- A run of steps from one merge to another. -/
inductive Run (order : Comparator α τ) :
    Merge α (Array (Counted α) × τ) → List (MergeStep α) → Merge α (Array (Counted α) × τ) → Prop
  | nil (m : Merge α (Array (Counted α) × τ)) : Run order m [] m
  | cons {m m₁ m' : Merge α (Array (Counted α) × τ)} {step : MergeStep α}
    {steps : List (MergeStep α)}
    (hnext : (next (.ofCounted order)).attempt m = (step.reply, m₁))
    (hcomes : Comes order m m₁ step) (hrun : Run order m₁ steps m') :
    Run order m (step :: steps) m'

theorem keeps_sources (order : Comparator α τ) (cs : Array (Counted α)) :
    (MergeInputs.ofCounted order).order.Keeps (fun w => w.1 = cs)
      (fun e w => w.1 = cs ∧ order.Raises e) := by
  rintro a b ⟨_, t⟩ rfl
  simp only [MergeInputs.ofCounted, onSnd]
  cases ht : order a b t with
  | ok v t' => rfl
  | error e t' => exact ⟨rfl, a, b, t, t', ht⟩

/-- The outcome of a step whose poll is answered. -/
theorem next_of_poll (order : Comparator α τ) (t : τ) {rest : List (OpenSource α)} {x : Option α}
    {cs : Array (Counted α)} (hheap : m.heap.toList = root :: rest)
    (hpoll : Counted.pollAt root.source m.world.1 = .ok x cs) :
    Shuffles (fun w => w.1 = cs) (fun e w => w.1 = cs ∧ order.Raises e) (some root.head)
      (x.toList.map (⟨·, root.source⟩) ++ rest)
      (next (.ofCounted order) ⟨m.heap, m.world.1, t⟩) := by
  have hpoll' : (MergeInputs.ofCounted order).poll root.source (m.world.1, t) = .ok x (cs, t) := by
    simp only [MergeInputs.ofCounted, onFst, hpoll]
  exact next_shuffles (m := ⟨m.heap, m.world.1, t⟩) (keeps_sources order cs) hheap hpoll' rfl

/-- Every call of `Merge.next` comes to one of the steps, whatever the heap is like. -/
theorem exists_comes (order : Comparator α τ) (m : Merge α (Array (Counted α) × τ)) :
    ∃ step m', (next (.ofCounted order)).attempt m = (step.reply, m') ∧ Comes order m m' step := by
  cases hheap : m.heap.toList with
  | nil =>
    refine ⟨.ended, m, ?_, Array.toList_eq_nil_iff.1 hheap, rfl⟩
    simp only [Act.attempt, next_of_nil hheap]
    rfl
  | cons root rest =>
    have hroot : m.heap[0]? = some root := by rw [← Array.getElem?_toList, hheap]; rfl
    have htail : m.heap.toList.tail = rest := by rw [hheap]; rfl
    cases hpoll : Counted.pollAt root.source m.world.1 with
    | error e cs =>
      refine ⟨.stalled root e, ⟨m.heap, cs, m.world.2⟩, ?_, hroot, hpoll, rfl, rfl⟩
      simp only [Act.attempt, next, hroot, MergeInputs.ofCounted, onFst, hpoll]
      rfl
    | ok x cs =>
      have hsteps := fun order t => next_of_poll order t hheap hpoll
      simp only [Act.attempt]
      refine (hsteps order m.world.2).elim (fun b m' h => ?_) (fun e m' h => ?_)
      · obtain ⟨rfl, hperm, hcs⟩ := h
        exact ⟨.gave root, m', rfl, hroot, x, hcs ▸ hpoll, htail ▸ hperm⟩
      · obtain ⟨hperm, hcs, he⟩ := h
        refine ⟨.lost root e, m', rfl, he, ⟨hroot, x, hcs ▸ hpoll, htail ▸ hperm⟩, ?_⟩
        intro order' t y m'' hnext
        obtain ⟨hy, hperm', hcs'⟩ := hnext ▸ hsteps order' t
        exact ⟨hy, hperm.trans hperm'.symm, hcs.trans hcs'.symm⟩

theorem exists_run (order : Comparator α τ) (n : Nat) (m : Merge α (Array (Counted α) × τ)) :
    ∃ steps m', attemptAll (List.replicate n (next (.ofCounted order))) m =
      (steps.map MergeStep.reply, m') ∧ Run order m steps m' := by
  induction n generalizing m with
  | zero => exact ⟨[], m, rfl, .nil m⟩
  | succ n ih =>
    obtain ⟨step, m₁, hnext, hcomes⟩ := exists_comes order m
    obtain ⟨steps, m', hall, hrun⟩ := ih m₁
    refine ⟨step :: steps, m', ?_, .cons hnext hcomes hrun⟩
    simp only [List.replicate_succ, attemptAll, hnext, hall, List.map_cons]

/-! ## Accounts of a run -/

/-- The sources below `opened` have been polled as the steps say, and the heads that are gone are
their first items; the others have not been polled. -/
structure Ledger (sources : List (Source α)) (opened : Nat) (steps : List (MergeStep α))
    (m : Merge α (Array (Counted α) × τ)) : Prop where
  heap_lt : ∀ a ∈ m.heap.toList, a.source < opened
  gone_lt : ∀ a ∈ steps.flatMap MergeStep.gone, a.source < opened
  polled : ∀ i s, i < opened → sources[i]? = some s →
    m.world.1[i]? = some ⟨s, MergeStep.polls i steps⟩
  read : ∀ i s, i < opened → sources[i]? = some s → s.ReadTo (MergeStep.polls i steps)
    (headsOf i (steps.flatMap MergeStep.gone)) (headsOf i m.heap.toList)
  unread : ∀ i s, opened ≤ i → sources[i]? = some s → m.world.1[i]? = some ⟨s, 0⟩

variable {sources : List (Source α)} {opened : Nat} {steps : List (MergeStep α)}
  {step : MergeStep α}

theorem ledger_start (sources : List (Source α)) (t : τ) :
    Ledger sources 0 [] (.ofWorld ((sources.map Counted.ofSource).toArray, t)) where
  heap_lt _ ha := absurd ha List.not_mem_nil
  gone_lt _ ha := absurd ha List.not_mem_nil
  polled _ _ hi := absurd hi (Nat.not_lt_zero _)
  read _ _ hi := absurd hi (Nat.not_lt_zero _)
  unread i s _ hs := by simp [ofWorld, hs, Counted.ofSource]

/-- A merge is refused with a fault of the comparator, or of the first poll of a source. -/
def Refuses (order : Comparator α τ) (sources : List (Source α)) (e : Fault) : Prop :=
  order.Raises e ∨ ∃ s ∈ sources, s.answer 0 = .error e

/-- Opening a source polls it once. -/
theorem Ledger.openSource (order : Comparator α τ) (h : Ledger sources opened [] m)
    (hopened : opened < sources.length) :
    Leaves (fun _ => Ledger sources (opened + 1) []) (fun e _ => Refuses order sources e)
      (Merge.openSource (.ofCounted order) opened m) := by
  obtain ⟨s, hs⟩ : ∃ s, sources[opened]? = some s := ⟨_, List.getElem?_eq_getElem hopened⟩
  have hpolled := h.unread opened s (Nat.le_refl _) hs
  cases hx : s.answer 0 with
  | error e =>
    simp only [Merge.openSource, poll_ofCounted_of_error order hpolled hx]
    exact .inr ⟨s, List.mem_of_getElem? hs, hx⟩
  | ok x =>
    have hpoll := poll_ofCounted order hpolled hx
    refine (openSource_shuffles (keeps_sources order _) hpoll rfl).elim (fun _ m' hleft => ?_)
      (fun e m' hleft => .inl hleft.2.2)
    obtain ⟨-, hheap, hworld⟩ := hleft
    refine ⟨fun a ha => ?_, fun a ha => absurd ha List.not_mem_nil, fun i s' hi hs' => ?_,
      fun i s' hi hs' => ?_, fun i s' hi hs' => ?_⟩
    · rcases List.mem_append.1 (hheap.mem_iff.1 ha) with ha | ha
      · exact Nat.lt_succ_of_lt (h.heap_lt a ha)
      · obtain ⟨b, -, rfl⟩ := List.mem_map.1 ha
        exact Nat.lt_succ_self opened
    · rw [hworld, Array.getElem?_modify]
      rcases Nat.lt_succ_iff_lt_or_eq.1 hi with hi | rfl
      · rw [if_neg (Nat.ne_of_gt hi), h.polled i s' hi hs']
      · obtain rfl : s = s' := Option.some.inj (hs.symm.trans hs')
        rw [if_pos rfl, hpolled]
        rfl
    · have hperm := perm_headsOf (i := i) hheap
      rw [headsOf_append] at hperm
      rcases Nat.lt_succ_iff_lt_or_eq.1 hi with hi | rfl
      · rw [headsOf_map_of_ne (Nat.ne_of_gt hi), List.append_nil] at hperm
        exact (h.read i s' hi hs').perm hperm
      · obtain rfl : s = s' := Option.some.inj (hs.symm.trans hs')
        have hnew : headsOf i m.heap.toList = [] :=
          headsOf_of_ne fun a ha => Nat.ne_of_lt (h.heap_lt a ha)
        rw [hnew, headsOf_self, List.nil_append] at hperm
        exact (Source.readTo_one hx).perm hperm
    · rw [hworld, Array.getElem?_modify, if_neg (by omega)]
      exact h.unread i s' (by omega) hs'

theorem ledger_openAll (order : Comparator α τ) (sources : List (Source α)) (t : τ) :
    Leaves (fun _ => Ledger sources sources.length []) (fun e _ => Refuses order sources e)
      (openAll (.ofCounted order) sources.length
        (.ofWorld ((sources.map Counted.ofSource).toArray, t))) := by
  have hsource : ∀ i < sources.length, ∀ m, Ledger sources i [] m →
      Leaves (fun _ => Ledger sources (i + 1) []) (fun e _ => Refuses order sources e)
        (Merge.openSource (.ofCounted order) i m) := fun _ hi _ h => h.openSource order hi
  exact leaves_forM_range sources.length hsource (ledger_start sources t)

/-- A step that reads on gives or loses the head of the root. -/
theorem Ledger.readsOn (h : Ledger sources sources.length steps m) (hreads : ReadsOn root m m')
    (hgone : step.gone = [root]) (hstalls : ∀ i, step.stalls i = false) :
    Ledger sources sources.length (steps ++ [step]) m' := by
  obtain ⟨hroot, x, hpoll, hheap⟩ := hreads
  have hentries := toList_of_root hroot
  have hmem : root ∈ m.heap.toList := hentries ▸ List.mem_cons_self
  have hlt := h.heap_lt root hmem
  obtain ⟨s, hs⟩ : ∃ s, sources[root.source]? = some s := ⟨_, List.getElem?_eq_getElem hlt⟩
  rw [Counted.pollAt_eq (h.polled _ s hlt hs)] at hpoll
  obtain ⟨hx, hworld⟩ := ofExcept_eq_ok hpoll
  have hself : headsOf root.source [root] = [root.head] := headsOf_self (i := root.source) [_]
  have hahead : root.head ∈ headsOf root.source m.heap.toList := by
    rw [hentries, headsOf_cons, hself]
    exact List.mem_cons_self
  have hrest : headsOf root.source m.heap.toList.tail = [] := by
    obtain ⟨-, -, hone⟩ := (h.read _ s hlt hs).not_ended hahead
    rw [hentries, headsOf_cons, hself] at hone
    exact (List.cons.inj hone).2
  have hother : ∀ i, root.source ≠ i → headsOf i [root] = [] :=
    fun i hne => headsOf_map_of_ne hne [root.head]
  refine ⟨fun a ha => ?_, fun a ha => ?_, fun i s' hi hs' => ?_, fun i s' hi hs' => ?_,
    fun i s' hi hs' => absurd (List.getElem?_eq_some_iff.1 hs').1 (Nat.not_lt_of_ge hi)⟩
  · rcases List.mem_append.1 (hheap.mem_iff.1 ha) with ha | ha
    · obtain ⟨b, -, rfl⟩ := List.mem_map.1 ha
      exact hlt
    · exact h.heap_lt a (List.mem_of_mem_tail ha)
  · rw [List.flatMap_append, List.flatMap_singleton, hgone] at ha
    rcases List.mem_append.1 ha with ha | ha
    · exact h.gone_lt a ha
    · exact List.mem_singleton.1 ha ▸ hlt
  · rw [hworld, Array.getElem?_modify, MergeStep.polls_concat, hgone, hstalls]
    by_cases hne : root.source = i
    · subst hne
      obtain rfl : s = s' := Option.some.inj (hs.symm.trans hs')
      rw [if_pos rfl, h.polled _ s hlt hs, hself]
      rfl
    · rw [if_neg hne, h.polled i s' hi hs', hother i hne]
      rfl
  · rw [MergeStep.polls_concat, MergeStep.headsOf_gone_concat, hgone, hstalls]
    have hperm := perm_headsOf (i := i) hheap
    rw [headsOf_append] at hperm
    by_cases hne : root.source = i
    · subst hne
      obtain rfl : s = s' := Option.some.inj (hs.symm.trans hs')
      rw [headsOf_self, hrest, List.append_nil] at hperm
      rw [hself]
      exact ((h.read _ s hlt hs).read hahead hx).perm hperm
    · have hread := h.read i s' hi hs'
      rw [hentries, headsOf_cons, hother i hne, List.nil_append] at hread
      rw [headsOf_map_of_ne hne, List.nil_append] at hperm
      rw [hother i hne, List.append_nil]
      exact hread.perm hperm

/-- A step whose source gives up changes only the polls of the source. -/
theorem Ledger.stalled {e : Fault} (h : Ledger sources sources.length steps m)
    (hcomes : Comes order m m' (.stalled root e)) :
    Ledger sources sources.length (steps ++ [.stalled root e]) m' := by
  obtain ⟨hroot, hpoll, hheap, -⟩ := hcomes
  have hmem : root ∈ m.heap.toList := toList_of_root hroot ▸ List.mem_cons_self
  have hlt := h.heap_lt root hmem
  obtain ⟨s, hs⟩ : ∃ s, sources[root.source]? = some s := ⟨_, List.getElem?_eq_getElem hlt⟩
  rw [Counted.pollAt_eq (h.polled _ s hlt hs)] at hpoll
  obtain ⟨he, hworld⟩ := ofExcept_eq_error hpoll
  have hahead : root.head ∈ headsOf root.source m.heap.toList := mem_headsOf hmem
  have hgone : (steps ++ [MergeStep.stalled root e]).flatMap MergeStep.gone =
      steps.flatMap MergeStep.gone := by
    rw [List.flatMap_append]
    exact List.append_nil _
  refine ⟨hheap ▸ h.heap_lt, hgone ▸ h.gone_lt, fun i s' hi hs' => ?_, fun i s' hi hs' => ?_,
    fun i s' hi hs' => absurd (List.getElem?_eq_some_iff.1 hs').1 (Nat.not_lt_of_ge hi)⟩
  · rw [hworld, Array.getElem?_modify, MergeStep.polls_concat, h.polled i s' hi hs']
    by_cases hne : root.source = i <;> simp [hne]
  · rw [hgone, hheap, MergeStep.polls_concat]
    by_cases hne : root.source = i
    · subst hne
      obtain rfl : s = s' := Option.some.inj (hs.symm.trans hs')
      have hstall := (h.read _ s hlt hs).stall hahead he
      simpa using hstall
    · simpa [hne] using h.read i s' hi hs'

/-- Every step keeps the accounts. -/
theorem Ledger.comes (h : Ledger sources sources.length steps m) (hcomes : Comes order m m' step) :
    Ledger sources sources.length (steps ++ [step]) m' := by
  cases step with
  | gave root => exact h.readsOn hcomes rfl fun _ => rfl
  | lost root e => exact h.readsOn hcomes.2.1 rfl fun _ => rfl
  | stalled root e => exact h.stalled hcomes
  | ended =>
    obtain ⟨-, rfl⟩ := hcomes
    refine ⟨h.heap_lt, ?_, fun i s hi hs => ?_, fun i s hi hs => ?_, h.unread⟩
    · simpa using h.gone_lt
    · simpa [MergeStep.polls_concat] using h.polled i s hi hs
    · simpa [MergeStep.polls_concat] using h.read i s hi hs

theorem Ledger.run {more : List (MergeStep α)} (h : Ledger sources sources.length steps m)
    (hrun : Run order m more m') : Ledger sources sources.length (steps ++ more) m' := by
  induction hrun generalizing steps with
  | nil => simpa using h
  | cons _ hcomes _ ih => simpa using ih (h.comes hcomes)

/-- No source has two entries in the heap. -/
theorem Ledger.nodup (h : Ledger sources opened steps m) (hopened : opened ≤ sources.length) :
    (m.heap.toList.map OpenSource.source).Nodup := by
  refine List.nodup_iff_count_le_one.2 fun i => ?_
  rw [count_map_source]
  by_cases hi : i < opened
  · obtain ⟨x, -, hahead, -⟩ :=
      h.read i _ hi (List.getElem?_eq_getElem (Nat.lt_of_lt_of_le hi hopened))
    rw [hahead.length_eq]
    cases x <;> simp
  · have hnone : headsOf i m.heap.toList = [] :=
      headsOf_of_ne fun a ha e => hi (e ▸ h.heap_lt a ha)
    rw [hnone]
    exact Nat.zero_le 1

/-- What a run comes to: of each source the heads that are gone are its first items, none was given
twice, every poll is accounted for, and open are the sources with more items to come. -/
structure Balance (sources : List (Source α)) (steps : List (MergeStep α))
    (m : Merge α (Array (Counted α) × τ)) : Prop where
  known : ∀ a ∈ steps.flatMap MergeStep.gone, a.source < sources.length
  starts : ∀ (i : Nat) (s : Source α), sources[i]? = some s →
    ∃ polls, headsOf i (steps.flatMap MergeStep.gone) <+: s.itemsFrom 0 polls
  once : ∀ (i : Nat) (s : Source α), sources[i]? = some s →
    ∃ polls, (headsOf i (steps.flatMap MergeStep.given)).Sublist (s.itemsFrom 0 polls)
  polled : ∀ (i : Nat) (s : Source α), sources[i]? = some s → m.world.1[i]? = some ⟨s,
    1 + (headsOf i (steps.flatMap MergeStep.given)).length +
      (headsOf i (steps.flatMap MergeStep.missing)).length + steps.countP (MergeStep.stalls i)⟩
  openSources : m.openSources = Set.ncard {i : Fin sources.length |
    ∃ polls, (headsOf i (steps.flatMap MergeStep.gone)).length <
      ((sources.get i).itemsFrom 0 polls).length}

theorem Ledger.openSources (h : Ledger sources sources.length steps m) :
    m.openSources = Set.ncard {i : Fin sources.length |
      ∃ polls, (headsOf i (steps.flatMap MergeStep.gone)).length <
        ((sources.get i).itemsFrom 0 polls).length} := by
  classical
  have hread : ∀ i : Fin sources.length, (sources.get i).ReadTo _ _ _ := fun i =>
    h.read i _ i.isLt (List.getElem?_eq_getElem i.isLt)
  have hmore : {i : Fin sources.length |
      ∃ polls, (headsOf i (steps.flatMap MergeStep.gone)).length <
        ((sources.get i).itemsFrom 0 polls).length} =
      (Finset.univ.filter fun i : Fin sources.length =>
        (headsOf i m.heap.toList).length = 1 : Finset (Fin sources.length)) := by
    ext i
    simp only [Set.mem_ofPred_eq, Finset.coe_filter, Finset.mem_univ, true_and]
    exact (hread i).exists_more_iff
  rw [hmore, Set.ncard_coe_finset, Finset.card_filter, Merge.openSources, ← Array.length_toList,
    ← sum_length_headsOf h.heap_lt]
  refine Finset.sum_congr rfl fun i _ => ?_
  obtain ⟨x, -, hahead, -⟩ := hread i
  rw [hahead.length_eq]
  cases x <;> rfl

theorem Ledger.balance (h : Ledger sources sources.length steps m) : Balance sources steps m where
  known := h.gone_lt
  starts i s hs := by
    obtain ⟨x, hitems, -, -⟩ := h.read i s (List.getElem?_eq_some_iff.1 hs).1 hs
    exact ⟨_, hitems ▸ List.prefix_append _ _⟩
  once i s hs := by
    obtain ⟨x, hitems, -, -⟩ := h.read i s (List.getElem?_eq_some_iff.1 hs).1 hs
    have hgiven := ((MergeStep.given_sublist_gone steps).filter (·.source = i)).map OpenSource.head
    exact ⟨_, hitems ▸ hgiven.trans (List.sublist_append_left _ _)⟩
  polled i s hs := by
    rw [h.polled i s (List.getElem?_eq_some_iff.1 hs).1 hs, MergeStep.polls, MergeStep.length_gone,
      ← Nat.add_assoc]
  openSources := h.openSources

end Merge

/-- A merge whose callbacks may give up is refused by one of them, or is opened; then its accounts
balance after any number of steps, whatever they come to. -/
theorem merge_accounts (order : Comparator α τ) (sources : List (Source α)) (t : τ) :
    Leaves
      (fun _ m₀ => ∀ n, ∃ steps m,
        attemptAll (List.replicate n (Merge.next (.ofCounted order))) m₀ =
          (steps.map MergeStep.reply, m) ∧
        Merge.Run order m₀ steps m ∧ Merge.Balance sources steps m)
      (fun e _ => Merge.Refuses order sources e)
      (Merge.openAll (.ofCounted order) sources.length
        (.ofWorld ((sources.map Counted.ofSource).toArray, t))) := by
  refine (Merge.ledger_openAll order sources t).elim (fun _ m₀ h₀ n => ?_) (fun _ _ he => he)
  obtain ⟨steps, m, hall, hrun⟩ := Merge.exists_run order n m₀
  exact ⟨steps, m, hall, hrun, (h₀.run hrun).balance⟩

end Streamkit
