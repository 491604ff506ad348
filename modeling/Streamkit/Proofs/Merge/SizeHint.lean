import Streamkit.Proofs.Merge.Accounting

/-!
# The size hint of a merge

The hint of a merge adds up the hints of its open sources, each with one item more for the head that
was read ahead. The sum depends on which sources are open and not on where the heap holds them:
`Merge.Ledger.sumsHints`. Over a run of steps the items that come of a source are its head and what
the source gives after it (`Merge.Ledger.sum_run`), so hints that are right about the sources make a
hint that is right about the merge, and exact hints an exact one: `merge_hints`.
-/

open Finset

namespace Streamkit

open Act

variable {α τ : Type}

/-! ## Sums of hints -/

/-- The bounds are sizes. -/
def Hint.Fits (h : Hint) : Prop := h.low ≤ maxSize ∧ ∀ n, h.high = some n → n ≤ maxSize

namespace Merge

theorem low_addHint (total rest : Hint) :
    (addHint total rest).low = min (total.low + rest.low + 1) maxSize := by
  simp only [addHint, saturatingAdd]
  omega

theorem high_addHint (total rest : Hint) :
    (addHint total rest).high =
      if total.high.isSome ∧ rest.high.isSome ∧
          total.high.getD 0 + rest.high.getD 0 + 1 ≤ maxSize then
        some (total.high.getD 0 + rest.high.getD 0 + 1)
      else none := by
  obtain ⟨low, high⟩ := total
  obtain ⟨low', high'⟩ := rest
  cases high with
  | none => rfl
  | some n =>
    cases high' with
    | none => rfl
    | some n' =>
      show (checkedAdd n n').bind (checkedAdd · 1) = _
      by_cases hsum : n + n' + 1 ≤ maxSize
      · have hfirst : n + n' ≤ maxSize := Nat.le_of_succ_le hsum
        simp only [checkedAdd, if_pos hfirst, Option.bind_some, if_pos hsum, Option.isSome_some,
          Option.getD_some, true_and]
      · rw [if_neg fun h => hsum h.2.2]
        by_cases hfirst : n + n' ≤ maxSize
        · simp only [checkedAdd, if_pos hfirst, Option.bind_some, if_neg hsum]
        · simp only [checkedAdd, if_neg hfirst, Option.bind_none]

theorem addHint_fits (total rest : Hint) : (addHint total rest).Fits := by
  refine ⟨low_addHint total rest ▸ Nat.min_le_right _ _, fun n hn => ?_⟩
  rw [high_addHint] at hn
  split at hn
  · next h =>
    obtain rfl := Option.some.inj hn
    exact h.2.2
  · cases hn

/-- The hints of the sources added up, one after the other. -/
def totalHint (hintOf : Nat → Hint) (sources : List Nat) : Hint :=
  sources.foldl (fun total i => addHint total (hintOf i)) (.exactly 0)

variable (hintOf : Nat → Hint)

theorem sizeHint_eq_totalHint {σ : Type} (m : Merge α σ) :
    m.sizeHint hintOf = totalHint hintOf (m.heap.toList.map OpenSource.source) := by
  rw [totalHint, List.foldl_map, sizeHint, Array.foldl_toList]

theorem totalHint_concat (sources : List Nat) (i : Nat) :
    totalHint hintOf (sources ++ [i]) = addHint (totalHint hintOf sources) (hintOf i) := by
  rw [totalHint, List.foldl_concat]
  rfl

theorem totalHint_fits (sources : List Nat) : (totalHint hintOf sources).Fits := by
  induction sources using List.reverseRecOn with
  | nil => exact ⟨Nat.zero_le _, fun n hn => Option.some.inj hn ▸ Nat.zero_le _⟩
  | append_singleton sources i => exact totalHint_concat hintOf sources i ▸ addHint_fits _ _

/-- Saturating at each addition comes to saturating once. -/
theorem low_totalHint (sources : List Nat) : (totalHint hintOf sources).low =
    min (sources.map fun i => (hintOf i).low + 1).sum maxSize := by
  induction sources using List.reverseRecOn with
  | nil => rfl
  | append_singleton sources i ih =>
    rw [totalHint_concat, low_addHint, ih, List.map_append, List.sum_append, List.map_singleton,
      List.sum_singleton]
    omega

/-- Checking at each addition comes to checking once. -/
theorem high_totalHint (sources : List Nat) : (totalHint hintOf sources).high =
    if (∀ i ∈ sources, (hintOf i).high.isSome) ∧
        (sources.map fun i => (hintOf i).high.getD 0 + 1).sum ≤ maxSize then
      some (sources.map fun i => (hintOf i).high.getD 0 + 1).sum
    else none := by
  induction sources using List.reverseRecOn with
  | nil => rfl
  | append_singleton sources i ih =>
    have hsum : ((sources ++ [i]).map fun i => (hintOf i).high.getD 0 + 1).sum =
        (sources.map fun i => (hintOf i).high.getD 0 + 1).sum + (hintOf i).high.getD 0 + 1 := by
      rw [List.map_append, List.sum_append, List.map_singleton, List.sum_singleton, Nat.add_assoc]
    have hknown : (∀ j ∈ sources ++ [i], (hintOf j).high.isSome) ↔
        (∀ j ∈ sources, (hintOf j).high.isSome) ∧ (hintOf i).high.isSome := by
      rw [List.forall_mem_append, List.forall_mem_singleton]
    rw [totalHint_concat, high_addHint, ih, hsum]
    by_cases hsources : (∀ j ∈ sources, (hintOf j).high.isSome) ∧
        (sources.map fun i => (hintOf i).high.getD 0 + 1).sum ≤ maxSize
    · have hlast := hknown.trans (and_iff_right hsources.1)
      rw [if_pos hsources]
      simp only [Option.isSome_some, Option.getD_some, true_and, hlast]
    · rw [if_neg hsources, if_neg (fun h => nomatch h.1), if_neg fun h => hsources ?_]
      have hle := h.2
      exact ⟨(hknown.1 h.1).1, by omega⟩

end Merge

/-! ## Items still to come of a source -/

namespace Counted

variable {c : Counted α} {n n' : Nat}

/-- The source ends within so many further polls. -/
def EndsIn (c : Counted α) (polls : Nat) : Prop :=
  ∃ k < polls, c.source.answer (c.polls + k) = .ok none

/-- The items among so many further answers, up to the end. -/
def itemsIn (c : Counted α) (polls : Nat) : List α := c.source.itemsFrom c.polls polls

/-- The source gives `n` more items before its end; faults are passed over. -/
def Remains (c : Counted α) (n : Nat) : Prop :=
  ∃ polls, c.EndsIn polls ∧ (c.itemsIn polls).length = n

/-- The source's hint bounds the number of items that it gives before its end. -/
structure HintSound (c : Counted α) : Prop where
  low_le : ∀ n, c.Remains n → c.hint.low ≤ n
  le_high : ∀ n, c.hint.high = some n → ∀ polls, (c.itemsIn polls).length ≤ n

/-- The source's hint is the number of items that it gives before its end. -/
def HintExact (c : Counted α) : Prop := ∃ n, c.Remains n ∧ c.hint = .exactly n

theorem Remains.length_le (h : c.Remains n) (polls : Nat) : (c.itemsIn polls).length ≤ n := by
  obtain ⟨p, hend, rfl⟩ := h
  have hprefix := Source.isPrefix_itemsFrom (s := c.source) (k := c.polls) (Nat.le_add_left polls p)
  rw [Source.itemsFrom_add_of_end c.polls polls hend] at hprefix
  exact hprefix.length_le

theorem Remains.unique (h : c.Remains n) (h' : c.Remains n') : n = n' := by
  obtain ⟨p, hend, rfl⟩ := h
  obtain ⟨p', hend', rfl⟩ := h'
  exact Nat.le_antisymm (Remains.length_le ⟨p', hend', rfl⟩ p) (Remains.length_le ⟨p, hend, rfl⟩ p')

theorem HintExact.sound (h : c.HintExact) : c.HintSound := by
  obtain ⟨n, hn, hhint⟩ := h
  refine ⟨fun n' hn' => ?_, fun n' hn' polls => ?_⟩
  · rw [hhint, hn.unique hn']
    exact Nat.le_refl _
  · rw [hhint] at hn'
    exact Option.some.inj hn' ▸ hn.length_le polls

/-- What remains after some polls, before the end, remained before them. -/
theorem Remains.of_later {source : Source α} {k polls : Nat}
    (h : (⟨source, k + polls⟩ : Counted α).Remains n)
    (hopen : ¬ (⟨source, k⟩ : Counted α).EndsIn polls) :
    (⟨source, k⟩ : Counted α).Remains ((source.itemsFrom k polls).length + n) := by
  obtain ⟨p, ⟨j, hj, hend⟩, rfl⟩ := h
  refine ⟨polls + p, ⟨polls + j, Nat.add_lt_add_left hj _, ?_⟩, ?_⟩
  · rwa [← Nat.add_assoc]
  · show (source.itemsFrom k (polls + p)).length = _
    rw [Source.itemsFrom_add_of_open k p fun i hi hend => hopen ⟨i, hi, hend⟩, List.length_append]
    rfl

end Counted

namespace Source

variable {s : Source α} {p q : Nat} {taken gone ahead ahead' : List α}

/-- Nothing more comes of a source that has ended. -/
theorem ReadTo.advance_of_closed (h : s.ReadTo p taken []) (hpq : p ≤ q)
    (h' : s.ReadTo q (taken ++ gone) ahead') : gone = [] ∧ ahead' = [] := by
  obtain ⟨x, hitems, hahead, hend⟩ := h
  obtain ⟨x', hitems', hahead', -⟩ := h'
  obtain rfl : x = none := by
    cases x with
    | none => rfl
    | some a => exact absurd hahead.length_eq (by simp)
  obtain ⟨k, hk, hstop⟩ := hend.1 rfl
  obtain ⟨more, rfl⟩ := Nat.exists_eq_add_of_le hpq
  rw [itemsFrom_add_of_end 0 more ⟨k, hk, by rwa [Nat.zero_add]⟩, hitems] at hitems'
  have hlength := congrArg List.length hitems'
  simp only [Option.toList_none, List.append_nil, List.length_append] at hlength
  refine ⟨List.eq_nil_of_length_eq_zero (by omega), List.eq_nil_of_length_eq_zero ?_⟩
  rw [hahead'.length_eq]
  omega

/-- What comes of a source after a head is what it has answered since. -/
theorem ReadTo.advance_of_open {a : α} (h : s.ReadTo p taken ahead) (ha : a ∈ ahead) (more : Nat)
    (h' : s.ReadTo (p + more) (taken ++ gone) ahead') :
    gone.length + ahead'.length = 1 + ((⟨s, p⟩ : Counted α).itemsIn more).length ∧
      (ahead' = [] ↔ (⟨s, p⟩ : Counted α).EndsIn more) := by
  obtain ⟨hopen, hitems, -⟩ := h.not_ended ha
  obtain ⟨x', hitems', hahead', hend'⟩ := h'
  have hbefore : ∀ j < p, s.answer (0 + j) ≠ .ok none := fun j hj hend =>
    hopen ⟨j, hj, by rwa [Nat.zero_add] at hend⟩
  rw [itemsFrom_add_of_open 0 more hbefore, hitems, Nat.zero_add] at hitems'
  have hlength := congrArg List.length hitems'
  simp only [List.length_append, List.length_singleton] at hlength
  refine ⟨?_, ?_⟩
  · rw [hahead'.length_eq]
    show _ = 1 + (s.itemsFrom p more).length
    omega
  · have hnil : ahead' = [] ↔ x' = none := by
      rw [← List.length_eq_zero_iff, hahead'.length_eq]
      cases x' <;> simp
    refine hnil.trans (hend'.trans ⟨fun ⟨k, hk, hend⟩ => ?_, fun ⟨k, hk, hend⟩ =>
      ⟨p + k, Nat.add_lt_add_left hk p, hend⟩⟩)
    have hle : p ≤ k := Nat.le_of_not_lt fun hlt => hopen ⟨k, hlt, hend⟩
    refine ⟨k - p, by omega, ?_⟩
    rwa [show (⟨s, p⟩ : Counted α).polls + (k - p) = k from Nat.add_sub_cancel' hle]

theorem itemsFrom_ofList (items : List α) (n : Nat) :
    ∀ k, (ofList items).itemsFrom k n = (items.drop k).take n := by
  induction n with
  | zero => exact fun _ => rfl
  | succ n ih =>
    intro k
    have hanswer : (ofList items).answer k = .ok items[k]? :=
      congrArg Except.ok List.getElem?_toArray
    rw [itemsFrom, hanswer]
    cases hk : items[k]? with
    | none =>
      rw [List.drop_eq_nil_of_le (List.getElem?_eq_none_iff.1 hk)]
      rfl
    | some a =>
      obtain ⟨hlt, rfl⟩ := List.getElem?_eq_some_iff.1 hk
      rw [List.drop_eq_getElem_cons hlt, List.take_succ_cons, ← ih]

/-- A list knows how much of it is left. -/
theorem hintExact_ofList (items : List α) (k : Nat) :
    (⟨.ofList items, k⟩ : Counted α).HintExact := by
  refine ⟨items.length - k, ⟨items.length + 1, ⟨items.length, Nat.lt_succ_self _, ?_⟩, ?_⟩, rfl⟩
  · show Except.ok items.toArray[k + items.length]? = _
    rw [List.getElem?_toArray, List.getElem?_eq_none (Nat.le_add_left _ _)]
  · show ((ofList items).itemsFrom k (items.length + 1)).length = _
    rw [itemsFrom_ofList, List.length_take, List.length_drop]
    omega

end Source

/-! ## The hint of a merge -/

namespace MergeStep

theorem polls_append (i : Nat) (steps more : List (MergeStep α)) :
    polls i (steps ++ more) =
      polls i steps + ((headsOf i (more.flatMap gone)).length + more.countP (stalls i)) := by
  rw [polls, polls, List.flatMap_append, headsOf_append, List.length_append, List.countP_append]
  omega

end MergeStep

namespace Merge

/-- The numbers of the open sources. -/
def openSet {σ : Type} (m : Merge α σ) : Finset Nat :=
  (m.heap.toList.map OpenSource.source).toFinset

/-- The hint of a source at its position. -/
def hintAt (m : Merge α (Array (Counted α) × τ)) (i : Nat) : Hint :=
  (m.world.1[i]?.map Counted.hint).getD (.exactly 0)

/-- The hint of a merge of counted sources. -/
def hint (m : Merge α (Array (Counted α) × τ)) : Hint := m.sizeHint m.hintAt

/-- The items that are pending, by the lower bounds of the open sources. -/
def pending (m : Merge α (Array (Counted α) × τ)) : Nat :=
  ∑ i ∈ m.openSet, ((m.hintAt i).low + 1)

/-- The open sources are such, at their positions. -/
def OpenAre (p : Counted α → Prop) (m : Merge α (Array (Counted α) × τ)) : Prop :=
  ∀ i ∈ m.openSet, ∀ c, m.world.1[i]? = some c → p c

/-- The hint is the sum of the hints of the open sources, in whatever order the heap holds them, and
nothing on the way to it is larger than a size. -/
structure SumsHints (m : Merge α (Array (Counted α) × τ)) : Prop where
  low : m.hint.low = min m.pending maxSize
  high : m.hint.high =
    if (∀ i ∈ m.openSet, (m.hintAt i).high.isSome) ∧
        ∑ i ∈ m.openSet, ((m.hintAt i).high.getD 0 + 1) ≤ maxSize then
      some (∑ i ∈ m.openSet, ((m.hintAt i).high.getD 0 + 1))
    else none
  perm : ∀ heap : Heap α, heap.toList.Perm m.heap.toList →
    sizeHint m.hintAt ⟨heap, m.world⟩ = m.hint
  fits : ∀ k, (sizeHint m.hintAt ⟨m.heap.take k, m.world⟩).Fits

variable {order : Comparator α τ} {sources : List (Source α)} {steps more : List (MergeStep α)}
  {m m' : Merge α (Array (Counted α) × τ)} {i : Nat}

theorem totalHint_perm (hintOf : Nat → Hint) {l l' : List Nat} (h : l.Perm l') :
    totalHint hintOf l = totalHint hintOf l' := by
  have hlow : (totalHint hintOf l).low = (totalHint hintOf l').low := by
    rw [low_totalHint, low_totalHint, (h.map _).sum_eq]
  have hhigh : (totalHint hintOf l).high = (totalHint hintOf l').high := by
    rw [high_totalHint, high_totalHint, (h.map _).sum_eq]
    simp only [h.mem_iff]
  show Hint.mk (totalHint hintOf l).low (totalHint hintOf l).high = _
  rw [hlow, hhigh]

theorem mem_openSet {σ : Type} {m : Merge α σ} :
    i ∈ m.openSet ↔ ∃ a, a ∈ headsOf i m.heap.toList := by
  simp only [openSet, List.mem_toFinset, headsOf, List.mem_map, List.mem_filter, decide_eq_true_eq]
  constructor
  · rintro ⟨a, ha, hi⟩
    exact ⟨a.head, a, ⟨ha, hi⟩, rfl⟩
  · rintro ⟨-, a, ⟨ha, hi⟩, -⟩
    exact ⟨a, ha, hi⟩

theorem headsOf_of_closed {σ : Type} {m : Merge α σ} (hi : i ∉ m.openSet) :
    headsOf i m.heap.toList = [] :=
  List.eq_nil_iff_forall_not_mem.2 fun a ha => hi (mem_openSet.2 ⟨a, ha⟩)

/-- The entries are those of the sources of a set that holds all of their sources. -/
theorem length_eq_sum_headsOf {entries : List (OpenSource α)} {s : Finset Nat}
    (h : ∀ i ∉ s, headsOf i entries = []) :
    entries.length = ∑ i ∈ s, (headsOf i entries).length := by
  have hmem : ∀ i ∈ (entries.map OpenSource.source : Multiset Nat), i ∈ s := by
    intro i hi
    by_contra hnot
    rw [Multiset.mem_coe, ← List.count_pos_iff, count_map_source, h i hnot] at hi
    exact Nat.lt_irrefl 0 hi
  have hcount := Multiset.sum_count_eq_card hmem
  simp only [Multiset.coe_count, Multiset.coe_card, List.length_map, count_map_source] at hcount
  exact hcount.symm

/-! ## What a state knows of its sources -/

theorem Ledger.exists_source (h : Ledger sources sources.length steps m) (hi : i ∈ m.openSet) :
    ∃ s, i < sources.length ∧ sources[i]? = some s := by
  obtain ⟨a, ha, rfl⟩ := List.mem_map.1 (List.mem_toFinset.1 hi)
  exact ⟨_, h.heap_lt a ha, List.getElem?_eq_getElem (h.heap_lt a ha)⟩

theorem Ledger.sumsHints (h : Ledger sources sources.length steps m) : SumsHints m where
  low := by
    rw [hint, sizeHint_eq_totalHint, low_totalHint, pending, openSet,
      List.sum_toFinset _ (h.nodup (Nat.le_refl _))]
  high := by
    rw [hint, sizeHint_eq_totalHint, high_totalHint, openSet,
      List.sum_toFinset _ (h.nodup (Nat.le_refl _))]
    simp only [List.mem_toFinset]
  perm heap hperm := by
    rw [hint, sizeHint_eq_totalHint, sizeHint_eq_totalHint]
    exact totalHint_perm _ (hperm.map _)
  fits k := by
    rw [sizeHint_eq_totalHint]
    exact totalHint_fits _ _

/-! ## What comes of the sources in a run -/

/-- Nothing comes of a source that is closed. -/
theorem Ledger.advance_of_closed (h : Ledger sources sources.length steps m)
    (h' : Ledger sources sources.length (steps ++ more) m') (hi : i ∉ m.openSet) :
    headsOf i (more.flatMap MergeStep.gone) = [] ∧ headsOf i m'.heap.toList = [] := by
  by_cases hlt : i < sources.length
  · have hs := List.getElem?_eq_getElem hlt
    have hread := h.read i _ hlt hs
    have hread' := h'.read i _ hlt hs
    rw [headsOf_of_closed hi] at hread
    rw [List.flatMap_append, headsOf_append] at hread'
    have hpolls := MergeStep.polls_append i steps more ▸ Nat.le_add_right _ _
    exact hread.advance_of_closed hpolls hread'
  · have hother : ∀ entries : List (OpenSource α), (∀ a ∈ entries, a.source < sources.length) →
        headsOf i entries = [] := fun entries hentries =>
      headsOf_of_ne fun a ha e => hlt (e ▸ hentries a ha)
    refine ⟨hother _ fun a ha => h'.gone_lt a ?_, hother _ h'.heap_lt⟩
    rw [List.flatMap_append]
    exact List.mem_append_right _ ha

/-- Of an open source come its head and then what it answers. -/
theorem Ledger.advance_of_open (h : Ledger sources sources.length steps m)
    (h' : Ledger sources sources.length (steps ++ more) m') (hi : i ∈ m.openSet) :
    ∃ c polls, m.world.1[i]? = some c ∧
      m'.world.1[i]? = some ⟨c.source, c.polls + polls⟩ ∧
      (headsOf i (more.flatMap MergeStep.gone)).length + (headsOf i m'.heap.toList).length =
        1 + (c.itemsIn polls).length ∧
      (i ∉ m'.openSet ↔ c.EndsIn polls) := by
  obtain ⟨s, hlt, hs⟩ := h.exists_source hi
  obtain ⟨a, ha⟩ := mem_openSet.1 hi
  have hread' := h'.read i s hlt hs
  have hpolled' := h'.polled i s hlt hs
  rw [MergeStep.polls_append] at hread' hpolled'
  rw [List.flatMap_append, headsOf_append] at hread'
  obtain ⟨hlength, hend⟩ := (h.read i s hlt hs).advance_of_open ha _ hread'
  have hclosed : i ∉ m'.openSet ↔ headsOf i m'.heap.toList = [] :=
    ⟨headsOf_of_closed, fun hnil hmem => by
      obtain ⟨b, hb⟩ := mem_openSet.1 hmem
      rw [hnil] at hb
      cases hb⟩
  exact ⟨_, _, h.polled i s hlt hs, hpolled', hlength, hclosed.trans hend⟩

/-- The heads that are gone in a run and those that are ahead after it are of the sources that were
open before it. -/
theorem Ledger.sum_run (h : Ledger sources sources.length steps m)
    (h' : Ledger sources sources.length (steps ++ more) m') :
    (more.flatMap MergeStep.gone).length + m'.openSources = ∑ i ∈ m.openSet,
      ((headsOf i (more.flatMap MergeStep.gone)).length + (headsOf i m'.heap.toList).length) := by
  rw [Finset.sum_add_distrib, Merge.openSources, ← Array.length_toList,
    ← length_eq_sum_headsOf fun i hi => (h.advance_of_closed h' hi).1,
    ← length_eq_sum_headsOf fun i hi => (h.advance_of_closed h' hi).2]

/-- What is true of the sources at all positions is true of those that are open. -/
theorem Ledger.openAre {p : Counted α → Prop} (h : Ledger sources sources.length steps m)
    (hp : ∀ s ∈ sources, ∀ k, p ⟨s, k⟩) : m.OpenAre p := by
  intro i hi c hc
  obtain ⟨s, hlt, hs⟩ := h.exists_source hi
  obtain rfl := Option.some.inj ((h.polled i s hlt hs).symm.trans hc)
  exact hp s (List.mem_of_getElem? hs) _

theorem hintAt_eq {c : Counted α} (hc : m.world.1[i]? = some c) : m.hintAt i = c.hint := by
  rw [hintAt, hc]
  rfl

/-- No more heads come than an upper bound allows. -/
theorem Ledger.le_high (h : Ledger sources sources.length steps m)
    (h' : Ledger sources sources.length (steps ++ more) m')
    (hsound : m.OpenAre Counted.HintSound) {n : Nat} (hn : m.hint.high = some n) :
    (more.flatMap MergeStep.gone).length + m'.openSources ≤ n := by
  rw [h.sumsHints.high] at hn
  split at hn
  · next hknown =>
    obtain rfl := Option.some.inj hn
    rw [h.sum_run h']
    refine Finset.sum_le_sum fun i hi => ?_
    obtain ⟨c, polls, hc, -, hlength, -⟩ := h.advance_of_open h' hi
    obtain ⟨high, hhigh⟩ := Option.isSome_iff_exists.1 (hknown.1 i hi)
    have hle := (hsound i hi c hc).le_high high (hintAt_eq hc ▸ hhigh) polls
    rw [hlength, hhigh, Option.getD_some, Nat.add_comm]
    exact Nat.succ_le_succ hle
  · cases hn

/-- A run to the end has no fewer heads than a lower bound says. -/
theorem Ledger.low_le (h : Ledger sources sources.length steps m)
    (h' : Ledger sources sources.length (steps ++ more) m')
    (hsound : m.OpenAre Counted.HintSound) (hend : m'.openSources = 0) :
    m.hint.low ≤ (more.flatMap MergeStep.gone).length := by
  have hnil : m'.openSet = ∅ := by
    rw [openSet, Array.toList_eq_nil_iff.2 (Array.eq_empty_of_size_eq_zero hend)]
    rfl
  rw [h.sumsHints.low, ← Nat.add_zero (List.length _), ← hend, h.sum_run h']
  refine (Nat.min_le_left _ _).trans (Finset.sum_le_sum fun i hi => ?_)
  obtain ⟨c, polls, hc, -, hlength, hclosed⟩ := h.advance_of_open h' hi
  have hends : c.EndsIn polls := hclosed.1 (hnil ▸ Finset.notMem_empty i)
  have hle := (hsound i hi c hc).low_le _ ⟨polls, hends, rfl⟩
  rw [hlength, hintAt_eq hc, Nat.add_comm]
  exact Nat.add_le_add_left hle 1

/-! ## Exact hints -/

theorem Ledger.hint_of_exact (h : Ledger sources sources.length steps m)
    (hexact : m.OpenAre Counted.HintExact) (hle : m.pending ≤ maxSize) :
    m.hint = .exactly m.pending := by
  have hhigh : ∀ i ∈ m.openSet, (m.hintAt i).high = some (m.hintAt i).low := by
    intro i hi
    obtain ⟨s, hlt, hs⟩ := h.exists_source hi
    have hc := h.polled i s hlt hs
    obtain ⟨n, -, hn⟩ := hexact i hi _ hc
    rw [hintAt_eq hc, hn]
    rfl
  have hsum : ∑ i ∈ m.openSet, ((m.hintAt i).high.getD 0 + 1) = m.pending :=
    Finset.sum_congr rfl fun i hi => by rw [hhigh i hi, Option.getD_some]
  have hknown : ∀ i ∈ m.openSet, (m.hintAt i).high.isSome := fun i hi => by
    rw [hhigh i hi, Option.isSome_some]
  have hlow : m.hint.low = m.pending := h.sumsHints.low.trans (Nat.min_eq_left hle)
  have hsome : m.hint.high = some m.pending := by
    rw [h.sumsHints.high, hsum, if_pos ⟨hknown, hle⟩]
  show Hint.mk m.hint.low m.hint.high = _
  rw [hlow, hsome]
  rfl

/-- A head of an open source is ahead. -/
theorem Ledger.length_headsOf (h : Ledger sources sources.length steps m) (hi : i ∈ m.openSet) :
    (headsOf i m.heap.toList).length = 1 := by
  obtain ⟨s, hlt, hs⟩ := h.exists_source hi
  obtain ⟨a, ha⟩ := mem_openSet.1 hi
  rw [((h.read i s hlt hs).not_ended ha).2.2, List.length_singleton]

/-- A source that stays open is open before. -/
theorem Ledger.openSet_subset (h : Ledger sources sources.length steps m)
    (h' : Ledger sources sources.length (steps ++ more) m') : m'.openSet ⊆ m.openSet := by
  intro i hi
  by_contra hclosed
  have hlength := h'.length_headsOf hi
  rw [(h.advance_of_closed h' hclosed).2] at hlength
  exact nomatch hlength

/-- What an open source has pending is what comes of it and what it has pending then. -/
theorem Ledger.pending_of_open (h : Ledger sources sources.length steps m)
    (h' : Ledger sources sources.length (steps ++ more) m')
    (hexact : m.OpenAre Counted.HintExact) (hexact' : m'.OpenAre Counted.HintExact)
    (hi : i ∈ m.openSet) :
    (m.hintAt i).low + 1 = (headsOf i (more.flatMap MergeStep.gone)).length +
      if i ∈ m'.openSet then (m'.hintAt i).low + 1 else 0 := by
  obtain ⟨c, polls, hc, hc', hlength, hclosed⟩ := h.advance_of_open h' hi
  obtain ⟨n, hremains, hhint⟩ := hexact i hi c hc
  have hlow : (m.hintAt i).low = n := by rw [hintAt_eq hc, hhint]; rfl
  rw [hlow]
  by_cases hi' : i ∈ m'.openSet
  · obtain ⟨n', hremains', hhint'⟩ := hexact' i hi' _ hc'
    have hlow' : (m'.hintAt i).low = n' := by rw [hintAt_eq hc', hhint']; rfl
    have hopen : ¬ c.EndsIn polls := fun hend => hclosed.2 hend hi'
    have htotal : n = (c.itemsIn polls).length + n' :=
      hremains.unique (hremains'.of_later hopen)
    rw [h'.length_headsOf hi'] at hlength
    rw [if_pos hi', hlow']
    omega
  · have htotal : n = (c.itemsIn polls).length := hremains.unique ⟨polls, hclosed.1 hi', rfl⟩
    rw [headsOf_of_closed hi', List.length_nil] at hlength
    rw [if_neg hi']
    omega

/-- Exact hints count the heads that come down. -/
theorem Ledger.pending_run (h : Ledger sources sources.length steps m)
    (h' : Ledger sources sources.length (steps ++ more) m')
    (hexact : m.OpenAre Counted.HintExact) (hexact' : m'.OpenAre Counted.HintExact) :
    m.pending = (more.flatMap MergeStep.gone).length + m'.pending := by
  have hlater : m'.pending =
      ∑ i ∈ m.openSet, if i ∈ m'.openSet then (m'.hintAt i).low + 1 else 0 := by
    rw [Finset.sum_ite_mem, Finset.inter_eq_right.2 (h.openSet_subset h'), pending]
  rw [length_eq_sum_headsOf fun i hi => (h.advance_of_closed h' hi).1, hlater,
    ← Finset.sum_add_distrib, pending]
  exact Finset.sum_congr rfl fun i hi => h.pending_of_open h' hexact hexact' hi

/-! ## What a run gives -/

/-- With no open source there is nothing more to come. -/
theorem Run.of_ended (hrun : Run order m more m') (hnil : m.heap = #[]) : m' = m := by
  induction hrun with
  | nil => rfl
  | @cons m m₁ m' step _ _ hcomes _ ih =>
    have hroot : ∀ {root}, m.heap[0]? ≠ some root := fun h => by
      rw [hnil] at h
      exact nomatch h
    cases step with
    | gave root => exact absurd hcomes.1 hroot
    | lost root e => exact absurd hcomes.2.1.1 hroot
    | stalled root e => exact absurd hcomes.1 hroot
    | ended =>
      obtain ⟨-, rfl⟩ := hcomes
      exact ih hnil

/-- A call that is answered gives a head, unless the merge is at its end. -/
theorem Run.length_given (hrun : Run order m more m')
    (hok : ∀ e, .error e ∉ more.map MergeStep.reply) :
    (more.flatMap MergeStep.given).length ≤ more.length ∧
      ((more.flatMap MergeStep.given).length < more.length → m'.openSources = 0) := by
  induction hrun with
  | nil => exact ⟨Nat.le_refl 0, fun h => absurd h (Nat.lt_irrefl 0)⟩
  | @cons m m₁ m' step more _ hcomes hrun ih =>
    simp only [List.map_cons, List.mem_cons, not_or] at hok
    obtain ⟨hle, hend⟩ := ih fun e => (hok e).2
    rw [List.flatMap_cons, List.length_append, List.length_cons]
    cases step with
    | gave root =>
      simp only [MergeStep.given, List.length_singleton]
      exact ⟨by omega, fun hlt => hend (by omega)⟩
    | lost root e => exact absurd rfl (hok e).1
    | stalled root e => exact absurd rfl (hok e).1
    | ended =>
      obtain ⟨hnil, rfl⟩ := hcomes
      simp only [MergeStep.given, List.length_nil]
      refine ⟨by omega, fun _ => ?_⟩
      rw [hrun.of_ended hnil, openSources, hnil]
      rfl

/-- Heads are lost only when the caller is told of a fault of the comparator. -/
theorem Run.gone_eq_given (hrun : Run order m more m')
    (horder : ∀ e, order.Raises e → .error e ∉ more.map MergeStep.reply) :
    more.flatMap MergeStep.gone = more.flatMap MergeStep.given := by
  induction hrun with
  | nil => rfl
  | @cons m m₁ m' step more _ hcomes _ ih =>
    rw [List.flatMap_cons, List.flatMap_cons, ih fun e he hmem => horder e he (.tail _ hmem)]
    cases step with
    | lost root e => exact absurd List.mem_cons_self (horder e hcomes.1)
    | gave | stalled | ended => rfl

/-- The hint of a merge bounds what comes of a run, the heads that the comparator loses included. -/
structure HintBounds (m : Merge α (Array (Counted α) × τ)) (more : List (MergeStep α))
    (m' : Merge α (Array (Counted α) × τ)) : Prop where
  le_high : ∀ n, m.hint.high = some n → (more.flatMap MergeStep.gone).length ≤ n
  low_le : m'.openSources = 0 → m.hint.low ≤ (more.flatMap MergeStep.gone).length

/-- The hint of a merge is the number of heads to come, and a run counts it down. -/
structure HintCounts (m : Merge α (Array (Counted α) × τ)) (more : List (MergeStep α))
    (m' : Merge α (Array (Counted α) × τ)) : Prop where
  hint_eq : m.hint = .exactly m.pending
  gone_le : (more.flatMap MergeStep.gone).length ≤ m.pending
  drained : m'.openSources = 0 ↔ (more.flatMap MergeStep.gone).length = m.pending
  hint_later : m'.OpenAre Counted.HintExact →
    m'.hint = .exactly (m.pending - (more.flatMap MergeStep.gone).length)
  given_eq : (∀ e, .error e ∉ more.map MergeStep.reply) →
    (more.flatMap MergeStep.given).length = min more.length m.pending

theorem Ledger.hintBounds (h : Ledger sources sources.length steps m)
    (h' : Ledger sources sources.length (steps ++ more) m')
    (hsound : m.OpenAre Counted.HintSound) : HintBounds m more m' where
  le_high _ hn := Nat.le_of_add_right_le (h.le_high h' hsound hn)
  low_le := h.low_le h' hsound

theorem Ledger.hintCounts (h : Ledger sources sources.length steps m) (hrun : Run order m more m')
    (hexact : m.OpenAre Counted.HintExact) (hle : m.pending ≤ maxSize) : HintCounts m more m' := by
  have h' := h.run hrun
  have hsound : m.OpenAre Counted.HintSound := fun i hi c hc => (hexact i hi c hc).sound
  have hhint := h.hint_of_exact hexact hle
  have hcome : (more.flatMap MergeStep.gone).length + m'.openSources ≤ m.pending :=
    h.le_high h' hsound (congrArg Hint.high hhint)
  have hlow : m'.openSources = 0 → m.pending ≤ (more.flatMap MergeStep.gone).length :=
    fun hend => (congrArg Hint.low hhint).symm.le.trans (h.low_le h' hsound hend)
  refine ⟨hhint, by omega, by omega, fun hexact' => ?_, fun hok => ?_⟩
  · have hpending := h.pending_run h' hexact hexact'
    rw [hpending, Nat.add_sub_cancel_left]
    exact h'.hint_of_exact hexact' (by omega)
  · obtain ⟨hlength, hend⟩ := hrun.length_given hok
    rw [hrun.gone_eq_given fun e _ => hok e] at hcome hlow
    omega

end Merge

/-- Whatever has happened to a merge, its hint is the sum of the hints of its open sources; and if
these are sound or exact, so is the hint for whatever happens then. -/
theorem merge_hints (order : Comparator α τ) (sources : List (Source α)) (t : τ) :
    Leaves
      (fun _ m₀ => ∀ n,
        let m := (attemptAll (List.replicate n (Merge.next (.ofCounted order))) m₀).2
        Merge.SumsHints m ∧
        ∀ n', ∃ more m',
          attemptAll (List.replicate n' (Merge.next (.ofCounted order))) m =
            (more.map MergeStep.reply, m') ∧
          Merge.Run order m more m' ∧
          (m.OpenAre Counted.HintSound → Merge.HintBounds m more m') ∧
          (m.OpenAre Counted.HintExact → m.pending ≤ maxSize → Merge.HintCounts m more m') ∧
          ((∀ e, order.Raises e → .error e ∉ more.map MergeStep.reply) →
            more.flatMap MergeStep.gone = more.flatMap MergeStep.given))
      (fun e _ => Merge.Refuses order sources e)
      (Merge.openAll (.ofCounted order) sources.length
        (.ofWorld ((sources.map Counted.ofSource).toArray, t))) := by
  refine (Merge.ledger_openAll order sources t).elim (fun _ m₀ h₀ n => ?_) (fun _ _ he => he)
  obtain ⟨steps, m, hall, hrun⟩ := Merge.exists_run order n m₀
  have h := h₀.run hrun
  rw [List.nil_append] at h
  rw [hall]
  refine ⟨h.sumsHints, fun n' => ?_⟩
  obtain ⟨more, m', hall', hrun'⟩ := Merge.exists_run order n' m
  exact ⟨more, m', hall', hrun', h.hintBounds (h.run hrun'), h.hintCounts hrun',
    hrun'.gone_eq_given⟩

theorem merge_hints_of_lists :
    let sources := [Source.ofList [1, 2, 3], .ofList [4, 5]]
    ∃ m, Merge.openAll (.ofCounted byTurns) 2
        (.ofWorld ((sources.map Counted.ofSource).toArray, 0)) = .ok () m ∧
      m.hint = .exactly 5 ∧ ∀ n, ∃ (more : List (MergeStep Nat)) (m' : Merge Nat _),
        attemptAll (List.replicate n (Merge.next (.ofCounted byTurns))) m =
          (more.map MergeStep.reply, m') ∧
        m'.hint = .exactly (5 - (more.flatMap MergeStep.given).length) := by
  intro sources
  have hexact : ∀ s ∈ sources, ∀ k, (⟨s, k⟩ : Counted Nat).HintExact := by
    intro s hs
    simp only [sources, List.mem_cons, List.not_mem_nil, or_false] at hs
    rcases hs with rfl | rfl <;> exact Source.hintExact_ofList _
  obtain ⟨m, hopen, hhint⟩ : ∃ m, Merge.openAll (.ofCounted byTurns) 2
      (.ofWorld ((sources.map Counted.ofSource).toArray, 0)) = .ok () m ∧
      m.hint = .exactly 5 := by
    refine ⟨⟨#[⟨1, 0⟩, ⟨4, 1⟩], #[⟨.ofList [1, 2, 3], 1⟩, ⟨.ofList [4, 5], 1⟩], 1⟩, ?_, ?_⟩
    · with_unfolding_all rfl
    · rfl
  have hledger : Leaves (fun _ => Merge.Ledger sources 2 []) _ (Merge.openAll _ 2 _) :=
    Merge.ledger_openAll byTurns sources 0
  have hhints : Leaves _ _ (Merge.openAll _ 2 _) := merge_hints byTurns sources 0
  rw [hopen] at hledger hhints
  refine ⟨m, hopen, hhint, fun n => ?_⟩
  obtain ⟨hsums, hruns⟩ := hhints 0
  obtain ⟨more, m', hall, hrun, -, hcounts, hgiven⟩ := hruns n
  have hlow : 5 = min m.pending maxSize := (congrArg Hint.low hhint).symm.trans hsums.low
  have hpending : m.pending = 5 := by
    rw [maxSize] at hlow
    omega
  have hcount := hcounts (hledger.openAre hexact) (hpending ▸ by decide)
  refine ⟨more, m', hall, ?_⟩
  rw [← hpending, ← hgiven fun e ⟨_, _, _, _, h⟩ => nomatch h]
  exact hcount.hint_later ((hledger.run hrun).openAre hexact)

end Streamkit
