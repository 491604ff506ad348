import Mathlib.Data.List.Forall2
import Mathlib.Data.List.Nodup
import Streamkit.Proofs.Merge.Scan
import Streamkit.Proofs.Sequences
import Streamkit.Proofs.Value.Order
import Streamkit.Value.Ranking

/-!
# Merging sorted sources

When every source gives its items in ascending order, a merge gives all of them in ascending order,
and items that compare as equal in the order of their sources and of their positions there. Such an
order is unique (`Placed.eq_of_stable`), so the merge gives the stable sort of the items put
together: `merge_gives_stable_sort`. The proof drains the linear scan; what its open sources still
owe is `ScanMerge.Owes`, and every step gives the first item that is owed.
-/

open Std

namespace Streamkit

variable {α σ τ : Type} {cmp : α → α → Ordering}

/-- An item with the number of its source and its position there. -/
structure Placed (α : Type) where
  item : α
  source : Nat
  index : Nat

namespace Placed

/-- The one item comes from an earlier place. -/
def Earlier (p q : Placed α) : Prop :=
  p.source < q.source ∨ p.source = q.source ∧ p.index < q.index

/-- The one item is smaller, or the two compare as equal and it comes from an earlier place. -/
def Before (cmp : α → α → Ordering) (p q : Placed α) : Prop :=
  cmp p.item q.item = .lt ∨ cmp p.item q.item = .eq ∧ p.Earlier q

/-- The items of one source, from a position on. -/
def ofItems (source index : Nat) : List α → List (Placed α)
  | [] => []
  | a :: items => ⟨a, source, index⟩ :: ofItems source (index + 1) items

/-- The items of all sources, from a number on. -/
def ofLists (source : Nat) : List (List α) → List (Placed α)
  | [] => []
  | items :: lists => ofItems source 0 items ++ ofLists (source + 1) lists

theorem not_earlier {p q : Placed α} (h : p.Earlier q) : ¬q.Earlier p := by
  unfold Earlier at *
  omega

theorem Before.isLE {p q : Placed α} (h : p.Before cmp q) : (cmp p.item q.item).isLE := by
  rcases h with h | ⟨h, -⟩ <;> rw [h] <;> rfl

theorem Before.asymm [OrientedCmp cmp] {p q : Placed α} (h : p.Before cmp q) :
    ¬q.Before cmp p := by
  rintro (h' | ⟨h', hqp⟩)
  · have hgt := OrientedCmp.gt_of_lt h'
    rcases h with h | ⟨h, -⟩ <;> rw [h] at hgt <;> cases hgt
  · rcases h with h | ⟨-, hpq⟩
    · rw [OrientedCmp.eq_comm] at h'
      rw [h'] at h
      cases h
    · exact not_earlier hpq hqp

/-! ## Places -/

theorem map_item_ofItems (source index : Nat) (items : List α) :
    (ofItems source index items).map item = items := by
  induction items generalizing index with
  | nil => rfl
  | cons a items ih => simp [ofItems, ih]

theorem map_item_ofLists (source : Nat) (lists : List (List α)) :
    (ofLists source lists).map item = lists.flatten := by
  induction lists generalizing source with
  | nil => rfl
  | cons items lists ih => simp [ofLists, ih, map_item_ofItems]

theorem of_mem_ofItems {source index : Nat} {items : List α} {p : Placed α}
    (hp : p ∈ ofItems source index items) :
    p.source = source ∧ index ≤ p.index ∧ p.item ∈ items := by
  induction items generalizing index with
  | nil => simp [ofItems] at hp
  | cons a items ih =>
    rcases List.mem_cons.1 hp with rfl | hp
    · simp
    · obtain ⟨hsource, hindex, hitem⟩ := ih hp
      exact ⟨hsource, by omega, List.mem_cons_of_mem _ hitem⟩

theorem source_le_of_mem_ofLists {source : Nat} {lists : List (List α)} {p : Placed α}
    (hp : p ∈ ofLists source lists) : source ≤ p.source := by
  induction lists generalizing source with
  | nil => simp [ofLists] at hp
  | cons items lists ih =>
    rcases List.mem_append.1 hp with hp | hp
    · exact Nat.le_of_eq (of_mem_ofItems hp).1.symm
    · have hle := ih hp
      omega

theorem pairwise_earlier_ofItems (source index : Nat) (items : List α) :
    (ofItems source index items).Pairwise Earlier := by
  induction items generalizing index with
  | nil => exact .nil
  | cons a items ih =>
    refine List.pairwise_cons.2 ⟨fun p hp => ?_, ih _⟩
    obtain ⟨hsource, hindex, -⟩ := of_mem_ofItems hp
    exact .inr ⟨hsource.symm, hindex⟩

theorem pairwise_earlier_ofLists (source : Nat) (lists : List (List α)) :
    (ofLists source lists).Pairwise Earlier := by
  induction lists generalizing source with
  | nil => exact .nil
  | cons items lists ih =>
    refine List.pairwise_append.2 ⟨pairwise_earlier_ofItems _ _ _, ih _, fun p hp q hq => ?_⟩
    have hpsource := (of_mem_ofItems hp).1
    have hqsource := source_le_of_mem_ofLists hq
    exact .inl (by omega)

/-! ## The stable order -/

variable [TransCmp cmp]

/-- Stable orders of the same items are the same. -/
theorem eq_of_stable {ps qs : List (Placed α)} (hperm : ps.Perm qs)
    (hps : ps.Pairwise (Before cmp)) (hqs : qs.Pairwise (Before cmp)) : ps = qs :=
  hperm.eq_of_pairwise (fun _ _ _ _ hpq hqp => absurd hqp hpq.asymm) hps hqs

omit [TransCmp cmp] in
theorem sublist_or_sublist {ps : List (Placed α)} {p q : Placed α} (hp : p ∈ ps) (hq : q ∈ ps)
    (hne : p ≠ q) : [p, q].Sublist ps ∨ [q, p].Sublist ps := by
  induction ps with
  | nil => cases hp
  | cons r ps ih =>
    rcases List.mem_cons.1 hp with rfl | hp'
    · have hq' := (List.mem_cons.1 hq).resolve_left hne.symm
      exact .inl ((List.singleton_sublist.2 hq').cons_cons p)
    · rcases List.mem_cons.1 hq with rfl | hq'
      · exact .inr ((List.singleton_sublist.2 hp').cons_cons q)
      · exact (ih hp' hq').imp (.cons r) (.cons r)

omit [TransCmp cmp] in
theorem not_sublist_swap {ps : List (Placed α)} (hps : ps.Nodup) {p q : Placed α}
    (h : [p, q].Sublist ps) : ¬[q, p].Sublist ps := by
  induction hps with
  | nil => cases h
  | @cons r ps hr _ ih =>
    intro h'
    cases h with
    | cons _ h =>
      cases h' with
      | cons _ h' => exact ih h h'
      | cons_cons _ h' => exact hr q (h.subset (by simp)) rfl
    | cons_cons _ h =>
      cases h' with
      | cons _ h' => exact hr p (h'.subset (by simp)) rfl
      | cons_cons _ h' => exact hr p (h.subset (by simp)) rfl

/-- Sorting keeps the places of items that compare as equal in order. -/
theorem pairwise_before_mergeSort {ps : List (Placed α)} (hps : ps.Pairwise Earlier) :
    (ps.mergeSort fun p q => (cmp p.item q.item).isLE).Pairwise (Before cmp) := by
  have htrans : ∀ p q r : Placed α,
      (cmp p.item q.item).isLE → (cmp q.item r.item).isLE → (cmp p.item r.item).isLE :=
    fun p q r => TransCmp.isLE_trans
  have htotal : ∀ p q : Placed α, (cmp p.item q.item).isLE || (cmp q.item p.item).isLE := by
    intro p q
    have hswap : cmp q.item p.item = (cmp p.item q.item).swap := OrientedCmp.eq_swap
    rw [hswap]
    cases cmp p.item q.item <;> rfl
  have hnodup : ps.Nodup := hps.imp fun h e => by
    subst e
    exact not_earlier h h
  have hperm := List.mergeSort_perm ps fun p q => (cmp p.item q.item).isLE
  refine List.pairwise_iff_forall_sublist.2 fun {p q} hpq => ?_
  have hp : p ∈ ps := hperm.mem_iff.1 (hpq.subset (by simp))
  have hq : q ∈ ps := hperm.mem_iff.1 (hpq.subset (by simp))
  have hle := List.pairwise_iff_forall_sublist.1 (List.pairwise_mergeSort htrans htotal ps) hpq
  have hne : p ≠ q := List.pairwise_iff_forall_sublist.1 (hperm.nodup_iff.2 hnodup) hpq
  cases hc : cmp p.item q.item with
  | lt => exact .inl hc
  | gt =>
    rw [hc] at hle
    cases hle
  | eq =>
    refine .inr ⟨hc, ?_⟩
    rcases sublist_or_sublist hp hq hne with h | h
    · exact List.pairwise_iff_forall_sublist.1 hps h
    -- sorting would have kept the two in this order
    · have hge : (cmp q.item p.item).isLE := by rw [OrientedCmp.eq_comm.1 hc]; rfl
      have hqp := List.pair_sublist_mergeSort htrans htotal hge h
      exact absurd hqp (not_sublist_swap (hperm.nodup_iff.2 hnodup) hpq)

end Placed

/-! ## Sources that give items -/

namespace Counted

theorem pollAt_of_gives {w : Array (Counted α)} {i : Nat} {c : Counted α} (hc : w[i]? = some c)
    {items : List α} (h : c.Gives items) :
    pollAt i w = .ok items.head? (w.modify i fun c => { c with polls := c.polls + 1 }) := by
  have hanswer := h 0 (Nat.zero_le _)
  rw [Nat.add_zero, ← List.head?_eq_getElem?] at hanswer
  rw [pollAt_eq hc, hanswer]
  rfl

end Counted

/-! ## What the open sources owe -/

/-- An open source that owes its head and the items after it. -/
structure Queue (α : Type) where
  source : Nat
  index : Nat
  head : α
  rest : List α

namespace Queue

/-- The open source. -/
def opened (q : Queue α) : OpenSource α := ⟨q.head, q.source⟩

/-- The items that are owed. -/
def placed (q : Queue α) : List (Placed α) :=
  Placed.ofItems q.source q.index (q.head :: q.rest)

/-- The items are in ascending order, and the source gives those after the head. -/
structure Held (cmp : α → α → Ordering) (w : Array (Counted α)) (q : Queue α) : Prop where
  ascending : (q.head :: q.rest).Pairwise fun a b => (cmp a b).isLE
  pending : ∃ c, w[q.source]? = some c ∧ c.Gives q.rest

theorem Held.modify {w : Array (Counted α)} {q : Queue α} (h : q.Held cmp w) {i : Nat}
    (hi : i ≠ q.source) (f : Counted α → Counted α) : q.Held cmp (w.modify i f) where
  ascending := h.ascending
  pending := by
    obtain ⟨c, hc, hgives⟩ := h.pending
    exact ⟨c, by rw [Array.getElem?_modify, if_neg hi, hc], hgives⟩

variable [TransCmp cmp]

/-- The head of the queue that comes first is before all other items. -/
theorem before_of_compareBy {q r : Queue α} {w : Array (Counted α)} (hr : r.Held cmp w)
    (h : q.opened.compareBy cmp r.opened = .lt) {p : Placed α} (hp : p ∈ r.placed) :
    Placed.Before cmp ⟨q.head, q.source, q.index⟩ p := by
  obtain ⟨hsource, -, hitem⟩ := Placed.of_mem_ofItems hp
  have hhead : (cmp r.head p.item).isLE := by
    rcases List.mem_cons.1 hitem with hitem | hitem
    · rw [hitem]
      exact ReflCmp.isLE_rfl
    · exact (List.pairwise_cons.1 hr.ascending).1 _ hitem
  simp only [OpenSource.compareBy, compareLex, opened, Ordering.then_eq_lt] at h
  rcases h with hlt | ⟨heq, hlt⟩
  · exact .inl (TransCmp.lt_of_lt_of_isLE hlt hhead)
  · have hle : (cmp q.head p.item).isLE := TransCmp.isLE_trans (Ordering.isLE_of_eq_eq heq) hhead
    have hearlier : q.source < p.source := by
      rw [hsource]
      exact Nat.compare_eq_lt.1 hlt
    rcases Ordering.isLE_iff_eq_lt_or_eq_eq.1 hle with hlt | heq
    · exact .inl hlt
    · exact .inr ⟨heq, .inl hearlier⟩

omit [TransCmp cmp] in
theorem before_rest {q : Queue α} {w : Array (Counted α)} (hq : q.Held cmp w) {p : Placed α}
    (hp : p ∈ Placed.ofItems q.source (q.index + 1) q.rest) :
    Placed.Before cmp ⟨q.head, q.source, q.index⟩ p := by
  obtain ⟨hsource, hindex, hitem⟩ := Placed.of_mem_ofItems hp
  have hle := (List.pairwise_cons.1 hq.ascending).1 _ hitem
  rcases Ordering.isLE_iff_eq_lt_or_eq_eq.1 hle with hlt | heq
  · exact .inl hlt
  · exact .inr ⟨heq, .inr ⟨hsource.symm, hindex⟩⟩

end Queue

namespace ScanMerge

/-- The open sources are those of the queues, and owe what the queues hold. -/
structure Owes (cmp : α → α → Ordering) (l : ScanMerge α (Array (Counted α)))
    (queues : List (Queue α)) : Prop where
  opened : l.sources.Perm (queues.map Queue.opened)
  distinct : (l.sources.map OpenSource.source).Nodup
  held : ∀ q ∈ queues, q.Held cmp l.world

theorem Owes.perm {l : ScanMerge α (Array (Counted α))} {queues queues' : List (Queue α)}
    (h : Owes cmp l queues) (hperm : queues.Perm queues') : Owes cmp l queues' where
  opened := h.opened.trans (hperm.map _)
  distinct := h.distinct
  held q hq := h.held q (hperm.mem_iff.2 hq)

section Next

variable {l : ScanMerge α (Array (Counted α))} {q : Queue α} {queues : List (Queue α)}

theorem Owes.source_notMem (h : Owes cmp l (q :: queues)) :
    q.source ∉ (queues.map Queue.opened).map OpenSource.source := by
  have hnodup := (h.opened.map OpenSource.source).nodup_iff.1 h.distinct
  rw [List.map_cons, List.map_cons, List.nodup_cons] at hnodup
  exact hnodup.1

theorem Owes.source_ne (h : Owes cmp l (q :: queues)) {r : Queue α} (hr : r ∈ queues) :
    q.source ≠ r.source := fun e => h.source_notMem <| by
  rw [e]
  exact List.mem_map_of_mem (List.mem_map_of_mem hr)

/-- A step gives the head of the queue that comes first, and leaves what was owed after it. -/
theorem next_of_owes (h : Owes cmp l (q :: queues))
    (hfirst : least? cmp l.sources = some q.opened) :
    ∃ l' queues', next Counted.pollAt cmp l = .ok (some q.head) l' ∧ Owes cmp l' queues' ∧
      queues'.flatMap Queue.placed =
        Placed.ofItems q.source (q.index + 1) q.rest ++ queues.flatMap Queue.placed := by
  have hq := h.held q List.mem_cons_self
  obtain ⟨c, hc, hgives⟩ := hq.pending
  have hothers : ∀ r ∈ queues, r.Held cmp (l.world.modify q.source fun c =>
      { c with polls := c.polls + 1 }) :=
    fun r hr => (h.held r (List.mem_cons_of_mem _ hr)).modify (h.source_ne hr) _
  have hnotMem : q.opened.source ∉ _ := h.source_notMem
  simp only [next, hfirst]
  rw [show q.opened.source = q.source from rfl, Counted.pollAt_of_gives hc hgives]
  cases hrest : q.rest with
  | nil =>
    refine ⟨_, queues, rfl, ⟨?_, ?_, hothers⟩, rfl⟩
    · rw [← close_cons hnotMem]
      exact h.opened.filter _
    · exact h.distinct.sublist (List.filter_sublist.map _)
  | cons a rest =>
    refine ⟨_, ⟨q.source, q.index + 1, a, rest⟩ :: queues, rfl, ⟨?_, ?_, ?_⟩, rfl⟩
    · rw [List.map_cons]
      exact (h.opened.map _).trans (.of_eq (replaceHead_cons hnotMem a))
    · rw [map_source_replaceHead]
      exact h.distinct
    · intro r hr
      rcases List.mem_cons.1 hr with rfl | hr
      · refine ⟨?_, ?_⟩
        · have hasc := hq.ascending
          rw [hrest] at hasc
          exact (List.pairwise_cons.1 hasc).2
        · rw [hrest] at hgives
          refine ⟨_, ?_, hgives.tail⟩
          rw [Array.getElem?_modify, if_pos rfl, hc]
          rfl
      · exact hothers r hr

end Next

theorem Owes.exists_first {l : ScanMerge α (Array (Counted α))} {queues : List (Queue α)}
    (h : Owes cmp l queues) (hne : queues ≠ []) :
    ∃ q others, queues.Perm (q :: others) ∧ least? cmp l.sources = some q.opened := by
  cases hfirst : least? cmp l.sources with
  | none =>
    have hsources := h.opened
    rw [least?_eq_none hfirst, List.nil_perm, List.map_eq_nil_iff] at hsources
    exact absurd hsources hne
  | some a =>
    obtain ⟨q, hq, rfl⟩ := List.mem_map.1 (h.opened.mem_iff.1 (least?_mem hfirst))
    obtain ⟨before, after, rfl⟩ := List.append_of_mem hq
    exact ⟨q, before ++ after, List.perm_middle, rfl⟩

variable [TransCmp cmp]

theorem Owes.before {l : ScanMerge α (Array (Counted α))} {q : Queue α} {queues : List (Queue α)}
    (h : Owes cmp l (q :: queues)) (hfirst : least? cmp l.sources = some q.opened)
    {p : Placed α} (hp : p ∈ Placed.ofItems q.source (q.index + 1) q.rest ++
      queues.flatMap Queue.placed) : Placed.Before cmp ⟨q.head, q.source, q.index⟩ p := by
  rcases List.mem_append.1 hp with hp | hp
  · exact Queue.before_rest (h.held q List.mem_cons_self) hp
  · obtain ⟨r, hr, hp⟩ := List.mem_flatMap.1 hp
    have hr' : r.opened ∈ l.sources :=
      h.opened.mem_iff.2 (List.mem_map_of_mem (List.mem_cons_of_mem _ hr))
    have hlt := (le_of_least? hfirst hr').lt (h.source_ne hr)
    exact Queue.before_of_compareBy (h.held r (List.mem_cons_of_mem _ hr)) hlt hp

/-- From a state that owes items the scan gives all of them, in the stable order. -/
theorem yields_of_owes (n : Nat) :
    ∀ (l : ScanMerge α (Array (Counted α))) (queues : List (Queue α)),
    Owes cmp l queues → (queues.flatMap Queue.placed).length = n →
    ∃ ps : List (Placed α), ps.Perm (queues.flatMap Queue.placed) ∧
      ps.Pairwise (Placed.Before cmp) ∧
      Act.Gives (next Counted.pollAt cmp) (·.sources = []) (ps.map Placed.item) l := by
  induction n with
  | zero =>
    intro l queues h hlength
    obtain rfl : queues = [] := by
      cases queues with
      | nil => rfl
      | cons q queues => simp [Queue.placed, Placed.ofItems] at hlength
    exact ⟨[], .nil, .nil, List.perm_nil.1 h.opened⟩
  | succ n ih =>
    intro l queues h hlength
    have hne : queues ≠ [] := by
      rintro rfl
      cases hlength
    obtain ⟨q, others, hqueues, hfirst⟩ := h.exists_first hne
    have hq := h.perm hqueues
    obtain ⟨l₁, queues₁, hnext, h₁, hplaced₁⟩ := next_of_owes hq hfirst
    have hperm : (queues.flatMap Queue.placed).Perm
        (⟨q.head, q.source, q.index⟩ :: queues₁.flatMap Queue.placed) := by
      rw [hplaced₁]
      exact hqueues.flatMap_right _
    have hlength₁ := hperm.length_eq
    rw [hlength, List.length_cons, Nat.succ_inj] at hlength₁
    obtain ⟨ps, hps, hsorted, hyields⟩ := ih l₁ queues₁ h₁ hlength₁.symm
    refine ⟨⟨q.head, q.source, q.index⟩ :: ps, (hps.cons _).trans hperm.symm, ?_,
      ⟨l₁, hnext, hyields⟩⟩
    refine List.pairwise_cons.2 ⟨fun p hp => hq.before hfirst ?_, hsorted⟩
    rw [← hplaced₁]
    exact hps.mem_iff.1 hp

omit [TransCmp cmp] in
theorem openSource_of_gives {l : ScanMerge α (Array (Counted α))} {queues : List (Queue α)}
    (h : Owes cmp l queues) {n : Nat} (hbelow : ∀ a ∈ l.sources, a.source < n) {c : Counted α}
    (hc : l.world[n]? = some c) {items : List α} (hgives : c.Gives items)
    (hsorted : items.Pairwise fun a b => (cmp a b).isLE) :
    ∃ l' queues', openSource Counted.pollAt n l = .ok () l' ∧ Owes cmp l' queues' ∧
      (∀ a ∈ l'.sources, a.source < n + 1) ∧
      queues'.flatMap Queue.placed = queues.flatMap Queue.placed ++ Placed.ofItems n 0 items ∧
      ∀ i, n < i → l'.world[i]? = l.world[i]? := by
  have hothers : ∀ r ∈ queues, r.Held cmp (l.world.modify n fun c =>
      { c with polls := c.polls + 1 }) := by
    intro r hr
    have hsource := hbelow _ (h.opened.mem_iff.2 (List.mem_map_of_mem hr))
    exact (h.held r hr).modify (Nat.ne_of_gt hsource) _
  have hworld : ∀ i, n < i → (l.world.modify n fun c => { c with polls := c.polls + 1 })[i]? =
      l.world[i]? := by
    intro i hi
    rw [Array.getElem?_modify, if_neg (Nat.ne_of_lt hi)]
  simp only [openSource, Counted.pollAt_of_gives hc hgives]
  cases items with
  | nil =>
    refine ⟨_, queues, rfl, ⟨h.opened, h.distinct, hothers⟩, fun a ha => ?_, ?_, hworld⟩
    · exact Nat.lt_succ_of_lt (hbelow a ha)
    · simp [Placed.ofItems]
  | cons a items =>
    refine ⟨_, queues ++ [⟨n, 0, a, items⟩], rfl, ⟨?_, ?_, ?_⟩, ?_, ?_, hworld⟩
    · rw [List.map_append]
      exact h.opened.append_right _
    · rw [List.map_append, List.nodup_append_comm]
      refine List.nodup_cons.2 ⟨fun hmem => ?_, h.distinct⟩
      obtain ⟨b, hb, e⟩ := List.mem_map.1 hmem
      exact absurd e (Nat.ne_of_lt (hbelow b hb))
    · intro r hr
      rcases List.mem_append.1 hr with hr | hr
      · exact hothers r hr
      · obtain rfl := List.mem_singleton.1 hr
        refine ⟨hsorted, _, ?_, hgives.tail⟩
        rw [Array.getElem?_modify, if_pos rfl, hc]
        rfl
    · intro b hb
      rcases List.mem_append.1 hb with hb | hb
      · exact Nat.lt_succ_of_lt (hbelow b hb)
      · obtain rfl := List.mem_singleton.1 hb
        exact Nat.lt_succ_self n
    · simp [Queue.placed]

omit [TransCmp cmp] in
/-- Opening sources that give items leaves a state that owes them. -/
theorem openSources_of_gives (lists : List (List α)) :
    ∀ (n : Nat) (l : ScanMerge α (Array (Counted α))) (queues : List (Queue α)), Owes cmp l queues →
      (∀ a ∈ l.sources, a.source < n) →
      (∀ i items, lists[i]? = some items → ∃ c, l.world[n + i]? = some c ∧ c.Gives items) →
      (∀ items ∈ lists, items.Pairwise fun a b => (cmp a b).isLE) →
      ∃ l' queues', (List.range' n lists.length).forM (openSource Counted.pollAt) l = .ok () l' ∧
        Owes cmp l' queues' ∧
        queues'.flatMap Queue.placed = queues.flatMap Queue.placed ++ Placed.ofLists n lists := by
  induction lists with
  | nil =>
    intro n l queues h _ _ _
    exact ⟨l, queues, rfl, h, (List.append_nil _).symm⟩
  | cons items lists ih =>
    intro n l queues h hbelow hgives hsorted
    obtain ⟨c, hc, hitems⟩ := hgives 0 items rfl
    obtain ⟨l₁, queues₁, hrun₁, h₁, hbelow₁, hplaced₁, hworld₁⟩ :=
      openSource_of_gives h hbelow hc hitems (hsorted items List.mem_cons_self)
    have hgives₁ : ∀ i items, lists[i]? = some items →
        ∃ c, l₁.world[n + 1 + i]? = some c ∧ c.Gives items := by
      intro i items hi
      obtain ⟨c, hc, hitems⟩ := hgives (i + 1) items hi
      refine ⟨c, ?_, hitems⟩
      rw [hworld₁ _ (by omega), ← hc, Nat.add_assoc, Nat.add_comm 1]
    obtain ⟨l', queues', hrun, h', hplaced⟩ :=
      ih (n + 1) l₁ queues₁ h₁ hbelow₁ hgives₁ fun items hi => hsorted items (.tail _ hi)
    refine ⟨l', queues', ?_, h', ?_⟩
    · show EStateM.bind _ (fun _ => _) l = _
      simp only [EStateM.bind, hrun₁]
      exact hrun
    · rw [hplaced, hplaced₁, List.append_assoc]
      rfl

end ScanMerge

/-! ## Merges of ascending sources -/

/-- The items in ascending order, with items that compare as equal in the order of their places. -/
structure IsStableSort (cmp : α → α → Ordering) (lists : List (List α)) (out : List α) :
    Prop where
  sorted : out.Pairwise fun a b => (cmp a b).isLE
  perm : out.Perm lists.flatten
  stable : ∃ ps : List (Placed α), ps.map Placed.item = out ∧
    ps.Perm (Placed.ofLists 0 lists) ∧ ps.Pairwise (Placed.Before cmp)
  eq_mergeSort : out = lists.flatten.mergeSort fun a b => (cmp a b).isLE

/-- Whatever ascending items the sources give before their ends, the merge opens, and gives the
stable sort of the items and then its end. -/
def MergesStably (cmp : α → α → Ordering) (inputs : MergeInputs α (Array (Counted α) × τ)) : Prop :=
  ∀ (sources : List (Source α)) (lists : List (List α)) (t : τ),
    List.Forall₂ Source.Gives sources lists →
    (∀ items ∈ lists, items.Pairwise fun a b => (cmp a b).isLE) →
    ∃ m out, Merge.openAll inputs sources.length
        (.ofWorld ((sources.map Counted.ofSource).toArray, t)) = .ok () m ∧
      IsStableSort cmp lists out ∧
      ∀ limit, out.length < limit → ∃ m',
        pull (Merge.next inputs) limit m = .ok ⟨out.toArray, true⟩ m' ∧ m'.openSources = 0

theorem isStableSort_of_perm [TransCmp cmp] {lists : List (List α)} {ps : List (Placed α)}
    (hperm : ps.Perm (Placed.ofLists 0 lists)) (hps : ps.Pairwise (Placed.Before cmp)) :
    IsStableSort cmp lists (ps.map Placed.item) where
  sorted := List.pairwise_map.2 (hps.imp Placed.Before.isLE)
  perm := by
    rw [← Placed.map_item_ofLists 0 lists]
    exact hperm.map _
  stable := ⟨ps, rfl, hperm, hps⟩
  eq_mergeSort := by
    have hsort : List.Pairwise (Placed.Before cmp) _ :=
      Placed.pairwise_before_mergeSort (Placed.pairwise_earlier_ofLists 0 lists)
    have hsame := Placed.eq_of_stable (hperm.trans (List.mergeSort_perm _ _).symm) hps hsort
    rw [hsame, ← Placed.map_item_ofLists 0 lists]
    exact List.map_mergeSort fun _ _ _ _ => rfl

theorem gives_of_forall₂ {sources : List (Source α)} {lists : List (List α)}
    (h : List.Forall₂ Source.Gives sources lists) {i : Nat} {items : List α}
    (hi : lists[i]? = some items) :
    ∃ c, (sources.map Counted.ofSource).toArray[i]? = some c ∧ c.Gives items := by
  induction h generalizing i with
  | nil => cases hi
  | @cons source _ _ _ hsource _ ih =>
    cases i with
    | zero =>
      cases hi
      refine ⟨.ofSource source, rfl, fun k hk => ?_⟩
      rw [← hsource k hk]
      exact congrArg source.answer (Nat.zero_add k)
    | succ i => simpa using ih hi

/-- The scan of ascending sources gives the stable sort of their items. -/
theorem exists_stableSort [TransCmp cmp] {sources : List (Source α)} {lists : List (List α)}
    (hgives : List.Forall₂ Source.Gives sources lists)
    (hsorted : ∀ items ∈ lists, items.Pairwise fun a b => (cmp a b).isLE) :
    ∃ l out, ScanMerge.openAll Counted.pollAt sources.length
        (.ofWorld (sources.map Counted.ofSource).toArray) = .ok () l ∧
      IsStableSort cmp lists out ∧
      Act.Gives (ScanMerge.next Counted.pollAt cmp) (·.sources = []) out l := by
  have hpending : ∀ i items, lists[i]? = some items →
      ∃ c, (sources.map Counted.ofSource).toArray[0 + i]? = some c ∧ c.Gives items := by
    intro i items hi
    rw [Nat.zero_add]
    exact gives_of_forall₂ hgives hi
  have hstart : ScanMerge.Owes cmp (.ofWorld (sources.map Counted.ofSource).toArray) [] :=
    ⟨.nil, .nil, fun _ => nofun⟩
  obtain ⟨l, queues, hscan, howes, hplaced⟩ :=
    ScanMerge.openSources_of_gives lists 0 _ [] hstart (fun _ => nofun) hpending hsorted
  obtain ⟨ps, hps, hbefore, hyields⟩ := ScanMerge.yields_of_owes _ l queues howes rfl
  rw [hplaced, List.flatMap_nil, List.nil_append] at hps
  rw [← List.range_eq_range', ← hgives.length_eq] at hscan
  exact ⟨l, ps.map Placed.item, hscan, isStableSort_of_perm hps hbefore, hyields⟩

theorem mergesStably_ofCounted [TransCmp cmp] {order : Comparator α τ}
    (horder : order.Answers cmp) : MergesStably cmp (.ofCounted order) := by
  intro sources lists t hgives hsorted
  obtain ⟨l, out, hscan, hstable, hyields⟩ := exists_stableSort hgives hsorted
  have hopen := Merge.simulates_openAll horder Counted.pollAt sources.length
    (sources.map Counted.ofSource).toArray t
  rw [hscan] at hopen
  obtain ⟨m, hm, hsim⟩ := hopen.exists_ok
  refine ⟨m, out, hm, hstable, fun limit hlimit => ?_⟩
  have hpull := Act.refines_pull (Merge.simulates_next horder Counted.pollAt) limit m l hsim
  obtain ⟨l', hend, hrun⟩ :=
    hyields.pull (Nat.le_of_lt hlimit) fun _ _ h => ScanMerge.next_of_nil h
  rw [hrun, decide_eq_true hlimit] at hpull
  obtain ⟨m', hm', hsim'⟩ := hpull.exists_ok
  refine ⟨m', hm', ?_⟩
  rw [hsim'.openSources, ScanMerge.openSources, hend]
  rfl

/-- The first replies of a scan of ascending sources give the beginning of the stable sort. -/
theorem exists_stableSort_replies [TransCmp cmp] {sources : List (Source α)}
    {lists : List (List α)} (hgives : List.Forall₂ Source.Gives sources lists)
    (hsorted : ∀ items ∈ lists, items.Pairwise fun a b => (cmp a b).isLE) (n : Nat) :
    ∃ l out, IsStableSort cmp lists out ∧
      Act.attemptAfter (ScanMerge.openAll Counted.pollAt sources.length)
        (ScanMerge.next Counted.pollAt cmp) n
        (.ofWorld (sources.map Counted.ofSource).toArray) =
          .ok (Act.answers (out.take n) n) l := by
  obtain ⟨l, out, hscan, hstable, hyields⟩ := exists_stableSort hgives hsorted
  obtain ⟨l', hall⟩ := hyields.attemptAll_take n fun _ h => ScanMerge.next_of_nil h
  exact ⟨l', out, hstable, by simp only [Act.attemptAfter, hscan, hall]⟩

/-- Merges of ascending sources give the stable sort of all items, by any total preorder and by the
order of values. -/
theorem merge_gives_stable_sort :
    (∀ {α τ : Type} {cmp : α → α → Ordering} [TransCmp cmp] {order : Comparator α τ},
      order.Answers cmp → MergesStably cmp (.ofCounted order)) ∧
    MergesStably Value.compare (MergeSession.inputs Ranking.natural.eval) :=
  ⟨mergesStably_ofCounted, mergesStably_ofCounted (MergeSession.answers_noted Value.compare)⟩

theorem merge_gives_stable_sort_by_half :
    let byHalf : Nat → Nat → Ordering := compareOn (· / 2)
    let order : Comparator Nat (Array (Nat × Nat)) := MergeSession.noted fun a b => .ok (byHalf a b)
    let sources := [.ofScript [.item 2, .item 5, .stop, .item 0], .ofList [], .ofList [3, 2, 4]]
    let lists := [[2, 5], [], [3, 2, 4]]
    order.Answers byHalf ∧ List.Forall₂ Source.Gives sources lists ∧
    (∀ items ∈ lists, items.Pairwise fun a b => (byHalf a b).isLE) ∧
    ∃ m out, Merge.openAll (.ofCounted order) sources.length
        (.ofWorld ((sources.map Counted.ofSource).toArray, #[])) = .ok () m ∧
      IsStableSort byHalf lists out ∧
      ∀ limit, out.length < limit → ∃ m',
        pull (Merge.next (.ofCounted order)) limit m = .ok ⟨out.toArray, true⟩ m' ∧
        m'.openSources = 0 := by
  intro byHalf order sources lists
  have horder : order.Answers byHalf := MergeSession.answers_noted byHalf
  have hgives : List.Forall₂ Source.Gives sources lists := by
    refine .cons ?_ (.cons (Source.gives_ofList []) (.cons (Source.gives_ofList [3, 2, 4]) .nil))
    rintro (_ | _ | _ | k) hk
    · rfl
    · rfl
    · rfl
    · simp only [List.length_cons, List.length_nil] at hk
      omega
  have hsorted : ∀ items ∈ lists, items.Pairwise fun a b => (byHalf a b).isLE := by decide
  exact ⟨horder, hgives, hsorted, merge_gives_stable_sort.1 horder sources lists #[] hgives hsorted⟩

end Streamkit
