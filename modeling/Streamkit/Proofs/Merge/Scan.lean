import Mathlib.Data.List.Nodup
import Streamkit.Proofs.Merge.Shuffle
import Streamkit.Proofs.Merge.Transfer
import Streamkit.Sequence.Merge.Session

/-!
# Merging by linear scan

A `ScanMerge` keeps its open sources in a list, in the order in which they were opened, and looks
through all of them for the one that comes first. Under a total preorder the heap makes no
difference: `Merge.Tracks` relates a merge to a scan with the same open sources, and every step
keeps it (`Merge.refines_scan`), whatever the sources answer. So whole merges give the same replies
and poll the same sources in the same order: `merge_agrees_with_scan`.
-/

open Std

namespace Streamkit

variable {α σ τ : Type} {cmp : α → α → Ordering}

/-- Open sources in a list, with the world they read from. -/
structure ScanMerge (α σ : Type) where
  sources : List (OpenSource α)
  world : σ

namespace ScanMerge

/-- A scan with no open source. -/
def ofWorld (world : σ) : ScanMerge α σ := ⟨[], world⟩

def openSources (m : ScanMerge α σ) : Nat := m.sources.length

/-- The source that comes first. -/
def least? (cmp : α → α → Ordering) : List (OpenSource α) → Option (OpenSource α)
  | [] => none
  | a :: rest =>
    match least? cmp rest with
    | none => some a
    | some b => if b.compareBy cmp a = .lt then some b else some a

/-- Gives a source another head. -/
def replaceHead (source : Nat) (head : α) (sources : List (OpenSource α)) : List (OpenSource α) :=
  sources.map fun a => if a.source = source then { a with head } else a

/-- Takes a source away. -/
def close (source : Nat) (sources : List (OpenSource α)) : List (OpenSource α) :=
  sources.filter (·.source ≠ source)

/-- Polls a source and opens it, unless it has no item. -/
def openSource (poll : Nat → Act σ (Option α)) (source : Nat) : Act (ScanMerge α σ) Unit := fun m =>
  match poll source m.world with
  | .error e s => .error e ⟨m.sources, s⟩
  | .ok none s => .ok () ⟨m.sources, s⟩
  | .ok (some head) s => .ok () ⟨m.sources ++ [⟨head, source⟩], s⟩

/-- Opens the sources with numbers below `count`, in order. -/
def openAll (poll : Nat → Act σ (Option α)) (count : Nat) : Act (ScanMerge α σ) Unit :=
  (List.range count).forM (openSource poll)

/-- The head of the source that comes first, which is polled for another one. -/
def next (poll : Nat → Act σ (Option α)) (cmp : α → α → Ordering) :
    Act (ScanMerge α σ) (Option α) := fun m =>
  match least? cmp m.sources with
  | none => .ok none m
  | some first =>
    match poll first.source m.world with
    | .error e s => .error e ⟨m.sources, s⟩
    | .ok (some head) s => .ok (some first.head) ⟨replaceHead first.source head m.sources, s⟩
    | .ok none s => .ok (some first.head) ⟨close first.source m.sources, s⟩

/-- A scan whose sources have all been closed has ended. -/
theorem next_of_nil {poll : Nat → Act σ (Option α)} {m : ScanMerge α σ} (h : m.sources = []) :
    next poll cmp m = .ok none m := by
  simp only [next, h, least?]

/-! ## The first source -/

theorem least?_mem {sources : List (OpenSource α)} {a : OpenSource α}
    (h : least? cmp sources = some a) : a ∈ sources := by
  induction sources generalizing a with
  | nil => simp [least?] at h
  | cons b rest ih =>
    simp only [least?] at h
    split at h
    · simp_all
    · rename_i c hc
      split at h
      · obtain rfl := Option.some.inj h
        exact List.mem_cons_of_mem _ (ih hc)
      · simp_all

theorem least?_eq_none {sources : List (OpenSource α)} (h : least? cmp sources = none) :
    sources = [] := by
  cases sources with
  | nil => rfl
  | cons a rest =>
    simp only [least?] at h
    split at h
    · cases h
    · split at h <;> cases h

theorem le_of_least? [TransCmp cmp] {sources : List (OpenSource α)} {a b : OpenSource α}
    (h : least? cmp sources = some a) (hb : b ∈ sources) : OpenSource.Le cmp a b := by
  induction sources generalizing a b with
  | nil => cases hb
  | cons c rest ih =>
    simp only [least?] at h
    cases hrest : least? cmp rest with
    | none =>
      obtain rfl := least?_eq_none hrest
      obtain rfl : b = c := by simpa using hb
      obtain rfl : b = a := by simpa [hrest] using h
      exact .refl b
    | some d =>
      simp only [hrest] at h
      split at h
      · rename_i hdc
        obtain rfl := Option.some.inj h
        rcases List.mem_cons.1 hb with rfl | hb
        · exact .of_lt hdc
        · exact ih hrest hb
      · rename_i hdc
        obtain rfl := Option.some.inj h
        rcases List.mem_cons.1 hb with rfl | hb
        · exact .refl b
        · exact (OpenSource.Le.of_not_lt hdc).trans (ih hrest hb)

theorem least?_eq_some [TransCmp cmp] {sources : List (OpenSource α)} {a : OpenSource α}
    (ha : a ∈ sources) (hlt : ∀ b ∈ sources, b ≠ a → a.compareBy cmp b = .lt) :
    least? cmp sources = some a := by
  cases h : least? cmp sources with
  | none =>
    obtain rfl := least?_eq_none h
    cases ha
  | some b =>
    by_contra hne
    have hab := hlt b (least?_mem h) fun e => hne (by rw [e])
    have hba : OpenSource.Le cmp b a := le_of_least? h ha
    rw [OpenSource.Le, OrientedCmp.gt_of_lt hab] at hba
    cases hba

/-! ## Changing one source -/

theorem map_source_replaceHead (source : Nat) (head : α) (sources : List (OpenSource α)) :
    (replaceHead source head sources).map OpenSource.source = sources.map OpenSource.source := by
  rw [replaceHead, List.map_map]
  refine List.map_congr_left fun a _ => ?_
  simp only [Function.comp_apply]
  split <;> rfl

section Cons

variable {root : OpenSource α} {rest : List (OpenSource α)}

theorem replaceHead_cons (h : root.source ∉ rest.map OpenSource.source) (head : α) :
    replaceHead root.source head (root :: rest) = { root with head } :: rest := by
  have hrest : replaceHead root.source head rest = rest := by
    conv_rhs => rw [← List.map_id rest]
    refine List.map_congr_left fun a ha => if_neg fun e => h ?_
    exact e ▸ List.mem_map_of_mem ha
  simpa [replaceHead] using hrest

theorem close_cons (h : root.source ∉ rest.map OpenSource.source) :
    close root.source (root :: rest) = rest := by
  have hrest : close root.source rest = rest := by
    refine List.filter_eq_self.2 fun a ha => ?_
    have hne : a.source ≠ root.source := fun e => h (e ▸ List.mem_map_of_mem ha)
    simpa using hne
  simpa [close] using hrest

end Cons

end ScanMerge

namespace Merge

/-- The merge keeps the open sources of the scan in an ordered heap. -/
structure Tracks (cmp : α → α → Ordering) (m : Merge α σ) (l : ScanMerge α σ) : Prop where
  ordered : Heap.Ordered cmp m.heap
  perm : m.heap.toList.Perm l.sources
  distinct : (l.sources.map OpenSource.source).Nodup
  world : m.world = l.world

theorem Tracks.openSources {m : Merge α σ} {l : ScanMerge α σ} (h : Tracks cmp m l) :
    m.openSources = l.openSources := by
  simpa [Merge.openSources, ScanMerge.openSources] using h.perm.length_eq

/-- Sources that are polled directly, under a comparator that answers by `cmp`. -/
def scanInputs (poll : Nat → Act σ (Option α)) (cmp : α → α → Ordering) : MergeInputs α σ :=
  ⟨poll, .ofCompare cmp⟩

theorem Tracks.root_notMem {m : Merge α σ} {l : ScanMerge α σ} (h : Tracks cmp m l)
    {root : OpenSource α} {rest : List (OpenSource α)} (hheap : m.heap.toList = root :: rest) :
    root.source ∉ rest.map OpenSource.source := by
  have hnodup := (h.perm.map OpenSource.source).nodup_iff.2 h.distinct
  rw [hheap, List.map_cons, List.nodup_cons] at hnodup
  exact hnodup.1

variable [TransCmp cmp] (poll : Nat → Act σ (Option α))

theorem Tracks.least {m : Merge α σ} {l : ScanMerge α σ} (h : Tracks cmp m l)
    {root : OpenSource α} {rest : List (OpenSource α)} (hheap : m.heap.toList = root :: rest) :
    ScanMerge.least? cmp l.sources = some root := by
  have hroot : root ∈ l.sources := h.perm.mem_iff.1 (hheap ▸ List.mem_cons_self)
  refine ScanMerge.least?_eq_some hroot fun b hb hne => ?_
  have hsource : root.source ≠ b.source := fun e =>
    hne (List.inj_on_of_nodup_map h.distinct hb hroot e.symm)
  exact (h.ordered.root_first hheap (h.perm.mem_iff.2 hb)).lt hsource

theorem agree_openSource {m : Merge α σ} {l : ScanMerge α σ} (h : Tracks cmp m l) {source : Nat}
    (hnew : source ∉ l.sources.map OpenSource.source) :
    Act.Agree (· = ·) (fun m l' => Tracks cmp m l' ∧
        l'.sources.map OpenSource.source ⊆ source :: l.sources.map OpenSource.source)
      (openSource (scanInputs poll cmp) source m) (ScanMerge.openSource poll source l) := by
  obtain ⟨heap, s⟩ := m
  obtain ⟨sources, s'⟩ := l
  obtain rfl : s = s' := h.world
  simp only [openSource, ScanMerge.openSource, scanInputs]
  cases poll source s with
  | error e s =>
    exact ⟨rfl, ⟨h.ordered, h.perm, h.distinct, rfl⟩, List.subset_cons_self _ _⟩
  | ok x s =>
    cases x with
    | none => exact ⟨rfl, ⟨h.ordered, h.perm, h.distinct, rfl⟩, List.subset_cons_self _ _⟩
    | some head =>
      have hord : Heap.Ordered cmp heap := h.ordered
      obtain ⟨heap', hrun, hperm, hord'⟩ := Heap.insert_spec hord ⟨head, source⟩ s
      dsimp only
      rw [hrun]
      refine ⟨rfl, ⟨hord', hperm.trans (h.perm.append_right _), ?_, rfl⟩, by simp⟩
      rw [List.map_append, List.nodup_append_comm]
      exact List.nodup_cons.2 ⟨hnew, h.distinct⟩

theorem agree_openAll (numbers : List Nat) (hnodup : numbers.Nodup) :
    ∀ (m : Merge α σ) (l : ScanMerge α σ), Tracks cmp m l →
      (∀ i ∈ numbers, i ∉ l.sources.map OpenSource.source) →
      Act.Agree (· = ·) (Tracks cmp) (numbers.forM (openSource (scanInputs poll cmp)) m)
        (numbers.forM (ScanMerge.openSource poll) l) := by
  induction numbers with
  | nil => exact fun m l h _ => ⟨rfl, h⟩
  | cons i numbers ih =>
    intro m l h hnew
    have hstep := agree_openSource poll h (hnew i List.mem_cons_self)
    show Act.Agree _ _ (EStateM.bind _ (fun _ => _) m) (EStateM.bind _ (fun _ => _) l)
    simp only [EStateM.bind]
    refine hstep.elim (fun _ m' l' h => ?_) (fun _ _ _ _ he h => ⟨he, h.1⟩)
    refine ih (List.nodup_cons.1 hnodup).2 m' l' h.1 fun j hj hmem => ?_
    rcases List.mem_cons.1 (h.2 hmem) with rfl | hmem
    · exact (List.nodup_cons.1 hnodup).1 hj
    · exact hnew j (List.mem_cons_of_mem _ hj) hmem

/-- What a step does to an ordered heap. -/
theorem next_cases {m : Merge α σ} (hord : Heap.Ordered cmp m.heap) {root : OpenSource α}
    {rest : List (OpenSource α)} (hheap : m.heap.toList = root :: rest) :
    (∃ e s, poll root.source m.world = .error e s ∧
      next (scanInputs poll cmp) m = .error e ⟨m.heap, s⟩) ∨
    (∃ head s heap, poll root.source m.world = .ok (some head) s ∧
      next (scanInputs poll cmp) m = .ok (some root.head) ⟨heap, s⟩ ∧
      heap.toList.Perm ({ root with head } :: rest) ∧ Heap.Ordered cmp heap) ∨
    (∃ s heap, poll root.source m.world = .ok none s ∧
      next (scanInputs poll cmp) m = .ok (some root.head) ⟨heap, s⟩ ∧
      heap.toList.Perm rest ∧ Heap.Ordered cmp heap) := by
  have hroot : m.heap[0]? = some root := by rw [← Array.getElem?_toList, hheap]; rfl
  simp only [next, hroot, scanInputs]
  cases hpoll : poll root.source m.world with
  | error e s => exact .inl ⟨e, s, rfl, rfl⟩
  | ok x s =>
    cases x with
    | some head =>
      obtain ⟨heap, hrun, hperm, hord'⟩ := Heap.replaceRoot_spec hord hheap head s
      dsimp only
      rw [hrun]
      exact .inr (.inl ⟨head, s, heap, rfl, rfl, hperm, hord'⟩)
    | none =>
      obtain ⟨heap, hrun, hperm, hord'⟩ := Heap.removeRoot_spec hord hheap s
      dsimp only
      rw [hrun]
      exact .inr (.inr ⟨s, heap, rfl, rfl, hperm, hord'⟩)

/-- A step of a merge is a step of the scan. -/
theorem refines_scan : Act.Refines (· = ·) (Tracks cmp) (next (scanInputs poll cmp))
    (ScanMerge.next poll cmp) := by
  intro m l h
  cases hheap : m.heap.toList with
  | nil =>
    have hsources : l.sources = [] := by simpa [hheap] using h.perm
    rw [next_of_nil hheap, ScanMerge.next_of_nil hsources]
    exact ⟨rfl, h⟩
  | cons root rest =>
    have hrest := h.root_notMem hheap
    simp only [ScanMerge.next, h.least hheap, ← h.world]
    rcases next_cases poll h.ordered hheap with
      ⟨e, s, hpoll, hrun⟩ | ⟨head, s, heap, hpoll, hrun, hperm, hord⟩ |
      ⟨s, heap, hpoll, hrun, hperm, hord⟩
    · rw [hrun, hpoll]
      exact ⟨rfl, h.ordered, h.perm, h.distinct, rfl⟩
    · rw [hrun, hpoll]
      refine ⟨rfl, hord, hperm.trans ?_, ?_, rfl⟩
      · rw [← ScanMerge.replaceHead_cons hrest, ← hheap]
        exact h.perm.map _
      · rw [ScanMerge.map_source_replaceHead]
        exact h.distinct
    · rw [hrun, hpoll]
      refine ⟨rfl, hord, hperm.trans ?_, ?_, rfl⟩
      · nth_rewrite 1 [← ScanMerge.close_cons hrest, ← hheap]
        exact h.perm.filter _
      · exact h.distinct.sublist (List.filter_sublist.map _)

/-- A fault of a step leaves the heap as it was. -/
theorem heap_of_error {m m' : Merge α σ} (hord : Heap.Ordered cmp m.heap) {e : Fault}
    (h : next (scanInputs poll cmp) m = .error e m') : m'.heap = m.heap := by
  cases hheap : m.heap.toList with
  | nil =>
    rw [next_of_nil hheap] at h
    cases h
  | cons root rest =>
    rcases next_cases poll hord hheap with
      ⟨f, s, -, hrun⟩ | ⟨head, s, heap, -, hrun, -, -⟩ | ⟨s, heap, -, hrun, -, -⟩
    · rw [hrun] at h
      cases h
      rfl
    · rw [hrun] at h
      cases h
    · rw [hrun] at h
      cases h

end Merge

/-! ## Whole merges -/

/-- The comparator answers by `cmp`, whatever it does to its own state. -/
def Comparator.Answers (order : Comparator α τ) (cmp : α → α → Ordering) : Prop :=
  ∀ a b t, ∃ t', order a b t = .ok (cmp a b) t'

theorem MergeSession.answers_noted (cmp : α → α → Ordering) :
    (noted fun a b => .ok (cmp a b)).Answers cmp :=
  fun a b t => ⟨t.push (a, b), rfl⟩

/-- Sources and a comparator with a state of its own. -/
def MergeInputs.apart (poll : Nat → Act σ (Option α)) (order : Comparator α τ) :
    MergeInputs α (σ × τ) where
  poll source := Act.onFst (poll source)
  order a b := Act.onSnd (order a b)

/-- A comparator that answers by `cmp` is no different from `cmp` for the sources. -/
theorem MergeInputs.refines_apart {order : Comparator α τ} (horder : order.Answers cmp)
    (poll : Nat → Act σ (Option α)) :
    (MergeInputs.apart poll order).Refines (· = ·) (fun s r => s.1 = r)
      (Merge.scanInputs poll cmp) where
  poll i := by
    rintro ⟨s, t⟩ _ rfl
    simp only [MergeInputs.apart, Merge.scanInputs, Act.onFst]
    cases poll i s <;> exact ⟨rfl, rfl⟩
  order a b := by
    rintro ⟨s, t⟩ _ rfl
    obtain ⟨t', ht⟩ := horder a b t
    simp only [MergeInputs.apart, Act.onSnd, ht]
    exact ⟨rfl, rfl⟩

/-- Notes the number of each source that is polled. -/
def notePolls (poll : Nat → Act σ (Option α)) (i : Nat) : Act (σ × Array Nat) (Option α) := do
  modify fun (s, polled) => (s, polled.push i)
  Act.onFst (poll i)

theorem notePolls_polled (poll : Nat → Act σ (Option α)) (i : Nat) (s : σ × Array Nat) :
    ((notePolls poll i).attempt s).2.2 = s.2.push i := by
  show (Act.attempt (Act.onFst (poll i)) (s.1, s.2.push i)).2.2 = _
  simp only [Act.attempt, Act.onFst]
  cases poll i s.1 <;> rfl

/-- The step gives up with every head in place, having polled a source that the following step
polls again. -/
def RepeatsPoll {μ : Type} (next : Act μ (Option α)) (heads : μ → List (OpenSource α))
    (polled : μ → Array Nat) (e : Fault) (source : Nat) (m : μ) : Prop :=
  ∃ m', next m = .error e m' ∧ heads m' = heads m ∧ polled m' = (polled m).push source ∧
    polled (next.attempt m').2 = (polled m').push source

section Agreement

variable (poll : Nat → Act σ (Option α))

theorem ScanMerge.polled_next {l : ScanMerge α (σ × Array Nat)} {first : OpenSource α}
    (hfirst : least? cmp l.sources = some first) :
    ((next (notePolls poll) cmp).attempt l).2.world.2 = l.world.2.push first.source := by
  rw [← notePolls_polled poll first.source l.world]
  simp only [Act.attempt, next, hfirst]
  cases notePolls poll first.source l.world with
  | error e s => rfl
  | ok x s => cases x <;> rfl

theorem ScanMerge.repeatsPoll {l l' : ScanMerge α (σ × Array Nat)} {e : Fault}
    (h : next (notePolls poll) cmp l = .error e l') :
    ∃ i, RepeatsPoll (next (notePolls poll) cmp) ScanMerge.sources (·.world.2) e i l := by
  cases hfirst : least? cmp l.sources with
  | none => simp [next, hfirst] at h
  | some first =>
    have hsources : l'.sources = l.sources := by
      simp only [next, hfirst] at h
      split at h <;> cases h
      rfl
    have hpolled := polled_next poll hfirst
    simp only [Act.attempt, h] at hpolled
    exact ⟨first.source, l', h, hsources, hpolled, polled_next poll (hsources ▸ hfirst)⟩

/-- The merge and the scan have the same open sources and have polled alike; when the merge gives
up, both do, keep all heads, and poll the same source again. -/
structure Merge.InStep (order : Comparator α τ) (cmp : α → α → Ordering)
    (m : Merge α ((σ × Array Nat) × τ)) (l : ScanMerge α (σ × Array Nat)) : Prop where
  openSources : m.openSources = l.openSources
  heads : m.heap.toList.Perm l.sources
  world : m.world.1 = l.world
  again : ∀ e m', Merge.next (.apart (notePolls poll) order) m = .error e m' → ∃ i,
    RepeatsPoll (Merge.next (.apart (notePolls poll) order)) (·.heap.toList) (·.world.1.2) e i m ∧
    RepeatsPoll (ScanMerge.next (notePolls poll) cmp) ScanMerge.sources (·.world.2) e i l

variable {poll} {order : Comparator α τ}

/-- Merges with the same open sources as a scan, whatever the comparator has done. -/
def Merge.Simulates (cmp : α → α → Ordering) : Merge α (σ × τ) → ScanMerge α σ → Prop :=
  Relation.Comp (Merge.Beside fun s r => s.1 = r) (Merge.Tracks cmp)

theorem Merge.Simulates.world {m : Merge α (σ × τ)} {l : ScanMerge α σ}
    (h : Merge.Simulates cmp m l) : m.world.1 = l.world := by
  obtain ⟨m₁, hm, hl⟩ := h
  exact hm.2.trans hl.world

theorem Merge.Simulates.openSources {m : Merge α (σ × τ)} {l : ScanMerge α σ}
    (h : Merge.Simulates cmp m l) : m.openSources = l.openSources := by
  obtain ⟨m₁, hm, hl⟩ := h
  exact (congrArg Array.size hm.1).trans hl.openSources

theorem Merge.simulates_start (s : σ) (t : τ) :
    Merge.Simulates cmp (.ofWorld (s, t)) (.ofWorld s) :=
  ⟨.ofWorld s, ⟨rfl, rfl⟩, Heap.ordered_empty, .nil, .nil, rfl⟩

variable [TransCmp cmp]

theorem Merge.simulates_openAll (horder : order.Answers cmp) (poll : Nat → Act σ (Option α))
    (count : Nat) (s : σ) (t : τ) :
    Act.Agree (· = ·) (Merge.Simulates cmp)
      (Merge.openAll (.apart poll order) count (.ofWorld (s, t)))
      (ScanMerge.openAll poll count (.ofWorld s)) := by
  have hstart : Merge.Simulates cmp (.ofWorld (s, t)) (.ofWorld s) := Merge.simulates_start s t
  obtain ⟨m₁, hm, hl⟩ := hstart
  have hheap := Merge.refines_openAll (MergeInputs.refines_apart horder poll) count _ m₁ hm
  exact hheap.comp (agree_openAll poll (List.range count) List.nodup_range m₁ _ hl
    fun _ _ => List.not_mem_nil)

theorem Merge.simulates_next (horder : order.Answers cmp) (poll : Nat → Act σ (Option α)) :
    Act.Refines (· = ·) (Merge.Simulates cmp) (Merge.next (.apart poll order))
      (ScanMerge.next poll cmp) :=
  (Merge.refines_next (MergeInputs.refines_apart horder poll)).comp (Merge.refines_scan poll)

/-- What a merge replies is what the scan replies. -/
theorem Merge.scan_replies (horder : order.Answers cmp) {count n : Nat} {s : σ} {t : τ}
    {replies : List (Except Fault (Option α))} {m : Merge α (σ × τ)}
    (h : Act.attemptAfter (Merge.openAll (.apart poll order) count)
      (Merge.next (.apart poll order)) n (.ofWorld (s, t)) = .ok replies m) :
    ∃ l, Act.attemptAfter (ScanMerge.openAll poll count) (ScanMerge.next poll cmp) n
      (.ofWorld s) = .ok replies l := by
  have hopen := Merge.simulates_openAll horder poll count s t
  have hrun := Act.agree_attemptAfter hopen (Merge.simulates_next horder poll) n
  rw [h] at hrun
  obtain ⟨l, hscan, -⟩ := hrun.exists_ok_right
  exact ⟨l, hscan⟩

theorem Merge.Simulates.heap_of_error (horder : order.Answers cmp) {m m' : Merge α (σ × τ)}
    {l : ScanMerge α σ} (hm : Merge.Simulates cmp m l) {e : Fault}
    (h : Merge.next (.apart poll order) m = .error e m') : m'.heap = m.heap := by
  obtain ⟨m₁, hm, hl⟩ := hm
  have hstep := Merge.refines_next (MergeInputs.refines_apart horder poll) m m₁ hm
  rw [h] at hstep
  cases hm₁ : Merge.next (Merge.scanInputs poll cmp) m₁ with
  | ok x m₁' =>
    rw [hm₁] at hstep
    exact False.elim hstep
  | error f m₁' =>
    rw [hm₁] at hstep
    rw [hstep.2.1, Merge.heap_of_error poll hl.ordered hm₁, hm.1]

theorem Merge.Simulates.inStep (horder : order.Answers cmp)
    {m : Merge α ((σ × Array Nat) × τ)} {l : ScanMerge α (σ × Array Nat)}
    (hm : Merge.Simulates cmp m l) : Merge.InStep poll order cmp m l where
  openSources := hm.openSources
  heads := by
    obtain ⟨m₁, hm, hl⟩ := hm
    exact hm.1 ▸ hl.perm
  world := hm.world
  again e m' h := by
    have hnext := Merge.simulates_next horder (notePolls poll)
    have hstep := hnext m l hm
    cases hl : ScanMerge.next (notePolls poll) cmp l with
    | ok x l' =>
      rw [h, hl] at hstep
      exact False.elim hstep
    | error f l' =>
      rw [h, hl] at hstep
      obtain ⟨rfl, hm'⟩ := hstep
      obtain ⟨i, hrepeat⟩ := ScanMerge.repeatsPoll poll hl
      refine ⟨i, ⟨m', h, ?_, ?_, ?_⟩, hrepeat⟩
      · exact congrArg Array.toList (hm.heap_of_error horder h)
      all_goals
        obtain ⟨l'', hl'', -, hpolled, hagain⟩ := hrepeat
        obtain ⟨-, rfl⟩ : e = e ∧ l' = l'' := by simpa [hl] using hl''
        dsimp only at hpolled hagain ⊢
      · rw [hm.world, hm'.world, hpolled]
      · rw [(hnext.attempt hm').2.world, hm'.world, hagain]

/-- A merge under a total preorder gives the replies of the linear scan, one by one, and polls the
same sources in the same order, whatever the sources answer. -/
theorem merge_agrees_with_scan (horder : order.Answers cmp) (poll : Nat → Act σ (Option α))
    (count n : Nat) (s : σ) (t : τ) :
    Act.Agree (· = ·) (Merge.InStep poll order cmp)
      (Act.attemptAfter (Merge.openAll (.apart (notePolls poll) order) count)
        (Merge.next (.apart (notePolls poll) order)) n (.ofWorld ((s, #[]), t)))
      (Act.attemptAfter (ScanMerge.openAll (notePolls poll) count)
        (ScanMerge.next (notePolls poll) cmp) n (.ofWorld (s, #[]))) := by
  have hopen := Merge.simulates_openAll horder (notePolls poll) count (s, #[]) t
  have hnext := Merge.simulates_next horder (notePolls poll)
  exact (Act.agree_attemptAfter hopen hnext n).mono fun _ _ hm => hm.inStep horder

open MergeSession in
theorem merge_agrees_with_scan_of_scripts :
    let order : Comparator Nat (Array (Nat × Nat)) := noted fun a b => .ok (compare a b)
    let sources := #[.ofSource (.ofScript [.item 3, .fail "jammed", .item 1]),
      .ofSource (.ofList [2, 5, 2]), .ofSource (.ofList [])]
    order.Answers compare ∧ Act.Agree (· = ·) (Merge.InStep Counted.pollAt order compare)
      (Act.attemptAfter (Merge.openAll (.apart (notePolls Counted.pollAt) order) 3)
        (Merge.next (.apart (notePolls Counted.pollAt) order)) 9 (.ofWorld ((sources, #[]), #[])))
      (Act.attemptAfter (ScanMerge.openAll (notePolls Counted.pollAt) 3)
        (ScanMerge.next (notePolls Counted.pollAt) compare) 9 (.ofWorld (sources, #[]))) := by
  intro order sources
  exact ⟨answers_noted compare,
    merge_agrees_with_scan (answers_noted compare) Counted.pollAt 3 9 sources #[]⟩

end Agreement

end Streamkit
