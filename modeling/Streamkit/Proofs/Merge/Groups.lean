import Streamkit.Proofs.Memo.Replay
import Streamkit.Proofs.Merge.Conservation
import Streamkit.Proofs.Merge.Lanes
import Streamkit.Proofs.Merge.Scan

/-!
# Merging in groups

A merge can be a source of another merge. Whatever the sources of a merge are, it only needs that
each of them gives the items of a lane, whatever is polled of the others (`Serving`). The heap then
holds the first items of the lanes, the root is the item that `Lane.pick` picks
(`Lane.least?_opened`), and so the merge gives the merge of the lanes (`Merge.Plays.answers`).
Sources that do not give up serve the lanes of their items (`serving_pollAt`), and merges over such
sources serve the merges of these lanes (`Merge.serving_nextAt`). What holds of lanes therefore
holds of merges: `merge_in_groups`.
-/

open Std

namespace Streamkit

variable {α σ τ ρ : Type} {cmp : α → α → Ordering}

/-! ## Sources that give lanes -/

/-- What the source gives at each position. -/
def Source.lane (s : Source α) : Lane α := fun k => ((s.replay k).toOption).join

/-- The answers that give the first items of a lane. -/
def Lane.answers (f : Lane α) (n : Nat) : List (Answer α) := (List.range n).map fun k => .ok (f k)

/-- A poll of a source gives the first item of the lane that the source serves. The source then
serves the rest of the lane, and what other sources serve does not change. -/
def Serving (poll : Nat → Act σ (Option α)) (serves : σ → Nat → Lane α → Prop) : Prop :=
  ∀ s i f, serves s i f → ∃ s', poll i s = .ok (f 0) s' ∧ (f 0 ≠ none → serves s' i f.tail) ∧
    ∀ j g, j ≠ i → serves s j g → serves s' j g

/-- The open sources, when source `i` and those after it are about to give the lanes. -/
def Lane.opened : (i : Nat) → List (Lane α) → List (OpenSource α)
  | _, [] => []
  | i, f :: fs => ((f 0).map (⟨·, i⟩)).toList ++ opened (i + 1) fs

namespace ScanMerge

/-- What the answer of a polled source makes of the open sources: another head of it, or its end. -/
def readOn (source : Nat) : Option α → List (OpenSource α) → List (OpenSource α)
  | some head, sources => replaceHead source head sources
  | none, sources => close source sources

theorem readOn_cons_self {root : OpenSource α} {rest : List (OpenSource α)}
    (h : root.source ∉ rest.map OpenSource.source) (x : Option α) :
    readOn root.source x (root :: rest) = (x.map (⟨·, root.source⟩)).toList ++ rest := by
  cases x with
  | none => exact close_cons h
  | some head => exact replaceHead_cons h head

theorem readOn_cons_of_ne {a : OpenSource α} {source : Nat} (h : a.source ≠ source) (x : Option α)
    (sources : List (OpenSource α)) :
    readOn source x (a :: sources) = a :: readOn source x sources := by
  cases x with
  | none => simp [readOn, close, h]
  | some head => simp [readOn, replaceHead, h]

end ScanMerge

namespace Lane

variable {i j : Nat} {f : Lane α} {fs : List (Lane α)}

theorem opened_cons_of_none (hf : f 0 = none) (i : Nat) (fs : List (Lane α)) :
    opened i (f :: fs) = opened (i + 1) fs := by
  rw [opened, hf]
  rfl

theorem opened_cons_of_some {a : α} (hf : f 0 = some a) (i : Nat) (fs : List (Lane α)) :
    opened i (f :: fs) = ⟨a, i⟩ :: opened (i + 1) fs := by
  rw [opened, hf]
  rfl

theorem opened_append (i : Nat) (fs gs : List (Lane α)) :
    opened i (fs ++ gs) = opened i fs ++ opened (i + fs.length) gs := by
  induction fs generalizing i with
  | nil => rfl
  | cons f fs ih =>
    rw [List.cons_append, opened, opened, ih, List.append_assoc, List.length_cons, Nat.add_assoc,
      Nat.add_comm 1]

theorem le_of_mem_opened {a : OpenSource α} (h : a ∈ opened i fs) : i ≤ a.source := by
  induction fs generalizing i with
  | nil => cases h
  | cons f fs ih =>
    rcases List.mem_append.1 h with h | h
    · obtain ⟨b, -, rfl⟩ := Option.map_eq_some_iff.1 (Option.mem_toList.1 h)
      exact Nat.le_refl i
    · exact Nat.le_of_succ_le (ih h)

theorem notMem_opened (i : Nat) (fs : List (Lane α)) :
    i ∉ (opened (i + 1) fs).map OpenSource.source := by
  intro h
  obtain ⟨a, ha, rfl⟩ := List.mem_map.1 h
  exact Nat.not_succ_le_self _ (le_of_mem_opened ha)

/-- The open source that comes first is the one that lanes are picked from. -/
theorem least?_opened (cmp : α → α → Ordering) (i : Nat) (fs : List (Lane α)) :
    pick cmp fs = none ∧ ScanMerge.least? cmp (opened i fs) = none ∨
    ∃ (a : α) (j : Nat) (f : Lane α), fs[j]? = some f ∧ f 0 = some a ∧
      pick cmp fs = some (a, fs.set j f.tail) ∧
      ScanMerge.least? cmp (opened i fs) = some ⟨a, i + j⟩ := by
  induction fs generalizing i with
  | nil => exact .inl ⟨rfl, rfl⟩
  | cons f fs ih =>
    rw [pick, pickOne]
    rcases hf : f 0 with _ | a <;>
      rcases ih (i + 1) with ⟨hpick, hleast⟩ | ⟨b, j, g, hj, hg, hpick, hleast⟩
    · rw [opened_cons_of_none hf, hpick]
      exact .inl ⟨rfl, hleast⟩
    · rw [opened_cons_of_none hf, hpick]
      exact .inr ⟨b, j + 1, g, hj, hg, rfl, by rw [hleast, Nat.add_right_comm, Nat.add_assoc]⟩
    · rw [opened_cons_of_some hf, ScanMerge.least?, hpick, hleast]
      exact .inr ⟨a, 0, f, rfl, hf, rfl, rfl⟩
    · -- the later source comes first only if its item is less
      have hlater : (⟨b, i + 1 + j⟩ : OpenSource α).compareBy cmp ⟨a, i⟩ = .lt ↔ cmp b a = .lt := by
        have hgt : compare (i + 1 + j) i = .gt := Nat.compare_eq_gt.2 (by omega)
        simp [OpenSource.compareBy, compareLex, compareOn, Ordering.then_eq_lt, hgt]
      rw [opened_cons_of_some hf, ScanMerge.least?, hpick, hleast]
      by_cases hba : cmp b a = .lt
      · refine .inr ⟨b, j + 1, g, hj, hg, by simp [choose, hba], ?_⟩
        simp only [hlater.2 hba, if_true]
        rw [Nat.add_right_comm, Nat.add_assoc]
      · refine .inr ⟨a, 0, f, rfl, hf, by simp [choose, hba], ?_⟩
        simp only [hlater, hba, if_false]
        rfl

/-- Reading on in an open source is going on to the rest of its lane. -/
theorem readOn_opened {a : α} (hf : fs[j]? = some f) (ha : f 0 = some a) (g : Lane α) (i : Nat) :
    ScanMerge.readOn (i + j) (g 0) (opened i fs) = opened i (fs.set j g) := by
  induction fs generalizing i j with
  | nil => cases hf
  | cons f' fs ih =>
    cases j with
    | zero =>
      obtain rfl := Option.some.inj hf
      rw [opened_cons_of_some ha]
      exact ScanMerge.readOn_cons_self (notMem_opened i fs) (g 0)
    | succ j =>
      have hrest := ih hf (i + 1)
      rw [Nat.add_assoc, Nat.add_comm 1] at hrest
      rw [List.set_cons_succ]
      cases hf' : f' 0 with
      | none => rw [opened_cons_of_none hf', opened_cons_of_none hf', hrest]
      | some b =>
        rw [opened_cons_of_some hf', opened_cons_of_some hf', ← hrest]
        exact ScanMerge.readOn_cons_of_ne (Nat.ne_of_lt (Nat.lt_add_of_pos_right (by omega))) _ _

end Lane

/-! ## Merges of lanes -/

/-- The scan holds the first items of the lanes, and the sources serve what follows these. -/
structure ScanMerge.Plays (serves : σ → Nat → Lane α → Prop) (fs : List (Lane α))
    (l : ScanMerge α σ) : Prop where
  sources : l.sources = Lane.opened 0 fs
  serves : ∀ i f, fs[i]? = some f → f 0 ≠ none → serves l.world i f.tail

/-- The sources below `k` have been opened, and the others have not been polled. -/
structure ScanMerge.Opening (serves : σ → Nat → Lane α → Prop) (fs : List (Lane α)) (k : Nat)
    (l : ScanMerge α σ) : Prop where
  plays : l.Plays serves (fs.take k)
  unpolled : ∀ i f, k ≤ i → fs[i]? = some f → serves l.world i f

section Serving

variable {poll : Nat → Act σ (Option α)} {serves : σ → Nat → Lane α → Prop}
  (hserving : Serving poll serves) {fs : List (Lane α)}

include hserving

theorem ScanMerge.Opening.openSource {l : ScanMerge α σ} {k : Nat} (h : l.Opening serves fs k)
    (hk : k < fs.length) : Act.Leaves (fun _ l => ScanMerge.Opening serves fs (k + 1) l) Act.never
      (ScanMerge.openSource poll k l) := by
  have hf : fs[k]? = some fs[k] := List.getElem?_eq_getElem hk
  obtain ⟨s', hpoll, htail, hothers⟩ :=
    hserving l.world k fs[k] (h.unpolled k _ (Nat.le_refl k) hf)
  have hunpolled : ∀ i f, k + 1 ≤ i → fs[i]? = some f → serves s' i f := fun i f hi hfi =>
    hothers i f (Nat.ne_of_gt hi) (h.unpolled i f (Nat.le_of_succ_le hi) hfi)
  have hopened : Lane.opened 0 (fs.take (k + 1)) =
      l.sources ++ ((fs[k] 0).map (⟨·, k⟩)).toList := by
    rw [List.take_add_one, hf, Lane.opened_append, h.plays.sources,
      List.length_take_of_le (Nat.le_of_lt hk), Nat.zero_add]
    simp [Lane.opened]
  have hserves : ∀ i f, (fs.take (k + 1))[i]? = some f → f 0 ≠ none → serves s' i f.tail := by
    intro i f hfi hne
    have hi : i < k + 1 := Nat.lt_of_not_le fun hle =>
      nomatch (List.getElem?_take_eq_none hle).symm.trans hfi
    rw [List.getElem?_take_of_lt hi] at hfi
    rcases Nat.lt_succ_iff_lt_or_eq.1 hi with hi | rfl
    · have hopen := h.plays.serves i f (by rwa [List.getElem?_take_of_lt hi]) hne
      exact hothers i _ (Nat.ne_of_lt hi) hopen
    · obtain rfl := Option.some.inj (hf.symm.trans hfi)
      exact htail hne
  simp only [ScanMerge.openSource, hpoll]
  cases hhead : fs[k] 0 with
  | none =>
    rw [hhead] at hopened
    exact ⟨⟨hopened.symm ▸ (List.append_nil _).symm, hserves⟩, hunpolled⟩
  | some a =>
    rw [hhead] at hopened
    exact ⟨⟨hopened.symm, hserves⟩, hunpolled⟩

theorem ScanMerge.exists_openAll {s : σ} (hs : ∀ i f, fs[i]? = some f → serves s i f) :
    ∃ l, ScanMerge.openAll poll fs.length (.ofWorld s) = .ok () l ∧ l.Plays serves fs := by
  have hstart : (ScanMerge.ofWorld s).Opening serves fs 0 :=
    ⟨⟨rfl, fun i f hf => by simp at hf⟩, fun i f _ => hs i f⟩
  have hall := Act.leaves_forM_range fs.length
    (fun k hk (l : ScanMerge α σ) (h : l.Opening serves fs k) => h.openSource hserving hk) hstart
  obtain ⟨_, l, hrun, h⟩ := hall.exists_ok
  have hplays := h.plays
  rw [List.take_length] at hplays
  exact ⟨l, hrun, hplays⟩

/-- A step gives the first item of the merge of the lanes. -/
theorem ScanMerge.Plays.next (cmp : α → α → Ordering) {l : ScanMerge α σ}
    (h : l.Plays serves fs) : ∃ fs' l', ScanMerge.next poll cmp l = .ok (Lane.merge cmp fs 0) l' ∧
      (Lane.merge cmp fs).tail = Lane.merge cmp fs' ∧ l'.Plays serves fs' := by
  rcases Lane.least?_opened cmp 0 fs with
    ⟨hpick, hleast⟩ | ⟨a, j, f, hj, ha, hpick, hleast⟩
  · refine ⟨fs, l, ?_, funext fun n => ?_, h⟩
    · simp only [ScanMerge.next, h.sources, hleast, Lane.merge_of_none hpick]
    · rw [Lane.tail, Lane.merge_of_none hpick, Lane.merge_of_none hpick]
  · rw [Nat.zero_add] at hleast
    have hhead : Lane.merge cmp fs 0 = some a := by rw [Lane.merge_zero, hpick]; rfl
    obtain ⟨s', hpoll, htail, hothers⟩ :=
      hserving l.world j f.tail (h.serves j f hj (ha ▸ Option.some_ne_none a))
    have hserves : ∀ i g, (fs.set j f.tail)[i]? = some g → g 0 ≠ none → serves s' i g.tail := by
      intro i g hg hne
      rw [List.getElem?_set] at hg
      split at hg
      · rename_i hij
        subst hij
        split at hg
        · obtain rfl := Option.some.inj hg
          exact htail hne
        · cases hg
      · rename_i hij
        exact hothers i _ (Ne.symm hij) (h.serves i g hg hne)
    have hsources := Lane.readOn_opened hj ha f.tail 0
    rw [Nat.zero_add] at hsources
    refine ⟨fs.set j f.tail, ⟨_, s'⟩, ?_, Lane.tail_merge hpick, hsources, hserves⟩
    simp only [ScanMerge.next, h.sources, hleast, hpoll, hhead]
    cases f.tail 0 <;> rfl

end Serving

namespace Merge

/-- The merge holds the first items of the lanes, and its sources serve what follows these. -/
def Plays (cmp : α → α → Ordering) (serves : σ → Nat → Lane α → Prop) (fs : List (Lane α))
    (m : Merge α (σ × τ)) : Prop :=
  ∃ l, Simulates cmp m l ∧ l.Plays serves fs

/-- A merge whose sources have been opened, unless one of these gives up. -/
def opening (inputs : MergeInputs α σ) (count : Nat) (world : σ) : Except Fault (Merge α σ) :=
  match openAll inputs count (.ofWorld world) with
  | .ok () m => .ok m
  | .error e _ => .error e

/-- The answers to a number of calls. -/
def answers (inputs : MergeInputs α σ) (n : Nat) (m : Merge α σ) : List (Answer α) :=
  (Act.attemptAll (List.replicate n (next inputs)) m).1

/-- Asks one of several merges for its next item; a merge that is not there has ended. -/
def nextAt (inputs : MergeInputs α σ) (i : Nat) : Act (Array (Merge α σ)) (Option α) := fun ms =>
  match ms[i]? with
  | none => .ok none ms
  | some m =>
    match next inputs m with
    | .ok x m' => .ok x (ms.setIfInBounds i m')
    | .error e m' => .error e (ms.setIfInBounds i m')

/-- The merge with the number is one of lanes whose merge is the lane. -/
def Serves (cmp : α → α → Ordering) (serves : σ → Nat → Lane α → Prop)
    (ms : Array (Merge α (σ × τ))) (i : Nat) (f : Lane α) : Prop :=
  ∃ (m : Merge α (σ × τ)) (fs : List (Lane α)),
    ms[i]? = some m ∧ Plays cmp serves fs m ∧ f = Lane.merge cmp fs

section Plays

variable [TransCmp cmp] {order : Comparator α τ} (horder : order.Answers cmp)
  {poll : Nat → Act σ (Option α)} {serves : σ → Nat → Lane α → Prop}
  (hserving : Serving poll serves) {fs : List (Lane α)}

include horder hserving

theorem exists_opening {s : σ} (hs : ∀ i f, fs[i]? = some f → serves s i f) (t : τ) :
    ∃ m, opening (.apart poll order) fs.length (s, t) = .ok m ∧ Plays cmp serves fs m := by
  obtain ⟨l, hrun, hplays⟩ := ScanMerge.exists_openAll hserving hs
  have hopen := simulates_openAll horder poll fs.length s t
  rw [hrun] at hopen
  obtain ⟨m, hm, hsim⟩ := hopen.exists_ok
  exact ⟨m, by rw [opening, hm], l, hsim, hplays⟩

/-- A step gives the first item of the merge of the lanes. -/
theorem Plays.next {m : Merge α (σ × τ)} (h : Plays cmp serves fs m) :
    ∃ fs' m', next (.apart poll order) m = .ok (Lane.merge cmp fs 0) m' ∧
      (Lane.merge cmp fs).tail = Lane.merge cmp fs' ∧ Plays cmp serves fs' m' := by
  obtain ⟨l, hsim, hplays⟩ := h
  obtain ⟨fs', l', hrun, htail, hplays'⟩ := hplays.next hserving cmp
  have hstep := simulates_next horder poll m l hsim
  rw [hrun] at hstep
  obtain ⟨m', hm', hsim'⟩ := hstep.exists_ok
  exact ⟨fs', m', hm', htail, l', hsim', hplays'⟩

/-- A run gives the merge of the lanes. -/
theorem Plays.answers {m : Merge α (σ × τ)} (h : Plays cmp serves fs m) (n : Nat) :
    Merge.answers (.apart poll order) n m = (Lane.merge cmp fs).answers n := by
  induction n generalizing fs m with
  | zero => rfl
  | succ n ih =>
    obtain ⟨fs', m', hnext, htail, h'⟩ := h.next horder hserving
    have hrest := ih h'
    rw [← htail] at hrest
    have hcons : (Lane.merge cmp fs).answers (n + 1) =
        .ok (Lane.merge cmp fs 0) :: (Lane.merge cmp fs).tail.answers n := by
      rw [Lane.answers, List.range_succ_eq_map, List.map_cons, List.map_map]
      rfl
    rw [hcons, ← hrest, Merge.answers, List.replicate_succ, Act.attemptAll]
    simp only [Act.attempt, hnext]
    rfl

/-- Merges serve the merges of the lanes that their sources serve. -/
theorem serving_nextAt : Serving (nextAt (.apart poll order)) (Serves cmp serves) := by
  rintro ms i _ ⟨m, fs, hm, hplays, rfl⟩
  obtain ⟨fs', m', hnext, htail, hplays'⟩ := hplays.next horder hserving
  have hi : i < ms.size := (Array.getElem?_eq_some_iff.1 hm).1
  refine ⟨ms.setIfInBounds i m', by simp only [nextAt, hm, hnext], fun _ => ?_, ?_⟩
  · exact ⟨m', fs', by simp [hi], hplays', htail⟩
  · rintro j g hj ⟨m₁, gs, hm₁, hplays₁, rfl⟩
    exact ⟨m₁, gs, by rw [Array.getElem?_setIfInBounds_ne (Ne.symm hj), hm₁], hplays₁, rfl⟩

end Plays

end Merge

/-! ## Sources of their own -/

namespace Source

variable {s : Source α}

theorem hasItem_zero (s : Source α) : s.hasItem 0 = (s.lane 0).isSome := by
  rw [hasItem, lane, replay]
  rcases s.answer 0 with e | x
  · rfl
  · cases x <;> rfl

namespace Unfailing

variable (h : s.Unfailing)

include h

/-- Up to its end the source has been replayed by its answers. -/
theorem replay_cases (k : Nat) :
    (∃ items, items.length = k ∧ s.Starts items ∧ s.replay k = s.answer k) ∨
    s.replay k = .ok none := by
  induction k with
  | zero => exact .inl ⟨[], rfl, fun _ hk => absurd hk (Nat.not_lt_zero _), rfl⟩
  | succ k ih =>
    rcases ih with ⟨items, rfl, hstarts, hreplay⟩ | hend
    · rcases hanswer : s.answer items.length with e | _ | a
      · exact absurd hanswer (h items e hstarts)
      · exact .inr (by rw [replay, hreplay, hanswer])
      · exact .inl ⟨items ++ [a], by simp, hstarts.concat hanswer,
          s.replay_succ_of_item (hreplay.trans hanswer)⟩
    · exact .inr (by rw [replay, hend])

theorem replay_eq (k : Nat) : s.replay k = .ok (s.lane k) := by
  rw [lane]
  rcases h.replay_cases k with ⟨items, rfl, hstarts, hreplay⟩ | hend
  · rw [hreplay]
    rcases hanswer : s.answer items.length with e | x
    · exact absurd hanswer (h items e hstarts)
    · rfl
  · rw [hend]
    rfl

theorem fused_lane : s.lane.Fused := by
  intro k hk
  have hend : s.replay k = .ok none := (h.replay_eq k).trans (congrArg _ hk)
  rw [lane, replay, hend]
  rfl

end Unfailing

end Source

/-- Sources without an item may be left out. -/
theorem Lane.merge_map_lane [TransCmp cmp] {sources : List (Source α)}
    (hsources : ∀ s ∈ sources, s.Unfailing) :
    Lane.merge cmp (sources.map Source.lane) =
      Lane.merge cmp ((sources.filter (·.hasItem 0)).map Source.lane) := by
  have hfused : ∀ f ∈ sources.map Source.lane, f.Fused := fun f hf => by
    obtain ⟨s, hs, rfl⟩ := List.mem_map.1 hf
    exact (hsources s hs).fused_lane
  rw [← Lane.merge_filter hfused, List.filter_map]
  simp only [Function.comp_def, Source.hasItem_zero]

/-- The source has been polled up to the lane, and goes on with it. -/
def Counted.Serves (cs : Array (Counted α)) (i : Nat) (f : Lane α) : Prop :=
  ∃ (s : Source α) (polls : Nat), cs[i]? = some ⟨s, polls⟩ ∧ s.Unfailing ∧
    s.replay polls = s.answer polls ∧ f = fun k => s.lane (polls + k)

theorem serving_pollAt : Serving (Counted.pollAt (α := α)) Counted.Serves := by
  rintro cs i _ ⟨s, polls, hc, hs, hreplay, rfl⟩
  have hanswer : s.answer polls = .ok (s.lane polls) := hreplay ▸ hs.replay_eq polls
  refine ⟨_, by rw [Counted.pollAt_eq hc, hanswer]; rfl, fun hsome => ?_, fun j g hj hg => ?_⟩
  · obtain ⟨a, ha⟩ := Option.ne_none_iff_exists'.1 hsome
    refine ⟨s, polls + 1, by simp [Array.getElem?_modify, hc], hs, ?_, funext fun k => ?_⟩
    · exact s.replay_succ_of_item ((hs.replay_eq polls).trans (congrArg _ ha))
    · rw [Lane.tail, Nat.add_right_comm, Nat.add_assoc]
  · obtain ⟨s', polls', hc', hrest⟩ := hg
    exact ⟨s', polls', by rw [Array.getElem?_modify, if_neg (Ne.symm hj), hc'], hrest⟩

namespace Merge

/-- A merge of sources that have not been polled. -/
def atOnce (order : Comparator α τ) (t : τ) (sources : List (Source α)) :
    Except Fault (Merge α (Array (Counted α) × τ)) :=
  opening (.ofCounted order) sources.length ((sources.map Counted.ofSource).toArray, t)

/-- A merge of merges, one for each group of sources, which are opened first. -/
def inGroups (order : Comparator α τ) (t : τ) (order' : Comparator α ρ) (t' : ρ)
    (groups : List (List (Source α))) :
    Except Fault (Merge α (Array (Merge α (Array (Counted α) × τ)) × ρ)) := do
  let merges ← groups.mapM (atOnce order t)
  opening (.apart (nextAt (.ofCounted order)) order') merges.length (merges.toArray, t')

section Answers

variable [TransCmp cmp] {order : Comparator α τ} (horder : order.Answers cmp) (t : τ)

include horder

theorem exists_atOnce {sources : List (Source α)} (hsources : ∀ s ∈ sources, s.Unfailing) :
    ∃ m, atOnce order t sources = .ok m ∧
      Plays cmp Counted.Serves (sources.map Source.lane) m := by
  have hserves : ∀ i f, (sources.map Source.lane)[i]? = some f →
      Counted.Serves (sources.map Counted.ofSource).toArray i f := by
    intro i f hf
    rw [List.getElem?_map] at hf
    obtain ⟨s, hs, rfl⟩ := Option.map_eq_some_iff.1 hf
    refine ⟨s, 0, ?_, hsources s (List.mem_of_getElem? hs), rfl, ?_⟩
    · rw [List.getElem?_toArray, List.getElem?_map, hs]
      rfl
    · simp only [Nat.zero_add]
  have hopen := exists_opening horder serving_pollAt hserves t
  rwa [List.length_map] at hopen

theorem answers_atOnce {sources : List (Source α)} (hsources : ∀ s ∈ sources, s.Unfailing)
    (n : Nat) : (atOnce order t sources).map (answers (.ofCounted order) n) =
      .ok ((Lane.merge cmp (sources.map Source.lane)).answers n) := by
  obtain ⟨m, hm, hplays⟩ := exists_atOnce horder t hsources
  rw [hm]
  exact congrArg Except.ok (hplays.answers horder serving_pollAt n)

theorem exists_mapM_atOnce {groups : List (List (Source α))}
    (hgroups : ∀ sources ∈ groups, ∀ s ∈ sources, s.Unfailing) :
    ∃ ms, groups.mapM (atOnce order t) = .ok ms ∧ List.Forall₂ (fun sources m =>
      Plays cmp Counted.Serves (sources.map Source.lane) m) groups ms := by
  induction groups with
  | nil => exact ⟨[], rfl, .nil⟩
  | cons sources groups ih =>
    obtain ⟨m, hm, hplays⟩ := exists_atOnce horder t (hgroups sources List.mem_cons_self)
    obtain ⟨ms, hms, hall⟩ := ih fun sources h => hgroups sources (List.mem_cons_of_mem _ h)
    refine ⟨m :: ms, ?_, .cons hplays hall⟩
    rw [List.mapM_cons, hm, hms]
    rfl

theorem answers_inGroups {order' : Comparator α ρ} (horder' : order'.Answers cmp) (t' : ρ)
    {groups : List (List (Source α))} (hgroups : ∀ sources ∈ groups, ∀ s ∈ sources, s.Unfailing)
    (n : Nat) : (inGroups order t order' t' groups).map
        (answers (.apart (nextAt (.ofCounted order)) order') n) =
      .ok ((Lane.merge cmp (groups.flatten.map Source.lane)).answers n) := by
  obtain ⟨ms, hms, hall⟩ := exists_mapM_atOnce horder t hgroups
  have hserving : Serving (nextAt (.ofCounted order)) (Serves cmp Counted.Serves) :=
    serving_nextAt horder serving_pollAt
  have hserves : ∀ i f, (groups.map fun g => Lane.merge cmp (g.map Source.lane))[i]? = some f →
      Serves cmp Counted.Serves ms.toArray i f := by
    intro i f hf
    rw [List.getElem?_map] at hf
    obtain ⟨g, hg, rfl⟩ := Option.map_eq_some_iff.1 hf
    obtain ⟨hi, rfl⟩ := List.getElem?_eq_some_iff.1 hg
    have hi' : i < ms.length := hall.length_eq ▸ hi
    exact ⟨ms[i], _, by simp [hi'], hall.get hi hi', rfl⟩
  obtain ⟨m, hm, hplays⟩ := exists_opening horder' hserving hserves t'
  rw [List.length_map, hall.length_eq] at hm
  have hlanes : (groups.map fun g => Lane.merge cmp (g.map Source.lane)) =
      (groups.map (List.map Source.lane)).map (Lane.merge cmp) := by
    rw [List.map_map]
    rfl
  have hanswers := hplays.answers horder' hserving n
  rw [hlanes, Lane.merge_groups, ← List.map_flatten] at hanswers
  rw [← hanswers]
  simp only [inGroups, hms]
  show Except.map _ (opening _ _ _) = _
  rw [hm]
  rfl

end Answers

/-- What merging in groups comes to, item by item, for sources that do not give up. -/
structure MergesInGroups (cmp : α → α → Ordering) (order : Comparator α τ)
    (order' : Comparator α ρ) (t : τ) (t' : ρ) : Prop where
  /-- Merging the merges of groups of sources is merging all the sources at once. -/
  flat : ∀ groups : List (List (Source α)), (∀ sources ∈ groups, ∀ s ∈ sources, s.Unfailing) →
    ∀ n, (inGroups order t order' t' groups).map
        (answers (.apart (nextAt (.ofCounted order)) order') n) =
      (atOnce order t groups.flatten).map (answers (.ofCounted order) n)
  /-- Merging sources gives the merge of what they give. -/
  lanes : ∀ sources : List (Source α), (∀ s ∈ sources, s.Unfailing) → ∀ n,
    (atOnce order t sources).map (answers (.ofCounted order) n) =
      .ok ((Lane.merge cmp (sources.map Source.lane)).answers n)
  /-- Merging one source gives that source. -/
  single : ∀ s : Source α, s.Unfailing → ∀ n,
    (atOnce order t [s]).map (answers (.ofCounted order) n) = .ok ((List.range n).map s.replay)
  /-- Empty sources may be anywhere among the others. -/
  empties : ∀ sources sources' : List (Source α), (∀ s ∈ sources, s.Unfailing) →
    (∀ s ∈ sources', s.Unfailing) →
    sources.filter (·.hasItem 0) = sources'.filter (·.hasItem 0) → ∀ n,
    (atOnce order t sources).map (answers (.ofCounted order) n) =
      (atOnce order t sources').map (answers (.ofCounted order) n)

end Merge

/-- Merging the merges of groups of sources gives what merging all the sources at once gives, item
by item. Merging one source gives that source, and sources that are empty may be anywhere among the
others. -/
theorem merge_in_groups [TransCmp cmp] {order : Comparator α τ} {order' : Comparator α ρ}
    (horder : order.Answers cmp) (horder' : order'.Answers cmp) (t : τ) (t' : ρ) :
    Merge.MergesInGroups cmp order order' t t' where
  flat groups hgroups n := by
    rw [Merge.answers_inGroups horder t horder' t' hgroups,
      Merge.answers_atOnce horder t (List.forall_mem_flatten.2 hgroups)]
  lanes sources hsources n := Merge.answers_atOnce horder t hsources n
  single s hs n := by
    have hsource : ∀ s' ∈ [s], s'.Unfailing := fun s' hs' => List.mem_singleton.1 hs' ▸ hs
    rw [Merge.answers_atOnce horder t hsource, List.map_singleton,
      Lane.merge_singleton cmp hs.fused_lane]
    exact congrArg Except.ok (List.map_congr_left fun k _ => (hs.replay_eq k).symm)
  empties sources sources' h h' hfilter n := by
    rw [Merge.answers_atOnce horder t h, Merge.answers_atOnce horder t h', Lane.merge_map_lane h,
      Lane.merge_map_lane h', hfilter]

open Merge MergeSession in
theorem merge_in_groups_of_lists :
    let order : Comparator (Nat × Char) _ := noted fun a b => .ok (compareOn Prod.fst a b)
    let groups := [[.ofList [(4, 'a'), (1, 'a')], .ofList []], [],
      [.ofScript [.item (4, 'b'), .item (5, 'b'), .stop, .item (0, 'b')], .ofList [(1, 'c')]]]
    order.Answers (compareOn Prod.fst) ∧ (∀ sources ∈ groups, ∀ s ∈ sources, s.Unfailing) ∧
      (∀ n, (inGroups order #[] order #[] groups).map
          (answers (.apart (nextAt (.ofCounted order)) order) n) =
        (atOnce order #[] groups.flatten).map (answers (.ofCounted order) n)) ∧
      (inGroups order #[] order #[] groups).map
          (answers (.apart (nextAt (.ofCounted order)) order) 6) =
        .ok [.ok (some (1, 'c')), .ok (some (4, 'a')), .ok (some (1, 'a')), .ok (some (4, 'b')),
          .ok (some (5, 'b')), .ok none] := by
  intro order groups
  have horder : order.Answers (compareOn Prod.fst) := answers_noted _
  have hlist : ∀ items : List (Nat × Char), (Source.ofList items).Unfailing := fun items =>
    (Source.gives_ofList items).unfailing
  have hscript : (Source.ofScript
      [.item (4, 'b'), .item (5, 'b'), .stop, .item (0, 'b')]).Unfailing := by
    intro items e _
    rcases items.length with _ | _ | _ | _ | k <;> nofun
  have hgroups : ∀ sources ∈ groups, ∀ s ∈ sources, s.Unfailing := by
    intro sources hsources s hs
    simp only [groups, List.mem_cons, List.not_mem_nil, or_false] at hsources
    rcases hsources with rfl | rfl | rfl
    · simp only [List.mem_cons, List.not_mem_nil, or_false] at hs
      rcases hs with rfl | rfl <;> exact hlist _
    · cases hs
    · simp only [List.mem_cons, List.not_mem_nil, or_false] at hs
      rcases hs with rfl | rfl
      · exact hscript
      · exact hlist _
  have hmerges := merge_in_groups horder horder #[] #[]
  have hflat := hmerges.flat groups hgroups
  refine ⟨horder, hgroups, hflat, (hflat 6).trans ?_⟩
  exact (hmerges.lanes _ (List.forall_mem_flatten.2 hgroups) 6).trans rfl

end Streamkit
