import Mathlib.Data.Finset.Lattice.Fold
import Streamkit.Proofs.Memo.Demand
import Streamkit.Proofs.Merge.Conservation
import Streamkit.Proofs.Merge.StableSort

/-!
# Merging memos

A merge of memos is the merge of the sequences that they replay, whatever was read of them before,
and it demands of each memo one item more than it has given of it. `Shelf.Demanded` says where the
demands on a shelf come from: they were there before, or a reading has made them, or a mapped memo
passes them on. `Shelf.Peeks` relates the readings of a merge to plain sources that are polled as
often. What this means for a session is `MemoSession.merge_rereads_nothing`. Under a total preorder
the items come as the linear scan gives them, which is the stable sort of ascending sequences:
`MemoSession.merges_in_order`.
-/

open Finset

namespace Streamkit

open Act

variable {α τ : Type}

/-- The origin is memo `i`. -/
def MemoOrigin.maps (i : Nat) : MemoOrigin α → Bool
  | .mapped parent _ => parent == i
  | .source _ => false

/-- The most polls of a memo that maps memo `i`: as many positions it demands of `i`. -/
def MemoStore.passedOn (s : MemoStore α) (i : Nat) : Nat :=
  (univ.filter fun c : Fin s.memos.size => s.memos[c].origin.maps i).sup fun c => s.memos[c].polls

/-- The positions that a merge of memos demands of memo `i`, when it has given `given`: in each
place one more than it has given. -/
def askedOf (memos : List Nat) (given : List (OpenSource α)) (i : Nat) : Nat :=
  (univ.filter fun j : Fin memos.length => memos[j] = i).sup fun j => (headsOf j given).length + 1

theorem le_askedOf {memos : List Nat} {given : List (OpenSource α)} {i j : Nat}
    (hj : memos[j]? = some i) : (headsOf j given).length + 1 ≤ askedOf memos given i := by
  obtain ⟨hlt, hi⟩ := List.getElem?_eq_some_iff.1 hj
  exact le_sup (s := univ.filter fun j : Fin memos.length => memos[j] = i)
    (f := fun j => (headsOf j given).length + 1) (b := ⟨j, hlt⟩) (by simpa using hi)

theorem askedOf_le {memos : List Nat} {given : List (OpenSource α)} {i d : Nat}
    (h : ∀ j, memos[j]? = some i → (headsOf j given).length + 1 ≤ d) :
    askedOf memos given i ≤ d := by
  refine Finset.sup_le fun j hj => h j ?_
  have hi : memos[j] = i := (mem_filter.1 hj).2
  rw [← hi]
  exact List.getElem?_eq_getElem j.isLt

namespace MemoStore

variable {s : MemoStore α} {c i d : Nat}

theorem maps_iff {o : MemoOrigin α} : o.maps i ↔ ∃ f, o = .mapped i f := by
  cases o with
  | source s => simp [MemoOrigin.maps]
  | mapped parent f => simp [MemoOrigin.maps]

theorem le_passedOn {m : Memo α} (hm : s.memos[c]? = some m) {f : α → Except Fault α}
    (ho : m.origin = .mapped i f) : m.polls ≤ s.passedOn i := by
  obtain ⟨hlt, rfl⟩ := Array.getElem?_eq_some_iff.1 hm
  exact le_sup (s := univ.filter fun c : Fin s.memos.size => s.memos[c].origin.maps i)
    (f := fun c => s.memos[c].polls) (b := ⟨c, hlt⟩) (by simpa using maps_iff.2 ⟨f, ho⟩)

theorem passedOn_le (h : ∀ (c : Nat) (m : Memo α) (f : α → Except Fault α),
    s.memos[c]? = some m → m.origin = .mapped i f → m.polls ≤ d) : s.passedOn i ≤ d := by
  refine Finset.sup_le fun c hc => ?_
  obtain ⟨f, ho⟩ := maps_iff.1 (mem_filter.1 hc).2
  exact h c _ f (Array.getElem?_eq_getElem c.isLt) ho

theorem passedOn_eq_zero (h : ∀ m ∈ s.memos, ¬ m.origin.maps i) : s.passedOn i = 0 :=
  Nat.le_zero.1 <| passedOn_le fun _ m f hm ho =>
    absurd (maps_iff.2 ⟨f, ho⟩) (h m (Array.mem_of_getElem? hm))

end MemoStore

namespace Shelf

variable {w₀ w w' : Shelf α} {i d : Nat}

/-- What sequence `i` replays, as a source. -/
def sequence (w : Shelf α) (i : Nat) : Source α where
  answer k :=
    match w[i]? with
    | none => .ok none
    | some r => r.source.replay k
  hint _ := ⟨0, none⟩

theorem answer_sequence {r : Replayed α} (hr : w[i]? = some r) :
    (w.sequence i).answer = r.source.replay := by
  simp only [sequence, hr]

theorem Grows.sequence (h : Grows w w') (hi : i < w.size) : w'.sequence i = w.sequence i := by
  obtain ⟨d, -, hr⟩ := h i w[i] (Array.getElem?_eq_getElem hi)
  simp only [Shelf.sequence, hr, Array.getElem?_eq_getElem hi]

/-- A demand reaches the sequence that it is on, and what its polls are demands on. -/
theorem raise_cases (w : Shelf α) (i d : Nat) : ∀ {k : Nat} {r' : Replayed α},
    (w.raise i d)[k]? = some r' →
      (∃ r, w[k]? = some r ∧ r'.demand ≤ r.demand) ∨ k = i ∧ r'.demand ≤ d ∨
      ∃ c ≤ i, ∃ q f, (w.raise i d)[c]? = some q ∧ q.origin = .mapped k f ∧
        r'.demand ≤ q.source.pollsWithin q.demand := by
  have hmodify : ∀ (w : Shelf α) (i d : Nat) {k : Nat} {r' : Replayed α},
      (w.modify i (·.raise d))[k]? = some r' →
        (∃ r, w[k]? = some r ∧ r'.demand ≤ r.demand) ∨ k = i ∧ r'.demand ≤ d := by
    intro w i d k r' hr'
    rw [Array.getElem?_modify] at hr'
    split at hr'
    · rename_i hik
      obtain ⟨r, hr, rfl⟩ := Option.map_eq_some_iff.1 hr'
      rcases Nat.le_total r.demand d with hle | hle
      · exact .inr ⟨hik.symm, Nat.le_of_eq (Nat.max_eq_right hle)⟩
      · exact .inl ⟨r, hr, Nat.le_of_eq (Nat.max_eq_left hle)⟩
    · exact .inl ⟨r', hr', Nat.le_refl _⟩
  fun_induction raise i d w with
  | case1 => exact fun hr' => .inl ⟨_, hr', Nat.le_refl _⟩
  | case2 i => exact fun hr' => (hmodify _ i _ hr').imp_right .inl
  | case4 i => exact fun hr' => (hmodify _ i _ hr').imp_right .inl
  | case3 i d r hr parent f ho hlt ih =>
    intro k r' hr'
    rcases hmodify _ i _ hr' with ⟨r₁, hr₁, hle⟩ | ⟨rfl, hle⟩
    · rcases ih hr₁ with ⟨r₂, hr₂, hle₂⟩ | ⟨rfl, hle₂⟩ | ⟨c, hc, q, g, hq, hg, hle₂⟩
      · exact .inl ⟨r₂, hr₂, hle.trans hle₂⟩
      -- the parent's demand comes from the polls of `i` itself
      · refine .inr (.inr ⟨i, Nat.le_refl _, r.raise d, f, ?_, ho, hle.trans hle₂⟩)
        rw [Array.getElem?_modify, if_pos rfl, getElem?_raise_of_lt hlt, hr]
        rfl
      · refine .inr (.inr ⟨c, hc.trans (Nat.le_of_lt hlt), q, g, ?_, hg, hle.trans hle₂⟩)
        rw [Array.getElem?_modify, if_neg (by omega), hq]
    · exact .inr (.inl ⟨rfl, hle⟩)

/-- The demands have come from `w₀`, from the readings, and from the polls of mapped memos. -/
structure Demanded (w₀ : Shelf α) (readings : Array Reading) (w : Shelf α) : Prop where
  sound : w.Sound
  grown : Grows w₀ w
  asked : ∀ (j : Nat) (rd : Reading), readings[j]? = some rd → ∃ r, rd.Of w r
  origin : ∀ (k : Nat) (r : Replayed α), w[k]? = some r →
    (∃ r₀, w₀[k]? = some r₀ ∧ r.demand ≤ r₀.demand) ∨
    (∃ (j : Nat) (rd : Reading), readings[j]? = some rd ∧ rd.memo = k ∧ r.demand ≤ rd.calls) ∨
    ∃ (c : Nat) (q : Replayed α) (f : α → Except Fault α), w[c]? = some q ∧
      q.origin = .mapped k f ∧ r.demand ≤ q.source.pollsWithin q.demand

/-- A call of a reading is a demand. -/
theorem Demanded.called {readings : Array Reading} (h : Demanded w₀ readings w) {j : Nat}
    {rd : Reading} (hrd : readings[j]? = some rd) :
    Demanded w₀ (readings.setIfInBounds j rd.called) (w.raise rd.memo (rd.calls + 1)) := by
  have hgrows := grows_raise w rd.memo (rd.calls + 1)
  have hsize := (Array.getElem?_eq_some_iff.1 hrd).1
  have hset : ∀ j', (readings.setIfInBounds j rd.called)[j']? =
      if j = j' then some rd.called else readings[j']? := fun j' => by
    rw [Array.getElem?_setIfInBounds, if_pos hsize]
  refine ⟨h.sound.raise _ _, h.grown.trans hgrows, fun j' rd' hrd' => ?_, fun k r' hr' => ?_⟩
  · rw [hset] at hrd'
    split at hrd'
    · obtain ⟨r, hr⟩ := h.asked j rd hrd
      obtain rfl := Option.some.inj hrd'
      exact ⟨_, hr.called⟩
    · obtain ⟨r, hr⟩ := h.asked j' rd' hrd'
      obtain ⟨d, hr'⟩ := hr.grows hgrows
      exact ⟨_, hr'⟩
  · rcases raise_cases w _ _ hr' with ⟨r, hr, hle⟩ | ⟨rfl, hle⟩ | ⟨c, -, q, f, hq, hf, hle⟩
    · rcases h.origin k r hr with ⟨r₀, hr₀, hle₀⟩ | ⟨j', rd', hrd', hk, hle'⟩ |
        ⟨c, q, f, hq, hf, hle'⟩
      · exact .inl ⟨r₀, hr₀, hle.trans hle₀⟩
      · refine .inr (.inl ?_)
        by_cases hj : j = j'
        · subst hj
          obtain rfl := Option.some.inj (hrd.symm.trans hrd')
          exact ⟨j, rd.called, by rw [hset, if_pos rfl], hk, (hle.trans hle').trans (Nat.le_succ _)⟩
        · exact ⟨j', rd', by rw [hset, if_neg hj, hrd'], hk, hle.trans hle'⟩
      · obtain ⟨d, hd, hq'⟩ := hgrows c q hq
        have hpolls := q.source.pollsWithin_mono hd
        exact .inr (.inr ⟨c, _, f, hq', hf, (hle.trans hle').trans hpolls⟩)
    · exact .inr (.inl ⟨j, rd.called, by rw [hset, if_pos rfl], rfl, hle⟩)
    · exact .inr (.inr ⟨c, q, f, hq, hf, hle⟩)

theorem demanded_start (hw : w₀.Sound) {memos : List Nat} (hmemos : ∀ i ∈ memos, i < w₀.size) :
    Demanded w₀ (memos.map Reading.start).toArray w₀ where
  sound := hw
  grown := .refl _
  asked j rd hrd := by
    rw [List.getElem?_toArray, List.getElem?_map] at hrd
    obtain ⟨i, hi, rfl⟩ := Option.map_eq_some_iff.1 hrd
    have hlt := hmemos i (List.mem_of_getElem? hi)
    exact ⟨_, Array.getElem?_eq_getElem hlt, Nat.zero_le _⟩
  origin k r hr := .inl ⟨r, hr, Nat.le_refl _⟩

/-! ## Merges of readings -/

/-- The readings have been called as often as the plain sources have been polled. -/
structure Peeks (w₀ : Shelf α) (memos : List Nat) (p : Array Reading × Shelf α)
    (q : Array (Counted α) × τ) : Prop where
  demanded : Demanded w₀ p.1 p.2
  same : ∀ (j i : Nat), memos[j]? = some i →
    ∃ calls, p.1[j]? = some ⟨i, calls⟩ ∧ q.1[j]? = some ⟨w₀.sequence i, calls⟩
  beyond : ∀ j : Nat, memos[j]? = none → p.1[j]? = none ∧ q.1[j]? = none

theorem refines_peeks (w₀ : Shelf α) {memos : List Nat} (hmemos : ∀ i ∈ memos, i < w₀.size)
    (verdict : α → α → Ordering) :
    (ReplaySession.mergeInputs fun a b => .ok (verdict a b)).Refines (· = ·)
      (Peeks w₀ memos (τ := τ)) (.ofCounted (.ofCompare verdict)) where
  order a b := fun p q h => ⟨rfl, h⟩
  poll j := by
    rintro ⟨readings, w⟩ ⟨cs, t⟩ h
    simp only [ReplaySession.mergeInputs, MergeInputs.ofCounted, onFst]
    cases hj : memos[j]? with
    | none =>
      obtain ⟨hreadings, hcs⟩ := h.beyond j hj
      have hpoll : Counted.pollAt j cs = .ok none cs := by
        rw [Counted.pollAt, dif_neg (Nat.not_lt_of_ge (Array.getElem?_eq_none_iff.1 hcs))]
      simp only at hreadings
      rw [hreadings, hpoll]
      exact ⟨rfl, h⟩
    | some i =>
      obtain ⟨calls, hreadings, hcs⟩ := h.same j i hj
      simp only at hreadings hcs
      obtain ⟨r, hr⟩ := h.demanded.asked j _ hreadings
      have hanswer : (w₀.sequence i).answer calls = r.source.replay calls := by
        rw [← h.demanded.grown.sequence (hmemos i (List.mem_of_getElem? hj)),
          answer_sequence hr.1]
      have hnext : Peeks w₀ memos
          (readings.setIfInBounds j ⟨i, calls + 1⟩, w.raise i (calls + 1))
          (cs.modify j fun c => { c with polls := c.polls + 1 }, t) := by
        refine ⟨h.demanded.called hreadings, fun j' i' hj' => ?_, fun j' hj' => ?_⟩
        · obtain ⟨calls', hreadings', hcs'⟩ := h.same j' i' hj'
          simp only at hreadings' hcs' ⊢
          rw [Array.getElem?_modify, Array.getElem?_setIfInBounds, hcs', hreadings']
          by_cases hne : j = j'
          · subst hne
            obtain rfl : i = i' := Option.some.inj (hj.symm.trans hj')
            obtain ⟨-, rfl⟩ : i = i ∧ calls = calls' := by simpa [hreadings] using hreadings'
            have hsize := (Array.getElem?_eq_some_iff.1 hreadings).1
            exact ⟨calls + 1, by rw [if_pos rfl, if_pos hsize], by rw [if_pos rfl]; rfl⟩
          · exact ⟨calls', by rw [if_neg hne], by rw [if_neg hne]⟩
        · obtain ⟨hreadings', hcs'⟩ := h.beyond j' hj'
          have hne : j ≠ j' := fun e => by
            rw [e, hj'] at hj
            cases hj
          simp only at hreadings' hcs' ⊢
          rw [Array.getElem?_modify, Array.getElem?_setIfInBounds, if_neg hne, if_neg hne]
          exact ⟨hreadings', hcs'⟩
      simp only [hreadings, Reading.next_eq hr, Counted.pollAt_eq hcs, hanswer]
      cases r.source.replay calls <;> exact ⟨rfl, hnext⟩

theorem peeks_start (hw : w₀.Sound) {memos : List Nat} (hmemos : ∀ i ∈ memos, i < w₀.size)
    (t : τ) : Peeks w₀ memos ((memos.map Reading.start).toArray, w₀)
      (((memos.map w₀.sequence).map Counted.ofSource).toArray, t) where
  demanded := demanded_start hw hmemos
  same j i hi := by
    simp only [List.getElem?_toArray, List.getElem?_map, hi]
    exact ⟨0, rfl, rfl⟩
  beyond j hj := by simp [hj]

variable {memos : List Nat} {verdict : α → α → Ordering} {given : List (OpenSource α)} {n : Nat}

/-- The plain merge of sequences that do not fail. -/
theorem exists_given (hfail : ∀ i ∈ memos, ∀ k e, (w.sequence i).answer k ≠ .error e)
    (verdict : α → α → Ordering) (n : Nat) : ∃ m₀ given,
    Merge.openAll (.ofCounted (.ofCompare verdict)) memos.length
      (.ofWorld (((memos.map w.sequence).map Counted.ofSource).toArray, ())) = .ok () m₀ ∧
    given.length ≤ n ∧
    Act.Gives (Merge.nextFrom (.ofCounted (.ofCompare verdict))) (fun m =>
      Merge.Accounts (memos.map w.sequence) memos.length given m ∧
        (given.length < n → m.heap.toList = [])) given m₀ ∧
    ∃ m, attemptAfter (Merge.openAll (.ofCounted (.ofCompare verdict)) memos.length)
      (Merge.nextFrom (.ofCounted (.ofCompare verdict))) n
      (.ofWorld (((memos.map w.sequence).map Counted.ofSource).toArray, ())) =
        .ok (answers given n) m := by
  have hsources : ∀ s ∈ memos.map w.sequence, s.Unfailing := by
    intro s hs
    obtain ⟨i, hi, rfl⟩ := List.mem_map.1 hs
    exact fun items e _ => hfail i hi items.length e
  have hreturns : (Comparator.ofCompare verdict : Comparator α Unit).Returns :=
    fun a b t => ⟨_, t, rfl⟩
  obtain ⟨m₀, given, hopen, hlength, hgives⟩ := Merge.exists_gives hreturns hsources () n
  rw [List.length_map] at hopen hgives
  obtain ⟨m, -, hall⟩ :=
    hgives.attemptAll hlength fun hlt m' h' => Merge.nextFrom_of_nil (h'.2 hlt)
  exact ⟨m₀, given, hopen, hlength, hgives, m, by simp only [attemptAfter, hopen, hall]⟩

/-- The readings that a merge of memos has made when it has given `given`. -/
structure ReadAhead (memos : List Nat) (given : List (OpenSource α)) (readings : Array Reading) :
    Prop where
  reading : ∀ j i : Nat, memos[j]? = some i →
    readings[j]? = some ⟨i, (headsOf j given).length + 1⟩
  beyond : ∀ j : Nat, memos[j]? = none → readings[j]? = none

/-- Whatever was read before, a merge of readings gives the items of the plain merge, and demands
of each memo one item more than it has given. -/
theorem mergeMemos_eq (hw : w.Sound) (hmemos : ∀ i ∈ memos, i < w.size)
    {m₀ : Merge α (Array (Counted α) × Unit)} (hlength : given.length ≤ n)
    (hopen : Merge.openAll (.ofCounted (.ofCompare verdict)) memos.length
      (.ofWorld (((memos.map w.sequence).map Counted.ofSource).toArray, ())) = .ok () m₀)
    (hgives : Act.Gives (Merge.nextFrom (.ofCounted (.ofCompare verdict))) (fun m =>
      Merge.Accounts (memos.map w.sequence) memos.length given m ∧
        (given.length < n → m.heap.toList = [])) given m₀) :
    ∃ readings w', ReplaySession.mergeMemos (fun a b => .ok (verdict a b)) memos n w =
        .ok ⟨(given.map OpenSource.head).toArray, decide (given.length < n)⟩ w' ∧
      Demanded w readings w' ∧ ReadAhead memos given readings := by
  have hinputs := refines_peeks (τ := Unit) w hmemos verdict
  have hmerge := (Merge.refines_openAll hinputs memos.length).bind fun _ =>
    refines_pull (Merge.refines_next hinputs) n
  have hgives' := hgives.map OpenSource.head
  rw [Merge.map_nextFrom] at hgives'
  have hlength' : (given.map OpenSource.head).length ≤ n := by rwa [List.length_map]
  obtain ⟨m, ⟨haccounts, -⟩, hpull⟩ := hgives'.pull hlength' fun hlt m' h' =>
    Merge.next_of_nil (h'.2 (by rwa [List.length_map] at hlt))
  rw [List.length_map] at hpull
  have hagree := hmerge (.ofWorld (_, w)) (.ofWorld (_, ())) ⟨rfl, peeks_start hw hmemos ()⟩
  simp only [Bind.bind, EStateM.bind, hopen, hpull] at hagree
  obtain ⟨m', hrun, -, hpeeks⟩ := hagree.exists_ok
  refine ⟨m'.world.1, m'.world.2, ?_, hpeeks.demanded, fun j i hj => ?_,
    fun j hj => (hpeeks.beyond j hj).1⟩
  · simp only [ReplaySession.mergeMemos, Bind.bind, EStateM.bind, hrun]
  · obtain ⟨calls, hreading, hcs⟩ := hpeeks.same j i hj
    have hsource : (memos.map w.sequence)[j]? = some (w.sequence i) := by
      rw [List.getElem?_map, hj]
      rfl
    have hpolled := (haccounts.read j _ (List.getElem?_eq_some_iff.1 hj).1 hsource).polled
    obtain rfl : calls = _ := congrArg Counted.polls (Option.some.inj (hcs.symm.trans hpolled))
    exact hreading

/-- The demand on a memo is the one before, or what a place of it was asked for, or what a memo
that maps it has polled. -/
theorem Demanded.demand_eq {readings : Array Reading} (h : Demanded w readings w')
    (hread : ReadAhead memos given readings) {s : MemoStore α} (hs : s.Kept w') {k : Nat}
    {r : Replayed α} (hr : w[k]? = some r) : w'[k]? = some
      { r with demand := max (max r.demand (askedOf memos given k)) (s.passedOn k) } := by
  obtain ⟨d, hd, hr'⟩ := h.grown k r hr
  rw [hr']
  congr 2
  refine Nat.le_antisymm ?_ (Nat.max_le.2 ⟨Nat.max_le.2 ⟨hd, ?_⟩, ?_⟩)
  · rcases h.origin k _ hr' with ⟨r₀, hr₀, hle⟩ | ⟨j, rd, hrd, hk, hle⟩ | ⟨c, q, f, hq, hf, hle⟩
    · obtain rfl := Option.some.inj (hr.symm.trans hr₀)
      exact hle.trans ((Nat.le_max_left _ _).trans (Nat.le_max_left _ _))
    · refine hle.trans (le_trans ?_ ((Nat.le_max_right _ _).trans (Nat.le_max_left _ _)))
      cases hj : memos[j]? with
      | none =>
        rw [hread.beyond j hj] at hrd
        cases hrd
      | some i =>
        rw [hread.reading j i hj] at hrd
        obtain rfl := Option.some.inj hrd
        obtain rfl : i = k := hk
        exact le_askedOf hj
    · refine hle.trans (le_trans ?_ (Nat.le_max_right _ _))
      obtain ⟨m, hm, ho, hreads, -⟩ := hs.exists_memo hq
      rw [← hreads.polls]
      exact MemoStore.le_passedOn hm (ho.trans hf)
  · refine askedOf_le fun j hj => ?_
    obtain ⟨r₁, hr₁, hle⟩ := h.asked j _ (hread.reading j k hj)
    obtain rfl := Option.some.inj (hr'.symm.trans hr₁)
    exact hle
  · refine MemoStore.passedOn_le fun c m f hm hf => ?_
    obtain ⟨q, hq⟩ : ∃ q, w'[c]? = some q :=
      ⟨_, Array.getElem?_eq_getElem (hs.size ▸ (Array.getElem?_eq_some_iff.1 hm).1)⟩
    obtain ⟨m', hm', ho, hreads, -⟩ := hs.exists_memo hq
    obtain rfl := Option.some.inj (hm.symm.trans hm')
    have hsound := h.sound c q hq
    rw [← ho, hf] at hsound
    obtain ⟨-, p, hp, -, hle⟩ := hsound
    obtain rfl := Option.some.inj (hr'.symm.trans hp)
    rwa [hreads.polls]

end Shelf

/-! ## Sessions -/

namespace MemoSession

/-- Merges memos under a comparator that returns. -/
def mergeBy (verdict : α → α → Ordering) (ms : List Nat) (n : Nat) :
    Act (MemoSession α) (MemoReply α) :=
  perform (.merge ms (fun a b => .ok (verdict a b)) n)

/-- The reply of a merge that has given `given` where `n` items were asked for. -/
def mergedReply (given : List (OpenSource α)) (n : Nat) : MemoReply α :=
  .pulled ⟨(given.map OpenSource.head).toArray, decide (given.length < n)⟩

/-- Memo `i`, which was `m` before the merge and is `m'` after it, was read up to the items that
the merge asked for, or that memos which map it did, and no further. -/
structure ReadTo (s s' : MemoSession α) (memos : List Nat) (given : List (OpenSource α)) (i : Nat)
    (q : Replayed α) (m m' : Memo α) : Prop where
  before : s.Counts i m q.source q.demand
  after : s'.Counts i m' q.source
    (max (max q.demand (askedOf memos given i)) (s'.store.passedOn i))
  evaluated : (m'.evaluated : ℕ∞) =
    max (max (m.evaluated : ℕ∞) (min q.source.length (askedOf memos given i : Nat)))
      (min q.source.length (s'.store.passedOn i : Nat))
  /-- No memo maps this one. -/
  unmapped : (∀ c ∈ s'.store.memos, ¬ c.origin.maps i) →
    (m'.evaluated : ℕ∞) =
      max (m.evaluated : ℕ∞) (min q.source.length (askedOf memos given i : Nat))

section Merge

variable {w₀ : Shelf α} {s : MemoSession α} {r : ReplaySession α} {verdict : α → α → Ordering}
  {ms memos : List Nat} {given : List (OpenSource α)} {n : Nat}

theorem Mirrors.lt_size (h : Mirrors w₀ s r) (hms : ms.mapM s.memo? = some memos) :
    ∀ i ∈ memos, i < r.shelf.size := fun i hi => by
  obtain ⟨handle, hhandle⟩ := mem_of_mapM (h.memo?_eq ▸ hms) hi
  exact h.there handle i hhandle

theorem Mirrors.map_sequence (h : Mirrors w₀ s r) (hmemos : ∀ i ∈ memos, i < w₀.size) :
    memos.map w₀.sequence = memos.map r.shelf.sequence :=
  List.map_congr_left fun i hi => (h.grown.sequence (hmemos i hi)).symm

/-- A merge of memos gives what the plain merge of their sequences gives. -/
theorem Mirrors.mergeBy (h : Mirrors w₀ s r) (hms : ms.mapM s.memo? = some memos)
    {m₀ : Merge α (Array (Counted α) × Unit)} (hlength : given.length ≤ n)
    (hopen : Merge.openAll (.ofCounted (.ofCompare verdict)) memos.length
      (.ofWorld (((memos.map r.shelf.sequence).map Counted.ofSource).toArray, ())) = .ok () m₀)
    (hgives : Act.Gives (Merge.nextFrom (.ofCounted (.ofCompare verdict))) (fun m =>
      Merge.Accounts (memos.map r.shelf.sequence) memos.length given m ∧
        (given.length < n → m.heap.toList = [])) given m₀) :
    ∃ s' w', MemoSession.mergeBy verdict ms n s = .ok (mergedReply given n) s' ∧
      Mirrors w₀ s' { r with shelf := w' } ∧ ∀ (i : Nat) (q : Replayed α),
        r.shelf[i]? = some q → ∃ m m', s.store.memos[i]? = some m ∧ s'.store.memos[i]? = some m' ∧
          ReadTo s s' memos given i q m m' := by
  have hstep := refines_perform w₀ (.merge ms (fun a b => .ok (verdict a b)) n) s r h
  obtain ⟨readings, w', hmerge, hdemanded, hread⟩ :=
    Shelf.mergeMemos_eq h.kept.sound (h.lt_size hms) hlength hopen hgives
  have hreplay : ReplaySession.perform (.merge ms (fun a b => .ok (verdict a b)) n) r =
      .ok (mergedReply given n) { r with shelf := w' } := by
    simp only [ReplaySession.perform, ← h.memo?_eq, hms, ReplaySession.onShelf, Functor.map,
      EStateM.map, hmerge]
    rfl
  rw [hreplay] at hstep
  obtain ⟨s', hrun, hs'⟩ := hstep.exists_ok
  refine ⟨s', w', hrun, hs', fun i q hq => ?_⟩
  obtain ⟨m, hm, hcounts⟩ := h.counts hq
  obtain ⟨m', hm', hcounts'⟩ := hs'.counts (hdemanded.demand_eq hread hs'.kept hq)
  have hevaluated : (m'.evaluated : ℕ∞) =
      max (max (m.evaluated : ℕ∞) (min q.source.length (askedOf memos given i : Nat)))
        (min q.source.length (s'.store.passedOn i : Nat)) := by
    rw [hcounts'.evaluated, hcounts.evaluated, Nat.mono_cast.map_max, Nat.mono_cast.map_max,
      min_max_distrib_left, min_max_distrib_left]
  refine ⟨m, m', hm, hm', hcounts, hcounts', hevaluated, fun hunmapped => ?_⟩
  rw [hevaluated, MemoStore.passedOn_eq_zero hunmapped, Nat.cast_zero, min_eq_right zero_le]
  exact max_eq_left zero_le

end Merge

/-- A merge of memos gives the items of the plain merge of what they replay, whatever was read of
them before, and reads no further than one item after those it has given. A later merge of the same
memos gives the same items again. -/
theorem merge_rereads_nothing (sources : List (Source α)) (ops : List (MemoOp α))
    (verdict : α → α → Ordering) {ms memos : List Nat} (n : Nat) :
    let s := (Act.attemptAll (ops.map perform) (start sources)).2
    let w := (Act.attemptAll (ops.map ReplaySession.perform) (ReplaySession.start sources)).2.shelf
    ms.mapM s.memo? = some memos →
    (∀ i ∈ memos, ∀ k e, (w.sequence i).answer k ≠ .error e) →
    (∀ (i : Nat) (source : Source α), sources[i]? = some source →
      ∃ d, w[i]? = some ⟨.source source, source, d⟩) ∧
    ∃ given s',
      (∃ m, attemptAfter (Merge.openAll (.ofCounted (.ofCompare verdict)) memos.length)
        (Merge.nextFrom (.ofCounted (.ofCompare verdict))) n
        (.ofWorld (((memos.map w.sequence).map Counted.ofSource).toArray, ())) =
          .ok (answers given n) m) ∧
      mergeBy verdict ms n s = .ok (mergedReply given n) s' ∧ s'.memo? = s.memo? ∧
      (∀ (i : Nat) (q : Replayed α), w[i]? = some q → ∃ m m',
        s.store.memos[i]? = some m ∧ s'.store.memos[i]? = some m' ∧
          ReadTo s s' memos given i q m m') ∧
      ∀ (ops' : List (MemoOp α)) (ms' : List Nat),
        let s₁ := (Act.attemptAll (ops'.map perform) s').2
        ms'.mapM s₁.memo? = some memos →
          ∃ s₂, mergeBy verdict ms' n s₁ = .ok (mergedReply given n) s₂ := by
  intro s w hms hfail
  have hmirrors : Mirrors w s _ :=
    { mirrors_attemptAll (mirrors_start sources) ops with grown := .refl _ }
  obtain ⟨m₀, given, hopen, hlength, hgives, hplain⟩ := Shelf.exists_given hfail verdict n
  obtain ⟨s', w', hrun, hs', hread⟩ := hmirrors.mergeBy hms hlength hopen hgives
  refine ⟨fun i source hi => exists_replayed_source sources ops hi, given, s', hplain, hrun,
    hs'.memo?_eq.trans hmirrors.memo?_eq.symm, hread, fun ops' ms' hms' => ?_⟩
  have hlater := mirrors_attemptAll hs' ops'
  rw [hlater.map_sequence (hmirrors.lt_size hms)] at hopen hgives
  obtain ⟨s₂, -, hrun', -⟩ := hlater.mergeBy hms' hlength hopen hgives
  exact ⟨s₂, hrun'⟩

theorem merge_rereads_nothing_of_lists :
    let sources : List (Source Nat) := [.ofList [1, 4, 6], .ofScript [.item 2, .item 3, .stop]]
    let s := (Act.attemptAll ([.get 0 1].map perform) (start sources)).2
    let w := (Act.attemptAll ([.get 0 1].map ReplaySession.perform)
      (ReplaySession.start sources)).2.shelf
    [0, 1, 0].mapM s.memo? = some [0, 1, 0] ∧
    (∀ i ∈ [0, 1, 0], ∀ k e, (w.sequence i).answer k ≠ .error e) ∧
    ∃ given s', mergeBy compare [0, 1, 0] 4 s = .ok (mergedReply given 4) s' ∧
      (∃ s₁, mergeBy compare [0, 1, 0] 4 s' = .ok (mergedReply given 4) s₁) ∧
      ∃ d m m', s.store.memos[0]? = some m ∧ s'.store.memos[0]? = some m' ∧
        ReadTo s s' [0, 1, 0] given 0 ⟨.source (.ofList [1, 4, 6]), .ofList [1, 4, 6], d⟩ m m' := by
  intro sources s w
  have hms : [0, 1, 0].mapM s.memo? = some [0, 1, 0] := by
    have hmemo : (ReplaySession.start sources).memo? 0 = some 0 := by
      simp [ReplaySession.start, ReplaySession.memo?, sources]
    have hkeep : (Act.attemptAll ([.get 0 1].map ReplaySession.perform)
        (ReplaySession.start sources)).2.memo? = (ReplaySession.start sources).memo? := by
      cases hread : Shelf.read 0 1 (ReplaySession.start sources).shelf <;>
        simp only [List.map_cons, List.map_nil, Act.attemptAll, Act.attempt,
          ReplaySession.perform, ReplaySession.withMemo, hmemo, ReplaySession.onShelf, Functor.map,
          EStateM.map, hread] <;> rfl
    rw [(mirrors_attemptAll (mirrors_start sources) [.get 0 1]).memo?_eq, hkeep]
    simp [ReplaySession.start, ReplaySession.memo?, sources]
  have hfail : ∀ i ∈ [0, 1, 0], ∀ k e, (w.sequence i).answer k ≠ .error e := by
    have hsources : ∀ i ∈ [0, 1, 0], ∃ source, sources[i]? = some source ∧
        ∀ k e, source.answer k ≠ .error e := by
      simp only [List.mem_cons, List.not_mem_nil, or_false, sources]
      rintro i (rfl | rfl | rfl)
      · exact ⟨_, rfl, fun k e he => by cases he⟩
      · refine ⟨_, rfl, ?_⟩
        rintro (_ | _ | _ | k) e he <;> cases he
      · exact ⟨_, rfl, fun k e he => by cases he⟩
    intro i hi
    obtain ⟨source, hsource, hanswer⟩ := hsources i hi
    obtain ⟨d, hd⟩ := exists_replayed_source sources [.get 0 1] hsource
    rw [Shelf.answer_sequence hd]
    exact source.replay_ne_error hanswer
  obtain ⟨hshelf, given, s', -, hrun, hmemo, hread, hagain⟩ :=
    merge_rereads_nothing sources [.get 0 1] compare 4 hms hfail
  obtain ⟨d, hd⟩ := hshelf 0 _ rfl
  obtain ⟨m, m', hm, hm', hreads⟩ := hread 0 _ hd
  exact ⟨hms, hfail, given, s', hrun, hagain [] _ (hmemo ▸ hms), d, m, m', hm, hm', hreads⟩

/-- By a total preorder a merge of memos gives what the linear scan gives of the sequences that they
replay, and of ascending sequences the first items of their stable sort. -/
theorem merges_in_order (sources : List (Source α)) (ops : List (MemoOp α))
    (verdict : α → α → Ordering) [Std.TransCmp verdict] {ms memos : List Nat} (n : Nat) :
    let s := (Act.attemptAll (ops.map perform) (start sources)).2
    let w := (Act.attemptAll (ops.map ReplaySession.perform) (ReplaySession.start sources)).2.shelf
    ms.mapM s.memo? = some memos →
    (∀ i ∈ memos, ∀ k e, (w.sequence i).answer k ≠ .error e) →
    ∃ given s', mergeBy verdict ms n s = .ok (mergedReply given n) s' ∧
      (∃ l, attemptAfter (ScanMerge.openAll Counted.pollAt memos.length)
        (ScanMerge.next Counted.pollAt verdict) n
        (.ofWorld ((memos.map w.sequence).map Counted.ofSource).toArray) =
          .ok (answers (given.map OpenSource.head) n) l) ∧
      ∀ lists, List.Forall₂ Source.Gives (memos.map w.sequence) lists →
        (∀ items ∈ lists, items.Pairwise fun a b => (verdict a b).isLE) →
        ∃ out, IsStableSort verdict lists out ∧ given.map OpenSource.head = out.take n := by
  intro s w hms hfail
  have hmirrors : Mirrors w s _ :=
    { mirrors_attemptAll (mirrors_start sources) ops with grown := .refl _ }
  obtain ⟨m₀, given, hopen, hlength, hgives, m, hplain⟩ := Shelf.exists_given hfail verdict n
  obtain ⟨s', -, hrun, -⟩ := hmirrors.mergeBy hms hlength hopen hgives
  have hheads : attemptAfter (Merge.openAll (.ofCounted (.ofCompare verdict)) memos.length)
      (Merge.next (.ofCounted (.ofCompare verdict))) n
      (.ofWorld (((memos.map w.sequence).map Counted.ofSource).toArray, ())) =
        .ok (answers (given.map OpenSource.head) n) m := by
    rw [← Merge.map_nextFrom, attemptAfter_map]
    simp only [Functor.map, EStateM.map, hplain, map_answers]
  have hanswers : (Comparator.ofCompare verdict : Comparator α Unit).Answers verdict :=
    fun _ _ t => ⟨t, rfl⟩
  obtain ⟨l, hscan⟩ := Merge.scan_replies hanswers hheads
  refine ⟨given, s', hrun, ⟨l, hscan⟩, fun lists hlists hsorted => ?_⟩
  obtain ⟨l', out, hstable, hreplies⟩ := exists_stableSort_replies hlists hsorted n
  rw [List.length_map, hscan] at hreplies
  injection hreplies with hsame
  exact ⟨out, hstable, answers_injective hsame⟩

end MemoSession

end Streamkit
