import Streamkit.Proofs.Merge.Accounting
import Streamkit.Proofs.Merge.Rounds
import Streamkit.Proofs.Merge.Transfer

/-!
# What a merge compares

The comparator of a merge is called on the heads of open sources only. With every pair noted before
it is compared (`Comparator.noting`), `Compared` says how many pairs were noted between two states,
and that each is of the heads of two different sources. A round of moving up compares once and a
round of moving down at most twice, so the number of rounds bounds the comparisons
(`Heap.siftUpWithin_moved`, `Heap.siftDownWithin_moved`). The head of an open source is the item
after those that are gone (`Merge.CurrentHeads`). So the comparisons are few, and of current heads,
whatever the comparator answers, and also if it gives up: `merge_compares_current_heads`.
-/

namespace Streamkit

open Act

variable {α σ τ : Type}

/-- The comparator, which also notes the pair that it is called on. -/
def Comparator.noting (order : Comparator α τ) : Comparator α (τ × List (α × α)) :=
  fun a b (t, pairs) => onFst (order a b) (t, pairs ++ [(a, b)])

/-- Every call of the comparator adds its pair to the notes, and nothing else. -/
def Comparator.Notes (notes : σ → List (α × α)) (order : Comparator α σ) : Prop :=
  ∀ a b s, EndsIn (fun s' => notes s' = notes s ++ [(a, b)]) (order a b s)

/-- The pairs that are compared are noted; polls do not change the notes. -/
structure MergeInputs.Notes (notes : σ → List (α × α)) (inputs : MergeInputs α σ) : Prop where
  poll : ∀ i s, EndsIn (fun s' => notes s' = notes s) (inputs.poll i s)
  order : inputs.order.Notes notes

/-- The pair is of the heads of two different sources. -/
def OfTwo (entries : List (OpenSource α)) (pair : α × α) : Prop :=
  ∃ a ∈ entries, ∃ b ∈ entries, a.source ≠ b.source ∧ pair = (a.head, b.head)

/-- At most so many pairs were noted after `pairs`, each of the heads of two different sources. -/
def Compared (entries : List (OpenSource α)) (limit : Nat) (pairs pairs' : List (α × α)) : Prop :=
  ∃ more, pairs' = pairs ++ more ∧ more.length ≤ limit ∧ ∀ pair ∈ more, OfTwo entries pair

/-! ## Noting -/

theorem notes_noting (order : Comparator α τ) :
    (MergeInputs.ofCounted order.noting).Notes fun w => w.2.2 where
  poll i := by
    rintro ⟨cs, w⟩
    simp only [MergeInputs.ofCounted, onFst]
    cases Counted.pollAt i cs <;> rfl
  order a b := by
    rintro ⟨cs, t, pairs⟩
    simp only [MergeInputs.ofCounted, onSnd, Comparator.noting, onFst]
    cases order a b t <;> rfl

theorem refines_noting (order : Comparator α τ) :
    (MergeInputs.ofCounted order.noting).Refines (· = ·) (fun w w' => (w.1, w.2.1) = w')
      (.ofCounted order) where
  poll i := by
    rintro ⟨cs, t, pairs⟩ _ rfl
    simp only [MergeInputs.ofCounted, onFst]
    cases Counted.pollAt i cs <;> exact ⟨rfl, rfl⟩
  order a b := by
    rintro ⟨cs, t, pairs⟩ _ rfl
    simp only [MergeInputs.ofCounted, onSnd, Comparator.noting, onFst]
    cases order a b t <;> exact ⟨rfl, rfl⟩

theorem raises_of_noting {order : Comparator α τ} {e : Fault} (h : order.noting.Raises e) :
    order.Raises e := by
  obtain ⟨a, b, ⟨t, pairs⟩, t', h⟩ := h
  simp only [Comparator.noting, onFst] at h
  cases ht : order a b t with
  | ok v t' =>
    rw [ht] at h
    cases h
  | error f t' =>
    rw [ht] at h
    cases h
    exact ⟨a, b, t, t', ht⟩

section Compared

variable {entries entries' : List (OpenSource α)} {limit limit' : Nat}
  {pairs pairs' pairs'' : List (α × α)}

theorem compared_refl (entries : List (OpenSource α)) (limit : Nat) (pairs : List (α × α)) :
    Compared entries limit pairs pairs :=
  ⟨[], (List.append_nil _).symm, Nat.zero_le _, fun _ h => absurd h List.not_mem_nil⟩

theorem Compared.mono (h : Compared entries limit pairs pairs') (hlimit : limit ≤ limit') :
    Compared entries limit' pairs pairs' := by
  obtain ⟨more, hmore, hlength, hpairs⟩ := h
  exact ⟨more, hmore, hlength.trans hlimit, hpairs⟩

theorem Compared.trans (h : Compared entries limit pairs pairs')
    (h' : Compared entries limit' pairs' pairs'') :
    Compared entries (limit + limit') pairs pairs'' := by
  obtain ⟨more, rfl, hlength, hpairs⟩ := h
  obtain ⟨more', rfl, hlength', hpairs'⟩ := h'
  refine ⟨more ++ more', List.append_assoc .., ?_, fun pair hpair => ?_⟩
  · rw [List.length_append]
    exact Nat.add_le_add hlength hlength'
  · exact (List.mem_append.1 hpair).elim (hpairs pair) (hpairs' pair)

theorem Compared.perm (h : Compared entries limit pairs pairs') (hperm : entries.Perm entries') :
    Compared entries' limit pairs pairs' := by
  obtain ⟨more, hmore, hlength, hpairs⟩ := h
  refine ⟨more, hmore, hlength, fun pair hpair => ?_⟩
  obtain ⟨a, ha, b, hb, hne⟩ := hpairs pair hpair
  exact ⟨a, hperm.mem_iff.1 ha, b, hperm.mem_iff.1 hb, hne⟩

end Compared

/-! ## The heap -/

namespace Heap

/-- The heap has these entries in some order, and at most so many pairs were noted since. -/
structure Moved (notes : σ → List (α × α)) (entries : List (OpenSource α)) (limit : Nat)
    (pairs : List (α × α)) (heap : Heap α) (s : σ) : Prop where
  perm : heap.toList.Perm entries
  compared : Compared entries limit pairs (notes s)

variable {order : Comparator α σ} {notes : σ → List (α × α)} {entries : List (OpenSource α)}
  {heap : Heap α} {limit limit' : Nat} {pairs pairs' : List (α × α)} {s : σ}

theorem Moved.stays (h : Moved notes entries limit pairs heap s) :
    Compared heap.toList limit pairs (notes s) :=
  h.compared.perm h.perm.symm

/-- What is noted in a round is noted before what is noted in the rounds that follow. -/
theorem Moved.after (h : Moved notes entries limit pairs' heap s)
    (hcompared : Compared entries limit' pairs pairs') :
    Moved notes entries (limit' + limit) pairs heap s :=
  ⟨h.perm, hcompared.trans h.compared⟩

theorem perm_swapIfInBounds (heap : Heap α) (i j : Nat) :
    (heap.swapIfInBounds i j).toList.Perm heap.toList := by
  rw [Array.swapIfInBounds_def]
  split
  · split
    · exact perm_toList_swap heap _ _
    · exact .refl _
  · exact .refl _

variable (ho : order.Notes notes) (hnodup : (entries.map OpenSource.source).Nodup)

include ho hnodup in
/-- Entries at different positions are of different sources. -/
theorem precedesAt_compared (hperm : heap.toList.Perm entries) {i j : Nat}
    {o : EStateM.Result Fault σ Bool} (h : heap.precedesAt order i j s = some o) :
    EndsIn (fun s' => Compared entries 1 (notes s) (notes s')) o := by
  obtain ⟨hne, h⟩ := Option.ite_none_left_eq_some.1 h
  obtain ⟨a, ha, h⟩ := Option.bind_eq_some_iff.1 h
  obtain ⟨b, hb, h⟩ := Option.bind_eq_some_iff.1 h
  obtain rfl := Option.some.inj h
  rw [← Array.getElem?_toList] at ha hb
  have hsources : a.source ≠ b.source := fun e =>
    hne (OpenSource.index_eq_of_source_eq ((hperm.map _).nodup_iff.2 hnodup) ha hb e)
  have hpair : OfTwo entries (a.head, b.head) :=
    ⟨a, hperm.mem_iff.1 (List.mem_of_getElem? ha), b, hperm.mem_iff.1 (List.mem_of_getElem? hb),
      hsources, rfl⟩
  have hcall := (ho a.head b.head s).imp fun s' hs' =>
    (⟨_, hs', Nat.le_refl 1, fun _ hp => List.mem_singleton.1 hp ▸ hpair⟩ :
      Compared entries 1 (notes s) (notes s'))
  exact hcall.bind fun _ _ h => h

include ho hnodup in
/-- A round of moving up compares once. -/
theorem siftUpWithin_moved (rounds : Nat) : ∀ (heap : Heap α) (pos : Nat) (s : σ)
    (o : EStateM.Result Fault (Heap α × σ) Unit), heap.toList.Perm entries →
    siftUpWithin order rounds heap pos s = some o →
    EndsIn (fun w => Moved notes entries rounds (notes s) w.1 w.2) o := by
  induction rounds with
  | zero =>
    intro heap pos s o hperm h
    unfold siftUpWithin at h
    split at h
    · cases h
    · cases h
      exact ⟨hperm, compared_refl ..⟩
  | succ rounds ih =>
    intro heap pos s o hperm h
    unfold siftUpWithin at h
    split at h
    · obtain ⟨o', ho', h⟩ := Option.bind_eq_some_iff.1 h
      have hcompared := precedesAt_compared ho hnodup hperm ho'
      cases o' with
      | error e s' =>
        cases h
        exact ⟨hperm, hcompared.mono (Nat.le_add_left 1 rounds)⟩
      | ok up s' =>
        cases up with
        | false =>
          cases h
          exact ⟨hperm, hcompared.mono (Nat.le_add_left 1 rounds)⟩
        | true =>
          have hrest := ih _ _ s' o ((perm_swapIfInBounds heap _ _).trans hperm) h
          rw [Nat.add_comm]
          exact hrest.imp fun _ h => h.after hcompared
    · cases h
      exact ⟨hperm, compared_refl ..⟩

include ho hnodup in
theorem smallerChildAt_compared (hperm : heap.toList.Perm entries) {pos : Nat}
    {o : EStateM.Result Fault σ Nat} (h : heap.smallerChildAt order pos s = some o) :
    EndsIn (fun s' => Compared entries 1 (notes s) (notes s')) o := by
  unfold smallerChildAt at h
  split at h
  · obtain ⟨o', ho', h⟩ := Option.bind_eq_some_iff.1 h
    have hcompared := precedesAt_compared ho hnodup hperm ho'
    cases o' <;> cases h <;> exact hcompared
  · cases h
    exact compared_refl ..

include ho hnodup in
/-- A round of moving down compares the children, and then one of them with their parent. -/
theorem siftDownWithin_moved (rounds : Nat) : ∀ (heap : Heap α) (pos : Nat) (s : σ)
    (o : EStateM.Result Fault (Heap α × σ) Unit), heap.toList.Perm entries →
    siftDownWithin order rounds heap pos s = some o →
    EndsIn (fun w => Moved notes entries (2 * rounds) (notes s) w.1 w.2) o := by
  induction rounds with
  | zero =>
    intro heap pos s o hperm h
    unfold siftDownWithin at h
    split at h
    · cases h
    · cases h
      exact ⟨hperm, compared_refl ..⟩
  | succ rounds ih =>
    intro heap pos s o hperm h
    unfold siftDownWithin at h
    split at h
    · obtain ⟨o', ho', h⟩ := Option.bind_eq_some_iff.1 h
      have hchild := smallerChildAt_compared ho hnodup hperm ho'
      cases o' with
      | error e s' =>
        cases h
        exact ⟨hperm, hchild.mono (by omega)⟩
      | ok child s' =>
        obtain ⟨o'', ho'', h⟩ := Option.bind_eq_some_iff.1 h
        have hround := precedesAt_compared ho hnodup hperm ho''
        cases o'' with
        | error e s'' =>
          cases h
          exact ⟨hperm, (hchild.trans hround).mono (by omega)⟩
        | ok down s'' =>
          cases down with
          | false =>
            cases h
            exact ⟨hperm, (hchild.trans hround).mono (by omega)⟩
          | true =>
            have hrest := ih _ _ s'' o ((perm_swapIfInBounds heap _ _).trans hperm) h
            rw [Nat.mul_succ, Nat.add_comm]
            exact hrest.imp fun _ h => h.after (hchild.trans hround)
    · cases h
      exact ⟨hperm, compared_refl ..⟩

include ho hnodup in
theorem siftDown_moved (hperm : heap.toList.Perm entries) (s : σ) :
    EndsIn (fun w => Moved notes entries (2 * entries.length.log2) (notes s) w.1 w.2)
      (heap.siftDown order 0 s) := by
  rw [← hperm.length_eq, Array.length_toList]
  exact siftDownWithin_moved ho hnodup _ heap 0 s _ hperm (siftDown_within order heap 0 s)

end Heap

/-! ## Steps -/

namespace Merge

variable {inputs : MergeInputs α σ} {notes : σ → List (α × α)} {m : Merge α σ}

theorem settle_moved {β : Type} (b : β) {entries : List (OpenSource α)} {limit : Nat}
    {pairs : List (α × α)} {o : EStateM.Result Fault (Heap α × σ) Unit}
    (h : EndsIn (fun w => Heap.Moved notes entries limit pairs w.1 w.2) o) :
    EndsIn (fun m => Heap.Moved notes entries limit pairs m.heap m.world) (settle b o) :=
  Leaves.elim h (fun _ _ h => h) (fun _ _ h => h)

theorem notes_of_poll (hi : inputs.Notes notes) {source : Nat} {x : Option α} {s : σ}
    (hpoll : inputs.poll source m.world = .ok x s) : notes s = notes m.world := by
  have h := hi.poll source m.world
  rw [hpoll] at h
  exact h

/-- A source that gives up is not compared. -/
theorem moved_of_fault (hi : inputs.Notes notes) {source : Nat} {e : Fault} {s : σ}
    (hpoll : inputs.poll source m.world = .error e s) (limit : Nat) :
    Heap.Moved notes m.heap.toList limit (notes m.world) m.heap s := by
  have h := hi.poll source m.world
  rw [hpoll] at h
  have hs : notes s = notes m.world := h
  exact ⟨.refl _, hs ▸ compared_refl ..⟩

theorem openSource_moved (hi : inputs.Notes notes) {source : Nat} {x : Option α} {s : σ}
    (hpoll : inputs.poll source m.world = .ok x s) {entries : List (OpenSource α)}
    (hentries : m.heap.toList ++ x.toList.map (⟨·, source⟩) = entries)
    (hnodup : (entries.map OpenSource.source).Nodup) :
    EndsIn (fun m' => Heap.Moved notes entries (if x.isSome then (m.openSources + 1).log2 else 0)
        (notes m.world) m'.heap m'.world)
      (openSource inputs source m) := by
  subst hentries
  simp only [openSource, hpoll, ← notes_of_poll hi hpoll]
  cases x with
  | none => exact ⟨.of_eq (List.append_nil _).symm, compared_refl ..⟩
  | some head =>
    have hinsert := Heap.insert_within inputs.order m.heap ⟨head, source⟩ s
    exact settle_moved () (Heap.siftUpWithin_moved hi.order hnodup _ _ _ s _
      (.of_eq Array.toList_push) hinsert)

theorem next_moved (hi : inputs.Notes notes) {root : OpenSource α} {rest : List (OpenSource α)}
    (hheap : m.heap.toList = root :: rest) {x : Option α} {s : σ}
    (hpoll : inputs.poll root.source m.world = .ok x s) {entries : List (OpenSource α)}
    (hentries : x.toList.map (⟨·, root.source⟩) ++ rest = entries)
    (hnodup : (entries.map OpenSource.source).Nodup) :
    EndsIn (fun m' => Heap.Moved notes entries (2 * entries.length.log2) (notes m.world)
        m'.heap m'.world)
      (next inputs m) := by
  have hroot : m.heap[0]? = some root := by rw [← Array.getElem?_toList, hheap]; rfl
  subst hentries
  simp only [next, hroot, hpoll, ← notes_of_poll hi hpoll]
  cases x with
  | none =>
    exact settle_moved _ (Heap.siftDown_moved hi.order hnodup (Heap.toList_pop_swap_root hheap) s)
  | some head =>
    refine settle_moved _ (Heap.siftDown_moved hi.order hnodup (.of_eq ?_) s)
    rw [Array.toList_modify, hheap]
    rfl

/-- A step that leaves `k` open sources compares at most `2 * log2 k` times. -/
theorem next_compared (hi : inputs.Notes notes)
    (hnodup : (m.heap.toList.map OpenSource.source).Nodup) :
    EndsIn (fun m' => Compared m'.heap.toList (2 * m'.openSources.log2) (notes m.world)
        (notes m'.world))
      (next inputs m) := by
  cases hheap : m.heap.toList with
  | nil =>
    rw [next_of_nil hheap]
    exact compared_refl ..
  | cons root rest =>
    have hroot : m.heap[0]? = some root := by rw [← Array.getElem?_toList, hheap]; rfl
    cases hpoll : inputs.poll root.source m.world with
    | error e s =>
      simp only [next, hroot, hpoll]
      exact (moved_of_fault hi hpoll _).stays
    | ok x s =>
      refine EndsIn.imp (next_moved hi hheap hpoll rfl ?left) fun m' h => ?_
      case left =>
        rw [hheap] at hnodup
        cases x with
        | none => exact hnodup.of_cons
        | some head => exact hnodup
      rw [Merge.openSources, ← Array.length_toList, h.perm.length_eq]
      exact h.stays

/-! ## Current heads -/

variable {sources : List (Source α)} {gone entries entries' : List (OpenSource α)}

/-- The entries are of different sources, and the head of each is the item that comes after those of
its source that are gone. -/
structure CurrentHeads (sources : List (Source α)) (gone entries : List (OpenSource α)) :
    Prop where
  distinct : (entries.map OpenSource.source).Nodup
  next : ∀ a ∈ entries, ∃ s polls, sources[a.source]? = some s ∧
    s.itemsFrom 0 polls = headsOf a.source gone ++ [a.head]

theorem CurrentHeads.perm (h : CurrentHeads sources gone entries) (hperm : entries'.Perm entries) :
    CurrentHeads sources gone entries' where
  distinct := (hperm.map _).nodup_iff.2 h.distinct
  next a ha := h.next a (hperm.mem_iff.1 ha)

/-- Between two states at most so many pairs were compared, each of the current heads of two
different sources that are open now. -/
structure Compares (sources : List (Source α)) (gone : List (OpenSource α)) (limit : Nat)
    (m m' : Merge α (Array (Counted α) × τ × List (α × α))) : Prop where
  compared : Compared m'.heap.toList limit m.world.2.2 m'.world.2.2
  current : CurrentHeads sources gone m'.heap.toList

section Accounts

variable {order : Comparator α τ} {opened : Nat} {steps : List (MergeStep α)} {step : MergeStep α}

theorem Ledger.currentHeads {m : Merge α (Array (Counted α) × τ)}
    (h : Ledger sources opened steps m) (hopened : opened ≤ sources.length) :
    CurrentHeads sources (steps.flatMap MergeStep.gone) m.heap.toList where
  distinct := h.nodup hopened
  next a ha := by
    have hlt := h.heap_lt a ha
    have hs := List.getElem?_eq_getElem (Nat.lt_of_lt_of_le hlt hopened)
    obtain ⟨-, hitems, -⟩ := (h.read _ _ hlt hs).not_ended (mem_headsOf ha)
    exact ⟨_, _, hs, hitems⟩

/-- The first item of a source that is opened is its current head. -/
theorem Ledger.currentHeads_open {m : Merge α (Array (Counted α) × τ)}
    (h : Ledger sources opened [] m) {s : Source α} (hs : sources[opened]? = some s) {x : Option α}
    (hx : s.answer 0 = .ok x) :
    CurrentHeads sources [] (m.heap.toList ++ x.toList.map (⟨·, opened⟩)) := by
  have hcurrent := h.currentHeads (Nat.le_of_lt (List.getElem?_eq_some_iff.1 hs).1)
  cases x with
  | none => exact hcurrent.perm (.of_eq (List.append_nil _))
  | some head =>
    refine ⟨?_, fun a ha => ?_⟩
    · have hnew : opened ∉ m.heap.toList.map OpenSource.source := fun hmem => by
        obtain ⟨a, ha, he⟩ := List.mem_map.1 hmem
        exact Nat.ne_of_lt (h.heap_lt a ha) he
      rw [List.map_append]
      exact List.nodup_append_comm.1 (List.nodup_cons.2 ⟨hnew, hcurrent.distinct⟩)
    · rcases List.mem_append.1 ha with ha | ha
      · exact hcurrent.next a ha
      · obtain rfl := List.mem_singleton.1 ha
        exact ⟨s, 1, hs, Source.itemsFrom_one_of_ok hx⟩

variable {m m' : Merge α (Array (Counted α) × τ × List (α × α))}

/-- Opening a source that has an item makes it one of `k` open sources, and compares at most
`log2 k` times. -/
theorem Ledger.compares_openSource (order : Comparator α τ) (h : Ledger sources opened [] m)
    (hopened : opened < sources.length) :
    EndsIn (fun m' =>
        Compares sources []
          (if sources[opened].hasItem 0 then (m.openSources + 1).log2 else 0) m m' ∧
        m'.openSources = m.openSources + if sources[opened].hasItem 0 then 1 else 0)
      (Merge.openSource (.ofCounted order.noting) opened m) := by
  have hs := List.getElem?_eq_getElem hopened
  have hpolled := h.unread opened _ (Nat.le_refl _) hs
  have hnotes := notes_noting order
  cases hx : sources[opened].answer 0 with
  | error e =>
    have hpoll := poll_ofCounted_of_error order.noting hpolled hx
    have hitem : sources[opened].hasItem 0 = false := by rw [Source.hasItem, hx]
    simp only [Merge.openSource, hpoll, hitem]
    exact ⟨⟨(moved_of_fault hnotes hpoll _).stays, h.currentHeads (Nat.le_of_lt hopened)⟩, rfl⟩
  | ok x =>
    have hcurrent := h.currentHeads_open hs hx
    have hpoll := poll_ofCounted order.noting hpolled hx
    have hitem : sources[opened].hasItem 0 = x.isSome := by
      rw [Source.hasItem, hx]
      cases x <;> rfl
    rw [hitem]
    refine (openSource_moved hnotes hpoll rfl hcurrent.distinct).imp fun m' h => ?_
    refine ⟨⟨h.stays, hcurrent.perm h.perm⟩, ?_⟩
    rw [Merge.openSources, ← Array.length_toList, h.perm.length_eq, List.length_append]
    cases x <;> rfl

theorem countP_take_succ (p : Source α → Bool) {i : Nat} (hi : i < sources.length) :
    (sources.take (i + 1)).countP p =
      (sources.take i).countP p + if p sources[i] then 1 else 0 := by
  rw [List.take_add_one, List.countP_append, List.getElem?_eq_getElem hi]
  exact congrArg _ List.countP_singleton

/-- After the first sources were opened, open are as many of them as start with an item. -/
theorem ledger_openFirst (order : Comparator α τ) (sources : List (Source α)) (t : τ) {count : Nat}
    (hcount : count ≤ sources.length) :
    Leaves (fun _ m => Ledger sources count [] m ∧
        m.openSources = (sources.take count).countP (·.hasItem 0))
      (fun e _ => Refuses order sources e)
      (openAll (.ofCounted order.noting) count
        (.ofWorld ((sources.map Counted.ofSource).toArray, t, []))) := by
  have hsource : ∀ i < count, ∀ m : Merge α (Array (Counted α) × τ × List (α × α)),
      Ledger sources i [] m ∧ m.openSources = (sources.take i).countP (·.hasItem 0) →
      Leaves (fun _ m => Ledger sources (i + 1) [] m ∧
          m.openSources = (sources.take (i + 1)).countP (·.hasItem 0))
        (fun e _ => Refuses order sources e)
        (Merge.openSource (.ofCounted order.noting) i m) := fun i hi m h => by
    have hi := Nat.lt_of_lt_of_le hi hcount
    have hledger := h.1.openSource order.noting hi
    have hopens := h.1.compares_openSource order hi
    cases ho : Merge.openSource (.ofCounted order.noting) i m with
    | error e m' =>
      rw [ho] at hledger
      exact hledger.imp_left raises_of_noting
    | ok u m' =>
      rw [ho] at hledger hopens
      exact ⟨hledger, by rw [hopens.2, h.2, countP_take_succ _ hi]⟩
  exact leaves_forM_range count hsource ⟨ledger_start sources (t, []), rfl⟩

/-- A step compares current heads. -/
theorem Ledger.compares_next (h : Ledger sources sources.length steps m)
    (hnext : (next (.ofCounted order.noting)).attempt m = (step.reply, m'))
    (hcomes : Comes order.noting m m' step) :
    Compares sources ((steps ++ [step]).flatMap MergeStep.gone) (2 * m'.openSources.log2) m m' where
  compared := by
    have hcompared := (next_compared (notes_noting order) (h.nodup (Nat.le_refl _))).attempt
    rwa [hnext] at hcompared
  current := (h.comes hcomes).currentHeads (Nat.le_refl _)

end Accounts

end Merge

/-- Whatever a comparator answers, and also if it gives up: moving a source up or down ends within
as many rounds as the logarithm of the size, with every position there and no source compared with
itself. Opening the `k`-th source that has an item compares at most `log2 k` times, and a step that
leaves `k` open sources at most `2 * log2 k` times, always the current heads of two different open
sources. -/
theorem merge_compares_current_heads (order : Comparator α τ) (sources : List (Source α)) (t : τ) :
    let inputs := MergeInputs.ofCounted order.noting
    let start : Merge α (Array (Counted α) × τ × List (α × α)) :=
      .ofWorld ((sources.map Counted.ofSource).toArray, t, [])
    (∀ (heap : Heap α) entry t,
      Heap.siftUpWithin order (heap.size + 1).log2 (heap.push entry) heap.size t =
        some (heap.insert order entry t)) ∧
    (∀ (heap : Heap α) pos t,
      Heap.siftDownWithin order heap.size.log2 heap pos t = some (heap.siftDown order pos t)) ∧
    -- the comparator that notes its calls makes the same merge
    (∀ n, Agree (· = ·) (Merge.Beside fun w w' => (w.1, w.2.1) = w')
      (attemptAfter (Merge.openAll inputs sources.length) (Merge.next inputs) n start)
      (attemptAfter (Merge.openAll (.ofCounted order) sources.length)
        (Merge.next (.ofCounted order)) n
        (.ofWorld ((sources.map Counted.ofSource).toArray, t)))) ∧
    (∀ i : Fin sources.length, Leaves
      (fun _ m => Merge.Compares sources []
        (if (sources.get i).hasItem 0 then
          ((sources.take (i.val + 1)).countP (·.hasItem 0)).log2 else 0)
        m ((Merge.openSource inputs i.val).attempt m).2)
      (fun e _ => Merge.Refuses order sources e)
      (Merge.openAll inputs i.val start)) ∧
    Leaves
      (fun _ m₀ => ∀ n, ∃ steps m step m',
        attemptAll (List.replicate n (Merge.next inputs)) m₀ = (steps.map MergeStep.reply, m) ∧
        Merge.Run order.noting m₀ steps m ∧
        (Merge.next inputs).attempt m = (step.reply, m') ∧
        Merge.Comes order.noting m m' step ∧
        Merge.Compares sources ((steps ++ [step]).flatMap MergeStep.gone)
          (2 * m'.openSources.log2) m m')
      (fun e _ => Merge.Refuses order sources e)
      (Merge.openAll inputs sources.length start) := by
  intro inputs start
  refine ⟨Heap.insert_within order, Heap.siftDown_within order, fun n => ?_, fun i => ?_, ?_⟩
  · have hnoting := refines_noting order
    have hopen := Merge.refines_openAll hnoting sources.length
    exact agree_attemptAfter (hopen start _ ⟨rfl, rfl⟩) (Merge.refines_next hnoting) n
  · refine (Merge.ledger_openFirst order sources t (Nat.le_of_lt i.isLt)).elim
      (fun _ m h => ?_) (fun _ _ he => he)
    have hcompares := (h.1.compares_openSource order i.isLt).attempt.1
    show Merge.Compares sources [] (if sources[i.val].hasItem 0 then _ else 0) m _
    rw [Merge.countP_take_succ _ i.isLt, ← h.2]
    by_cases hitem : sources[i.val].hasItem 0
    · rw [if_pos hitem] at hcompares
      rwa [if_pos hitem, if_pos hitem]
    · rwa [if_neg hitem] at hcompares ⊢
  · refine (Merge.ledger_openFirst order sources t (Nat.le_refl _)).elim
      (fun _ m₀ h₀ n => ?_) (fun _ _ he => he)
    obtain ⟨steps, m, hall, hrun⟩ := Merge.exists_run order.noting n m₀
    obtain ⟨step, m', hnext, hcomes⟩ := Merge.exists_comes order.noting m
    exact ⟨steps, m, step, m', hall, hrun, hnext, hcomes,
      (h₀.1.run hrun).compares_next hnext hcomes⟩

end Streamkit
