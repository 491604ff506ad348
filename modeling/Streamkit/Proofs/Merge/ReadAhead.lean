import Streamkit.Proofs.Merge.Conservation
import Streamkit.Proofs.Merge.Scan

/-!
# How far a merge reads ahead

A merge reads one item ahead of each of its sources. Opening it polls every source once, in order,
and each step polls the source of the item it gives once and no other source. With the number of
every source noted when it is polled, the notes are therefore the numbers of all sources followed by
those of the items that were given: `Merge.ReadsAhead`, which every step keeps
(`Merge.ReadsAhead.nextFrom_cases`). So a source is never polled again after its end:
`merge_reads_one_ahead`.
-/

namespace Streamkit

open Act

variable {α σ τ : Type}

/-- Counted sources and a comparator; the number of each source that is polled is noted. -/
abbrev MergeInputs.ofNoted (order : Comparator α τ) :
    MergeInputs α ((Array (Counted α) × Array Nat) × τ) :=
  .apart (notePolls Counted.pollAt) order

namespace Merge

/-! ## The polls of a step -/

section Polled

variable {poll : Nat → Act σ (Option α)} {order : Comparator α τ}
  {m : Merge α ((σ × Array Nat) × τ)}

theorem keeps_apart (poll : Nat → Act σ (Option α)) (order : Comparator α τ) (s : σ) :
    (MergeInputs.apart poll order).order.Keeps (fun w => w.1 = s) (fun _ w => w.1 = s) := by
  rintro a b ⟨_, t⟩ rfl
  simp only [MergeInputs.apart, onSnd]
  cases order a b t <;> rfl

theorem polled_of_ok {i : Nat} {s s' : σ × Array Nat} {x : Option α}
    (hpoll : notePolls poll i s = .ok x s') : s'.2 = s.2.push i := by
  rw [← notePolls_polled poll i s, Act.attempt, hpoll]

theorem polled_of_error {i : Nat} {s s' : σ × Array Nat} {e : Fault}
    (hpoll : notePolls poll i s = .error e s') : s'.2 = s.2.push i := by
  rw [← notePolls_polled poll i s, Act.attempt, hpoll]

/-- A source that is opened is polled once. -/
theorem polled_openSource (source : Nat) :
    ((openSource (.apart (notePolls poll) order) source).attempt m).2.world.1.2 =
      m.world.1.2.push source := by
  cases hpoll : notePolls poll source m.world.1 with
  | error e s =>
    have hfault : openSource (.apart (notePolls poll) order) source m =
        .error e ⟨m.heap, s, m.world.2⟩ := by
      simp only [openSource, MergeInputs.apart, onFst, hpoll]
    rw [Act.attempt, hfault, ← polled_of_error hpoll]
  | ok x s =>
    have hpoll' : (MergeInputs.apart (notePolls poll) order).poll source m.world =
        .ok x (s, m.world.2) := by
      simp only [MergeInputs.apart, onFst, hpoll]
    rw [← polled_of_ok hpoll, Act.attempt]
    exact (openSource_shuffles (keeps_apart _ order s) hpoll' rfl).elim
      (fun _ _ h => congrArg Prod.snd h.2.2) (fun _ _ h => congrArg Prod.snd h.2)

/-- A step polls the source of the root once, and no other source. -/
theorem polled_next {root : OpenSource α} (hroot : m.heap[0]? = some root) :
    ((next (.apart (notePolls poll) order)).attempt m).2.world.1.2 =
      m.world.1.2.push root.source := by
  cases hpoll : notePolls poll root.source m.world.1 with
  | error e s =>
    have hfault : next (.apart (notePolls poll) order) m = .error e ⟨m.heap, s, m.world.2⟩ := by
      simp only [next, hroot, MergeInputs.apart, onFst, hpoll]
    rw [Act.attempt, hfault, ← polled_of_error hpoll]
  | ok x s =>
    have hpoll' : (MergeInputs.apart (notePolls poll) order).poll root.source m.world =
        .ok x (s, m.world.2) := by
      simp only [MergeInputs.apart, onFst, hpoll]
    rw [← polled_of_ok hpoll, Act.attempt]
    exact (next_shuffles (keeps_apart _ order s) (toList_of_root hroot) hpoll' rfl).elim
      (fun _ _ h => congrArg Prod.snd h.2.2) (fun _ _ h => congrArg Prod.snd h.2)

end Polled

/-! ## Noting changes nothing -/

/-- The merge without the notes. -/
def unnoted (m : Merge α ((Array (Counted α) × Array Nat) × τ)) :
    Merge α (Array (Counted α) × τ) :=
  ⟨m.heap, m.world.1.1, m.world.2⟩

theorem refines_ofNoted (order : Comparator α τ) :
    (MergeInputs.ofNoted order).Refines (· = ·) (fun s r => (s.1.1, s.2) = r)
      (.ofCounted order) where
  poll i := by
    rintro ⟨⟨cs, polled⟩, t⟩ _ rfl
    show Agree _ _ (onFst (onFst (Counted.pollAt i)) ((cs, polled.push i), t)) _
    simp only [MergeInputs.ofCounted, onFst]
    cases Counted.pollAt i cs <;> exact ⟨rfl, rfl⟩
  order a b := by
    rintro ⟨⟨cs, polled⟩, t⟩ _ rfl
    simp only [MergeInputs.apart, MergeInputs.ofCounted, onSnd]
    cases order a b t <;> exact ⟨rfl, rfl⟩

variable {order : Comparator α τ} {m : Merge α ((Array (Counted α) × Array Nat) × τ)}

theorem beside_unnoted (m : Merge α ((Array (Counted α) × Array Nat) × τ)) :
    Beside (fun s r => (s.1.1, s.2) = r) m m.unnoted := ⟨rfl, rfl⟩

theorem unnoted_eq {m' : Merge α (Array (Counted α) × τ)}
    (h : Beside (fun s r => (s.1.1, s.2) = r) m m') : m.unnoted = m' := by
  obtain ⟨heap, world⟩ := m'
  obtain ⟨rfl, rfl⟩ := h
  rfl

theorem openSource_of_unnoted {source : Nat} {m₁ : Merge α (Array (Counted α) × τ)}
    (h : openSource (.ofCounted order) source m.unnoted = .ok () m₁) :
    ∃ m', openSource (.ofNoted order) source m = .ok () m' ∧ m'.unnoted = m₁ := by
  have hopen := refines_of_coupled
    (coupled_openSource (coupled_of_refines (refines_ofNoted order)) source) m _ (beside_unnoted m)
  rw [h] at hopen
  obtain ⟨m', hrun, hbeside⟩ := hopen.exists_ok
  exact ⟨m', hrun, unnoted_eq hbeside⟩

theorem next_of_unnoted {x : Option α} {m₁ : Merge α (Array (Counted α) × τ)}
    (h : next (.ofCounted order) m.unnoted = .ok x m₁) :
    ∃ m', next (.ofNoted order) m = .ok x m' ∧ m'.unnoted = m₁ := by
  have hnext := refines_next (refines_ofNoted order) m _ (beside_unnoted m)
  rw [h] at hnext
  obtain ⟨m', hrun, hbeside⟩ := hnext.exists_ok
  exact ⟨m', hrun, unnoted_eq hbeside⟩

/-! ## The polls of a run -/

/-- The sources below `opened` were polled once in order, and then the source of each item that was
given; the accounts of the sources are kept as well. -/
structure ReadsAhead (sources : List (Source α)) (opened : Nat) (given : List (OpenSource α))
    (m : Merge α ((Array (Counted α) × Array Nat) × τ)) : Prop where
  accounts : Accounts sources opened given m.unnoted
  polled : m.world.1.2.toList = List.range opened ++ given.map OpenSource.source

theorem readsAhead_start (sources : List (Source α)) (t : τ) :
    ReadsAhead sources 0 []
      (.ofWorld (((sources.map Counted.ofSource).toArray, #[]), t)) where
  accounts := accounts_start sources t
  polled := rfl

section Step

variable {sources : List (Source α)} {opened : Nat} {given : List (OpenSource α)}
  (horder : order.Returns) (hsources : ∀ s ∈ sources, s.Unfailing)

include horder hsources in
theorem ReadsAhead.openSource (h : ReadsAhead sources opened [] m)
    (hopened : opened < sources.length) : ∃ m',
      Merge.openSource (.ofNoted order) opened m = .ok () m' ∧
        ReadsAhead sources (opened + 1) [] m' := by
  obtain ⟨m₁, hopen, haccounts⟩ := h.accounts.openSource horder hsources hopened
  obtain ⟨m', hrun, rfl⟩ := openSource_of_unnoted hopen
  have hpolled : ((Merge.openSource (.ofNoted order) opened).attempt m).2.world.1.2 =
      m.world.1.2.push opened := polled_openSource opened
  rw [Act.attempt, hrun] at hpolled
  refine ⟨m', hrun, haccounts, ?_⟩
  rw [hpolled, Array.toList_push, h.polled, List.range_succ, List.map_nil, List.append_nil,
    List.append_nil]

include horder hsources in
theorem ReadsAhead.openAll (h : ReadsAhead sources 0 [] m) : ∃ m',
    Merge.openAll (.ofNoted order) sources.length m = .ok () m' ∧
      ReadsAhead sources sources.length [] m' := by
  have hsource : ∀ i < sources.length, ∀ m, ReadsAhead sources i [] m →
      Leaves (fun _ => ReadsAhead sources (i + 1) []) never
        (Merge.openSource (.ofNoted order) i m) := by
    intro i hi m h
    obtain ⟨m', hrun, h'⟩ := h.openSource horder hsources hi
    rw [hrun]
    exact h'
  obtain ⟨_, m', hrun, h'⟩ := (leaves_forM_range sources.length hsource h).exists_ok
  exact ⟨m', hrun, h'⟩

include horder hsources in
/-- A step polls the source of the item that it gives, or there is no open source. -/
theorem ReadsAhead.nextFrom_cases (h : ReadsAhead sources sources.length given m) :
    m.heap.toList = [] ∨ ∃ a m', m.heap[0]? = some a ∧
      next (.ofNoted order) m = .ok (some a.head) m' ∧
      m'.world.1.2 = m.world.1.2.push a.source ∧
      ReadsAhead sources sources.length (given ++ [a]) m' := by
  refine (h.accounts.nextFrom_cases horder hsources).imp And.left ?_
  rintro ⟨a, m₁, hfrom, haccounts⟩
  have hnext : next (.ofCounted order) m.unnoted = .ok (some a.head) m₁ := by
    rw [← map_nextFrom]
    simp only [Functor.map, EStateM.map, hfrom, Option.map_some]
  have hroot : m.heap[0]? = some a := by
    rw [nextFrom_of_next hnext] at hfrom
    exact (EStateM.Result.ok.inj hfrom).1
  obtain ⟨m', hrun, rfl⟩ := next_of_unnoted hnext
  have hpolled : ((next (.ofNoted order)).attempt m).2.world.1.2 =
      m.world.1.2.push a.source := polled_next hroot
  rw [Act.attempt, hrun] at hpolled
  refine ⟨a, m', hroot, hrun, hpolled, haccounts, ?_⟩
  rw [hpolled, Array.toList_push, h.polled, List.map_append, List.append_assoc]
  rfl

include horder hsources in
theorem ReadsAhead.gives (n : Nat) (h : ReadsAhead sources sources.length given m) :
    ∃ more : List (OpenSource α), more.length ≤ n ∧
      Act.Gives (nextFrom (.ofNoted order)) (fun m' =>
        ReadsAhead sources sources.length (given ++ more) m' ∧
          (more.length < n → m'.heap.toList = [])) more m := by
  refine gives_of_steps (ReadsAhead sources sources.length) (fun given m h => ?_) n h
  refine (h.nextFrom_cases horder hsources).imp_right ?_
  rintro ⟨a, m', hroot, hrun, -, h'⟩
  exact ⟨a, m', hroot ▸ nextFrom_of_next hrun, h'⟩

end Step

/-! ## The polls of a source -/

section Count

variable {sources : List (Source α)} {given : List (OpenSource α)} {i : Nat} {s : Source α}

/-- A source is polled once more than it has given items. -/
theorem ReadsAhead.count (h : ReadsAhead sources sources.length given m)
    (hs : sources[i]? = some s) : m.world.1.2.count i = 1 + (headsOf i given).length := by
  have hi := (List.getElem?_eq_some_iff.1 hs).1
  rw [← Array.count_toList, h.polled, List.count_append, count_map_source,
    List.count_eq_one_of_mem List.nodup_range (List.mem_range.2 hi)]

/-- A source has not been polled after its end. -/
theorem ReadsAhead.count_le_of_end (h : ReadsAhead sources sources.length given m)
    (hs : sources[i]? = some s) {k : Nat} (hend : s.answer k = .ok none) :
    m.world.1.2.count i ≤ k + 1 := by
  have hi := (List.getElem?_eq_some_iff.1 hs).1
  have hstarts := (h.accounts.read i s hi hs).starts
  rw [h.count hs, Nat.add_comm]
  refine Nat.succ_le_succ (Nat.le_of_not_lt fun hlt => ?_)
  have hitem := hstarts k hlt
  rw [hend, List.getElem?_eq_getElem hlt] at hitem
  cases hitem

end Count

end Merge

/-- A merge polls every source once when it is opened, and then, for each item it gives, the source
of the item. -/
theorem merge_reads_one_ahead {order : Comparator α τ} (horder : order.Returns)
    {sources : List (Source α)} (hsources : ∀ s ∈ sources, s.Unfailing) (t : τ) : ∃ m₀,
    Merge.openAll (.ofNoted order) sources.length
      (.ofWorld (((sources.map Counted.ofSource).toArray, #[]), t)) = .ok () m₀ ∧
    m₀.world.1.2 = Array.range sources.length ∧
    ∀ n, ∃ given m, given.length ≤ n ∧
      attemptAll (List.replicate n (Merge.nextFrom (.ofNoted order))) m₀ = (answers given n, m) ∧
      attemptAll (List.replicate n (Merge.next (.ofNoted order))) m₀ =
        (answers (given.map OpenSource.head) n, m) ∧
      m.world.1.2.toList = List.range sources.length ++ given.map OpenSource.source ∧
      (∀ i (s : Source α), sources[i]? = some s →
        s.Starts (headsOf i given) ∧
        m.world.1.1[i]? = some ⟨s, 1 + (headsOf i given).length⟩ ∧
        m.world.1.2.count i = 1 + (headsOf i given).length ∧
        ∀ k, s.answer k = .ok none → m.world.1.2.count i ≤ k + 1) ∧
      -- with no open source nothing is called, so it does not matter what the callbacks would do
      (m.openSources = 0 → ∀ inputs, Merge.next inputs m = .ok none m) ∧
      (0 < m.openSources → ∃ a m', m.heap[0]? = some a ∧
        Merge.next (.ofNoted order) m = .ok (some a.head) m' ∧
        m'.world.1.2 = m.world.1.2.push a.source) := by
  obtain ⟨m₀, hopen, h₀⟩ := (Merge.readsAhead_start sources t).openAll horder hsources
  refine ⟨m₀, hopen, ?_, fun n => ?_⟩
  · rw [← Array.toList_inj, h₀.polled, Array.toList_range, List.map_nil, List.append_nil]
  obtain ⟨given, hlength, hgives⟩ := h₀.gives horder hsources n
  obtain ⟨m, ⟨h, hheap⟩, hall⟩ :=
    hgives.attemptAll hlength fun hlt m' h' => Merge.nextFrom_of_nil (h'.2 hlt)
  refine ⟨given, m, hlength, hall, ?_, h.polled, fun i s hs => ?_, fun hclosed => ?_,
    fun hsome => ?_⟩
  · rw [← Merge.map_nextFrom, attemptAll_map, hall, map_answers]
  · have hread := h.accounts.read i s (List.getElem?_eq_some_iff.1 hs).1 hs
    refine ⟨hread.starts, ?_, h.count hs, fun k => h.count_le_of_end hs⟩
    rw [Nat.add_comm]
    exact hread.polled
  · exact fun inputs => Merge.next_of_nil (by simpa [Merge.openSources] using hclosed)
  · rcases h.nextFrom_cases horder hsources with hnil | ⟨a, m', hroot, hrun, hpolled, -⟩
    · simp [Merge.openSources, ← Array.length_toList, hnil] at hsome
    · exact ⟨a, m', hroot, hrun, hpolled⟩

theorem merge_reads_one_ahead_by_turns :
    let sources := [.ofScript [.item 5, .item 2, .stop, .item 0], .ofList [], .ofList [3, 1, 4]]
    byTurns.Returns ∧ (∀ s ∈ sources, s.Unfailing) ∧ ∃ m₀,
      Merge.openAll (.ofNoted byTurns) 3
        (.ofWorld (((sources.map Counted.ofSource).toArray, #[]), 0)) = .ok () m₀ ∧
      m₀.world.1.2 = #[0, 1, 2] ∧
      ∀ n, ∃ (given : List (OpenSource Nat))
          (m : Merge Nat ((Array (Counted Nat) × Array Nat) × Nat)),
        attemptAll (List.replicate n (Merge.next (.ofNoted byTurns))) m₀ =
          (answers (given.map OpenSource.head) n, m) ∧
        m.world.1.2.toList = [0, 1, 2] ++ given.map OpenSource.source ∧
        m.world.1.2.count 0 ≤ 3 := by
  intro sources
  have hreturns : byTurns.Returns := fun _ _ _ => ⟨_, _, rfl⟩
  have hsources : ∀ s ∈ sources, s.Unfailing := by
    intro s hs items e _
    simp only [sources, List.mem_cons, List.not_mem_nil, or_false] at hs
    rcases hs with rfl | rfl | rfl
    · rcases items.length with _ | _ | _ | _ | k <;> nofun
    · nofun
    · nofun
  obtain ⟨m₀, hopen, hpolled, hruns⟩ := merge_reads_one_ahead hreturns hsources 0
  refine ⟨hreturns, hsources, m₀, hopen, hpolled, fun n => ?_⟩
  obtain ⟨given, m, -, -, hrun, hpolls, hreads, -⟩ := hruns n
  exact ⟨given, m, hrun, hpolls, (hreads 0 _ rfl).2.2.2 2 rfl⟩

end Streamkit
