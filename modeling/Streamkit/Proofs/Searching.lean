import Streamkit.Proofs.Collect.Filters
import Streamkit.Sequence.Search

/-!
# Searches

What a search of a source comes to is said without running it: the items that are tested are all
turned down but for the last one, which passes or makes the test give up, or else they are all items
up to the end (`Source.Search`). A source that never gives up can be searched, or it has no end and
all its items are turned down (`Source.search_or_rejects`).

`Searches` is what a search needs to know of the sequence that it runs on and of the test there:
step by step they answer as the source and the test do. By induction on the items that are turned
down, any search on such a sequence comes to what is said (`Searches.attempt_findFirst`).
-/

namespace Streamkit

variable {σ τ α : Type}

/-- The test turns down the items, one after the other. -/
def Rejects (test : α → Act τ Bool) : List α → τ → τ → Prop
  | [], t, t' => t' = t
  | a :: items, t, t' => ∃ t₁, test a t = .ok false t₁ ∧ Rejects test items t₁ t'

/-- What a search of the source comes to, from the state `t` of the test: the items that are tested,
the reply, and the state that the test is left in. -/
inductive Source.Search (source : Source α) (test : α → Act τ Bool) (t : τ) :
    List α → Except Fault (Maybe α) → τ → Prop
  | found {rejected : List α} {a : α} {t₁ t' : τ} (starts : source.Starts (rejected ++ [a]))
    (rejects : Rejects test rejected t t₁) (passes : test a t₁ = .ok true t') :
    Search source test t (rejected ++ [a]) (.ok (.present a)) t'
  | gaveUp {rejected : List α} {a : α} {t₁ t' : τ} {e : Fault}
    (starts : source.Starts (rejected ++ [a])) (rejects : Rejects test rejected t t₁)
    (fails : test a t₁ = .error e t') :
    Search source test t (rejected ++ [a]) (.error e) t'
  | missed {items : List α} {t' : τ} (gives : source.Gives items)
    (rejects : Rejects test items t t') : Search source test t items (.ok .absent) t'

/-- One poll for each item that is tested, and one more that sees the end if nothing passes. -/
def searchPolls (tested : List α) : Except Fault (Maybe α) → Nat
  | .ok .absent => tested.length + 1
  | _ => tested.length

/-- The test, which also notes the item that it is called on. -/
def noting (test : α → Act τ Bool) (a : α) : Act (τ × List α) Bool := fun (t, log) =>
  match test a t with
  | .ok b t => .ok b (t, log ++ [a])
  | .error e t => .error e (t, log ++ [a])

/-- The next item that passes the test, among at most `limit` items. -/
def nextPassing (next : Act σ (Option α)) (test : α → Act σ Bool) :
    (limit : Nat) → σ → EStateM.Result Fault σ (Option α)
  | 0, s => .ok none s
  | limit + 1, s =>
    match next s with
    | .error e s => .error e s
    | .ok none s => .ok none s
    | .ok (some a) s =>
      match test a s with
      | .error e s => .error e s
      | .ok true s => .ok (some a) s
      | .ok false s => nextPassing next test limit s

/-! ## Tests -/

section Tests

variable {source : Source α} {test : α → Act τ Bool} {items : List α} {t t₁ t' : τ}

theorem rejects_concat {a : α} (h : Rejects test items t t₁) (ha : test a t₁ = .ok false t') :
    Rejects test (items ++ [a]) t t' := by
  induction items generalizing t with
  | nil =>
    obtain rfl := h
    exact ⟨t', ha, rfl⟩
  | cons b items ih =>
    obtain ⟨t₂, hb, h⟩ := h
    exact ⟨t₂, hb, ih h⟩

theorem Rejects.noting (h : Rejects test items t t') (log : List α) :
    Rejects (noting test) items (t, log) (t', log ++ items) := by
  induction items generalizing t log with
  | nil =>
    obtain rfl := h
    rw [List.append_nil]
    rfl
  | cons a items ih =>
    obtain ⟨t₁, ha, h⟩ := h
    have hrest := ih h (log ++ [a])
    rw [← List.append_cons] at hrest
    exact ⟨(t₁, log ++ [a]), by simp only [Streamkit.noting, ha], hrest⟩

theorem Source.Search.noting {tested : List α} {reply : Except Fault (Maybe α)}
    (h : source.Search test t tested reply t') (log : List α) :
    source.Search (noting test) (t, log) tested reply (t', log ++ tested) := by
  cases h with
  | found starts rejects passes =>
    rw [← List.append_assoc]
    exact .found starts (rejects.noting log) (by simp only [Streamkit.noting, passes])
  | gaveUp starts rejects fails =>
    rw [← List.append_assoc]
    exact .gaveUp starts (rejects.noting log) (by simp only [Streamkit.noting, fails])
  | missed gives rejects => exact .missed gives (rejects.noting log)

/-- The first items of the source are turned down, unless a search comes to something. -/
theorem Source.search_or_rejects (source : Source α) (test : α → Act τ Bool) (t : τ)
    (hsource : ∀ items e, source.Starts items → source.answer items.length ≠ .error e) :
    (∃ tested reply t', source.Search test t tested reply t') ∨
      ∀ n, ∃ items t', items.length = n ∧ source.Starts items ∧ Rejects test items t t' := by
  refine or_iff_not_imp_left.2 fun hsearch n => ?_
  induction n with
  | zero => exact ⟨[], t, rfl, fun _ hk => absurd hk (Nat.not_lt_zero _), rfl⟩
  | succ n ih =>
    obtain ⟨items, t₁, rfl, hstarts, hrejects⟩ := ih
    rcases hanswer : source.answer items.length with e | _ | a
    · exact absurd hanswer (hsource items e hstarts)
    · exact absurd ⟨_, _, _, .missed (hstarts.gives hanswer) hrejects⟩ hsearch
    · have hconcat := hstarts.concat hanswer
      rcases htest : test a t₁ with ⟨_ | _, t'⟩ | ⟨e, t'⟩
      · exact ⟨items ++ [a], t', by simp, hconcat, rejects_concat hrejects htest⟩
      · exact absurd ⟨_, _, _, .found hconcat hrejects htest⟩ hsearch
      · exact absurd ⟨_, _, _, .gaveUp hconcat hrejects htest⟩ hsearch

end Tests

/-! ## Runs -/

/-- The sequence `next` and `test'` answer as the source and the test do. The state of the sequence
is in `inv k t` when it has been asked `k` times and the test is in the state `t`. -/
structure Searches (source : Source α) (test : α → Act τ Bool) (next : Act σ (Option α))
    (test' : α → Act σ Bool) (inv : Nat → τ → σ → Prop) : Prop where
  next : ∀ {items : List α} {x : Option α} {t : τ} {s : σ}, source.Starts items →
    source.answer items.length = .ok x → inv items.length t s →
    ∃ s', next s = .ok x s' ∧ inv (items.length + 1) t s'
  test : ∀ (k : Nat) (a : α),
    Act.Refines (· = ·) (fun s t => inv k t s) (test' a) (test a)

section Runs

variable {source : Source α} {test : α → Act τ Bool} {next : Act σ (Option α)}
  {test' : α → Act σ Bool} {inv : Nat → τ → σ → Prop} {limit : Nat}

theorem findFirst_succ (s : σ) : findFirst next test' (limit + 1) s =
    match next s with
    | .error e s => .error e s
    | .ok none s => .ok .absent s
    | .ok (some a) s =>
      match test' a s with
      | .error e s => .error e s
      | .ok true s => .ok (.present a) s
      | .ok false s => findFirst next test' limit s := by
  simp only [findFirst, Bind.bind, EStateM.bind, walk]
  rcases next s with ⟨_ | a, s⟩ | ⟨e, s⟩
  · rfl
  · rcases htest : test' a s with ⟨_ | _, s'⟩ | ⟨e, s'⟩ <;> simp only [htest] <;> rfl
  · rfl

namespace Searches

variable (h : Searches source test next test' inv)

include h

theorem next_item {given more : List α} {a : α} {t : τ} {s : σ}
    (hstarts : source.Starts (given ++ a :: more)) (hs : inv given.length t s) :
    ∃ s', next s = .ok (some a) s' ∧ inv (given.length + 1) t s' := by
  refine h.next hstarts.of_append ?_ hs
  rw [hstarts given.length (by simp), List.getElem?_append_right (Nat.le_refl _), Nat.sub_self]
  rfl

/-- A search goes on after the items that are turned down. -/
theorem skip {rejected : List α} : ∀ (given : List α) {t t' : τ} {s : σ},
    source.Starts (given ++ rejected) → inv given.length t s → Rejects test rejected t t' →
    ∃ s', inv (given ++ rejected).length t' s' ∧ ∀ limit,
      findFirst next test' (rejected.length + limit) s = findFirst next test' limit s' := by
  induction rejected with
  | nil =>
    intro given t t' s _ hs hrejects
    obtain rfl := hrejects
    exact ⟨s, by rwa [List.append_nil], fun limit => by rw [List.length_nil, Nat.zero_add]⟩
  | cons a rejected ih =>
    intro given t t' s hstarts hs hrejects
    obtain ⟨t₁, ha, hrejects⟩ := hrejects
    obtain ⟨s₁, hnext, hs₁⟩ := h.next_item hstarts hs
    have htest := h.test _ a s₁ t hs₁
    rw [ha] at htest
    obtain ⟨s₂, htest, hs₂⟩ := htest.exists_ok
    rw [List.append_cons] at hstarts ⊢
    have hlength : (given ++ [a]).length = given.length + 1 := by simp
    obtain ⟨s', hs', hskip⟩ := ih _ hstarts (hlength ▸ hs₂) hrejects
    refine ⟨s', hs', fun limit => ?_⟩
    rw [List.length_cons, Nat.add_right_comm, findFirst_succ, hnext]
    simp only [htest, hskip]

/-- After the items that are turned down, a search tests the next one. -/
theorem skip_to {rejected : List α} {a : α} {t t' : τ} {s : σ}
    (hstarts : source.Starts (rejected ++ [a])) (hs : inv 0 t s)
    (hrejects : Rejects test rejected t t') :
    ∃ s', inv (rejected ++ [a]).length t' s' ∧ ∀ limit,
      findFirst next test' ((rejected ++ [a]).length + limit) s =
        match test' a s' with
        | .error e s => .error e s
        | .ok true s => .ok (.present a) s
        | .ok false s => findFirst next test' limit s := by
  obtain ⟨s₁, hs₁, hskip⟩ := h.skip [] hstarts.of_append hs hrejects
  obtain ⟨s', hnext, hs'⟩ := h.next_item hstarts hs₁
  refine ⟨s', by rwa [List.length_append], fun limit => ?_⟩
  rw [List.length_append, List.length_singleton, Nat.add_assoc, Nat.add_comm 1, hskip,
    findFirst_succ, hnext]

/-- A search that tests fewer items than its limit comes to what is said of the source. -/
theorem attempt_findFirst {t t' : τ} {s : σ} (hs : inv 0 t s) {tested : List α}
    {reply : Except Fault (Maybe α)} (hsearch : source.Search test t tested reply t')
    (hlimit : tested.length < limit) :
    ∃ s', (findFirst next test' limit).attempt s = (reply, s') ∧
      inv (searchPolls tested reply) t' s' := by
  obtain ⟨more, rfl⟩ := Nat.exists_eq_add_of_lt hlimit
  rw [Nat.add_assoc]
  cases hsearch with
  | @found rejected a t₁ _ starts rejects passes =>
    obtain ⟨s₁, hs₁, hskip⟩ := h.skip_to starts hs rejects
    have htest := h.test _ a s₁ t₁ hs₁
    rw [passes] at htest
    obtain ⟨s', hrun, hs'⟩ := htest.exists_ok
    exact ⟨s', by simp only [Act.attempt, hskip, hrun], hs'⟩
  | @gaveUp rejected a t₁ _ e starts rejects fails =>
    obtain ⟨s₁, hs₁, hskip⟩ := h.skip_to starts hs rejects
    have htest := h.test _ a s₁ t₁ hs₁
    rw [fails] at htest
    obtain ⟨_, s', hrun, rfl, hs'⟩ := htest.exists_error
    exact ⟨s', by simp only [Act.attempt, hskip, hrun], hs'⟩
  | missed gives rejects =>
    obtain ⟨s₁, hs₁, hskip⟩ := h.skip [] gives.starts hs rejects
    have hend := gives tested.length (Nat.le_refl _)
    rw [List.getElem?_eq_none (Nat.le_refl _)] at hend
    obtain ⟨s', hnext, hs'⟩ := h.next gives.starts hend hs₁
    refine ⟨s', ?_, hs'⟩
    rw [Act.attempt, hskip, findFirst_succ, hnext]

end Searches

end Runs

/-! ## Searches of sources -/

/-- Polling a source and noting the tests is a search of it. -/
theorem searches_polls (source : Source α) (test : α → Act τ Bool) :
    Searches source (noting test) (Act.onFst Counted.poll) (fun a => Act.onSnd (noting test a))
      (fun k t s => s = (⟨source, k⟩, t)) where
  next := by
    rintro items x t _ - hanswer rfl
    exact ⟨_, by simp only [Act.onFst, Counted.poll, hanswer], rfl⟩
  test := by
    rintro k a _ t rfl
    simp only [Act.onSnd]
    rcases noting test a t with ⟨b, t'⟩ | ⟨e, t'⟩
    · exact ⟨rfl, rfl⟩
    · exact ⟨rfl, rfl⟩

theorem Source.Search.attempt_findFirst {source : Source α} {test : α → Act τ Bool} {t t' : τ}
    {tested : List α} {reply : Except Fault (Maybe α)} (h : source.Search test t tested reply t')
    {limit : Nat} (hlimit : tested.length < limit) :
    (findFirst (Act.onFst Counted.poll) (fun a => Act.onSnd (Streamkit.noting test a))
        limit).attempt (.ofSource source, t, []) =
      (reply, ⟨source, searchPolls tested reply⟩, t', tested) := by
  obtain ⟨_, hrun, rfl⟩ :=
    (searches_polls source test).attempt_findFirst rfl (h.noting []) hlimit
  exact hrun

/-- What a search of the source comes to, and what it tests and polls. -/
structure Source.SearchedBy (source : Source α) (test : α → Act τ Bool) (t : τ) : Prop where
  /-- A source that does not give up is searched, unless its items are turned down for ever. -/
  ends : (∀ items e, source.Starts items → source.answer items.length ≠ .error e) →
    (∃ tested reply t', source.Search test t tested reply t') ∨
      ∀ n, ∃ items t', items.length = n ∧ source.Starts items ∧ Rejects test items t t'
  attempt : ∀ tested reply t' limit, source.Search test t tested reply t' →
    tested.length < limit →
    (findFirst (Act.onFst Counted.poll) (fun a => Act.onSnd (Streamkit.noting test a))
        limit).attempt (.ofSource source, t, []) =
      (reply, ⟨source, searchPolls tested reply⟩, t', tested)

theorem Source.searchedBy (source : Source α) (test : α → Act τ Bool) (t : τ) :
    source.SearchedBy test t where
  ends := source.search_or_rejects test t
  attempt _ _ _ _ hsearch hlimit := hsearch.attempt_findFirst hlimit

theorem Source.attempt_first (source : Source α) : (first Counted.poll).attempt (.ofSource source) =
    ((source.answer 0).map Maybe.ofOption, ⟨source, 1⟩) := by
  simp only [Act.attempt, first, Bind.bind, EStateM.bind, Counted.poll, Counted.ofSource]
  cases source.answer 0 <;> rfl

/-! ## Filtered sequences -/

/-- A search gives the first item of the filtered sequence. -/
theorem findFirst_eq_first (next : Act σ (Option α)) (test : α → Act σ Bool) (limit : Nat) :
    findFirst next test limit = first (nextPassing next test limit) := by
  funext s
  induction limit generalizing s with
  | zero => rfl
  | succ limit ih =>
    rw [findFirst_succ]
    simp only [ih, first, nextPassing, Bind.bind, EStateM.bind]
    rcases next s with ⟨_ | a, s⟩ | ⟨e, s⟩
    · rfl
    · rcases htest : test a s with ⟨_ | _, s'⟩ | ⟨e, s'⟩ <;> simp only [htest]
      rfl
    · rfl

/-- The payload of a filter by a predicate. -/
def passing (p : α → Bool) (a : α) : Maybe α := if p a then .present a else .absent

theorem nextPassing_eq_nextChosen (next : Act σ (Option α)) (p : α → Bool) (limit : Nat) :
    nextPassing next (fun a => pure (p a)) limit = nextChosen (passing p) next limit := by
  funext s
  induction limit generalizing s with
  | zero => rfl
  | succ limit ih =>
    rw [nextChosen_succ, nextPassing]
    rcases next s with ⟨_ | a, s⟩ | ⟨e, s⟩
    · rfl
    · cases hp : p a <;> simp only [passing, hp, ← ih] <;> rfl
    · rfl

theorem chosen_passing (p : α → Bool) (items : List α) :
    chosen (passing p) items = items.filter p := by
  rw [chosen, ← List.filterMap_eq_filter]
  congr
  funext a
  cases hp : p a <;> simp [passing, Option.guard, hp, Maybe.toOption]

theorem pull_nextPassing {source : Source α} {items : List α} (h : source.Gives items)
    (p : α → Bool) {limit n : Nat} (hlimit : items.length < limit) (hn : items.length < n) :
    pull (nextPassing Counted.poll (fun a => pure (p a)) limit) n (.ofSource source) =
      .ok ⟨(items.filter p).toArray, true⟩ ⟨source, items.length + 1⟩ := by
  rw [nextPassing_eq_nextChosen, pull_chosen h.polled hlimit hn, chosen_passing]

theorem findFirst_of_passes (next : Act σ (Option α)) (limit : Nat) :
    findFirst next (fun _ => pure true) (limit + 1) = first next := by
  funext s
  rw [findFirst_succ]
  simp only [first, Bind.bind, EStateM.bind]
  rcases next s with ⟨_ | a, s⟩ | ⟨e, s⟩ <;> rfl

end Streamkit
