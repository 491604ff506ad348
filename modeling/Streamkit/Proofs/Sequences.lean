import Streamkit.Proofs.Refinement

/-!
# What sequences give

A sequence is asked by an action `next`, and `Act.Gives next rest items s` says what its answers are
from the state `s` on: the items, one after the other, and then whatever `rest` promises of the
state. Pulling a number of items takes as many of these (`Act.pull_of_gives`). A source gives items
when they are its answers, up to its end (`Source.Gives`) or to begin with (`Source.Starts`);
`Source.itemsFrom` is the list of what it gives, whatever its answers are.
-/

namespace Streamkit

variable {σ α : Type}

/-- The items come one after the other, and `rest` holds of the state after them. -/
def Act.Gives (next : Act σ (Option α)) (rest : σ → Prop) : List α → σ → Prop
  | [], s => rest s
  | a :: items, s => ∃ s₁, next s = .ok (some a) s₁ ∧ Gives next rest items s₁

/-- The sequence is at its end. -/
def Act.AtEnd (next : Act σ (Option α)) (s : σ) : Prop := ∃ s', next s = .ok none s'

/-- The source gives the items in order, and then its end. -/
def Source.Gives (s : Source α) (items : List α) : Prop :=
  ∀ k ≤ items.length, s.answer k = .ok items[k]?

/-- The source gives the items in order to begin with. -/
def Source.Starts (s : Source α) (items : List α) : Prop :=
  ∀ k < items.length, s.answer k = .ok items[k]?

/-- From its position on the source gives the items in order, and then its end. -/
def Counted.Gives (c : Counted α) (items : List α) : Prop :=
  ∀ k ≤ items.length, c.source.answer (c.polls + k) = .ok items[k]?

/-- The items among `polls` answers from the answer `k` on, up to the first end; faults are passed
over. -/
def Source.itemsFrom (s : Source α) : (k polls : Nat) → List α
  | _, 0 => []
  | k, polls + 1 =>
    match s.answer k with
    | .ok none => []
    | .ok (some a) => a :: s.itemsFrom (k + 1) polls
    | .error _ => s.itemsFrom (k + 1) polls

/-! ## Pulling items -/

section Pull

variable {next : Act σ (Option α)} {rest : σ → Prop}

theorem Act.Gives.mono {rest' : σ → Prop} (hrest : ∀ s, rest s → rest' s) {items : List α} :
    ∀ {s : σ}, Gives next rest items s → Gives next rest' items s := by
  induction items with
  | nil => exact hrest _
  | cons a items ih =>
    rintro s ⟨s₁, hnext, h⟩
    exact ⟨s₁, hnext, ih h⟩

theorem Act.Gives.take {items : List α} : ∀ {s : σ} (n : Nat), Gives next rest items s →
    n ≤ items.length → Gives next (fun _ => True) (items.take n) s := by
  induction items with
  | nil => exact fun _ _ _ => by simp [Gives]
  | cons a items ih =>
    rintro s n ⟨s₁, hnext, h⟩ hn
    cases n with
    | zero => trivial
    | succ n => exact ⟨s₁, hnext, ih n h (Nat.le_of_succ_le_succ hn)⟩

theorem Act.Gives.map {β : Type} (f : α → β) {items : List α} :
    ∀ {s : σ}, Gives next rest items s → Gives (Option.map f <$> next) rest (items.map f) s := by
  induction items with
  | nil => exact id
  | cons a items ih =>
    rintro s ⟨s₁, hnext, h⟩
    refine ⟨s₁, ?_, ih h⟩
    simp only [Functor.map, EStateM.map, hnext]
    rfl

theorem Act.gives_append {items more : List α} : ∀ {s : σ},
    Gives next rest (items ++ more) s ↔ Gives next (Gives next rest more) items s := by
  induction items with
  | nil => exact Iff.rfl
  | cons a items ih => exact exists_congr fun s₁ => and_congr_right fun _ => ih

/-- A walk whose visitor goes on at all of the items goes on after them, with what the visitor has
made of them, from the state after them. -/
theorem walk_foldl {β : Type} {visit : β → α → Act σ (Visit β)} {step : β → α → β}
    {items : List α} : ∀ {s : σ} (b : β), Act.Gives next rest items s →
    (∀ a ∈ items, ∀ b, visit b a = pure (.continue (step b a))) →
    ∃ s', rest s' ∧ ∀ limit,
      walk next visit (items.length + limit) b s =
        walk next visit limit (items.foldl step b) s' := by
  induction items with
  | nil => exact fun b h _ => ⟨_, h, fun limit => by rw [List.length_nil, Nat.zero_add]; rfl⟩
  | cons a items ih =>
    rintro s b ⟨s₁, hnext, h⟩ hvisit
    obtain ⟨s', hrest, hwalk⟩ := ih (step b a) h fun a ha => hvisit a (List.mem_cons_of_mem _ ha)
    have hfirst : visit b a s₁ = .ok (.continue (step b a)) s₁ := by
      rw [hvisit a List.mem_cons_self b]
      rfl
    refine ⟨s', hrest, fun limit => ?_⟩
    rw [List.length_cons, Nat.add_right_comm, walk, hnext]
    simp only [hfirst]
    exact hwalk limit

/-- A walk whose visitor goes on at all items comes to the end of the sequence. -/
theorem walk_foldl_all {β : Type} {visit : β → α → Act σ (Visit β)} {step : β → α → β}
    {items : List α} {s s' : σ} (b : β)
    (h : Act.Gives next (fun s => next s = .ok none s') items s)
    (hvisit : ∀ a ∈ items, ∀ b, visit b a = pure (.continue (step b a))) {limit : Nat}
    (hlimit : items.length < limit) :
    walk next visit limit b s = .ok (items.foldl step b, .finished) s' := by
  obtain ⟨s₁, hend, hwalk⟩ := walk_foldl b h hvisit
  obtain ⟨more, rfl⟩ := Nat.exists_eq_add_of_lt hlimit
  rw [Nat.add_assoc, hwalk, walk, hend]

/-- A walk that collects what it is shown goes on after the items from the state after them. -/
theorem walk_of_gives {items : List α} {s : σ} (seen : Array α) (h : Act.Gives next rest items s) :
    ∃ s', rest s' ∧ ∀ limit,
      walk next (fun items a => pure (.continue (items.push a))) (items.length + limit) seen s =
        walk next (fun items a => pure (.continue (items.push a))) limit
          (seen ++ items.toArray) s' := by
  obtain ⟨s', hrest, hwalk⟩ := walk_foldl seen h fun _ _ _ => rfl
  refine ⟨s', hrest, fun limit => ?_⟩
  rw [hwalk, List.foldl_push_eq_append']

/-- Pulling takes exactly the items, or sees the end after them. -/
theorem Act.Gives.pull {items : List α} {s : σ} (h : Gives next rest items s) {limit : Nat}
    (hlimit : items.length ≤ limit)
    (hend : items.length < limit → ∀ s, rest s → next s = .ok none s) :
    ∃ s', rest s' ∧
      pull next limit s = .ok ⟨items.toArray, decide (items.length < limit)⟩ s' := by
  obtain ⟨s', hrest, hwalk⟩ := walk_of_gives #[] h
  refine ⟨s', hrest, ?_⟩
  obtain ⟨more, rfl⟩ := Nat.exists_eq_add_of_le hlimit
  simp only [Streamkit.pull, Bind.bind, EStateM.bind, hwalk, Array.empty_append]
  cases more with
  | zero => simp only [walk, Nat.add_zero, Nat.lt_irrefl, decide_false]; rfl
  | succ more =>
    have hlt : items.length < items.length + (more + 1) := by omega
    simp only [walk, hend hlt s' hrest, decide_eq_true hlt]
    rfl

theorem pull_of_gives_all {s s' : σ} {items : List α}
    (h : Act.Gives next (fun s => next s = .ok none s') items s) {limit : Nat}
    (hlimit : items.length < limit) : pull next limit s = .ok ⟨items.toArray, true⟩ s' := by
  have hwalk : walk next (fun items a => pure (.continue (items.push a))) limit #[] s =
      .ok (items.foldl (fun items a => items.push a) #[], .finished) s' :=
    walk_foldl_all #[] h (fun _ _ _ => rfl) hlimit
  rw [List.foldl_push_eq_append', Array.empty_append] at hwalk
  simp only [pull, Bind.bind, EStateM.bind, hwalk]
  rfl

theorem Act.Gives.exists_end {items : List α} :
    ∀ {s : σ}, Gives next (AtEnd next) items s →
      ∃ s', Gives next (fun s => next s = .ok none s') items s := by
  induction items with
  | nil => exact id
  | cons a items ih =>
    rintro s ⟨s₁, hnext, h⟩
    obtain ⟨s', h'⟩ := ih h
    exact ⟨s', s₁, hnext, h'⟩

/-- Pulling takes the items up to the limit, and sees the end if the limit is beyond it. -/
theorem Act.pull_of_gives {items : List α} {s : σ} {limit : Nat} (h : Gives next rest items s)
    (hrest : limit ≤ items.length ∨ ∀ s, rest s → AtEnd next s) :
    ∃ s', pull next limit s =
      .ok ⟨(items.take limit).toArray, decide (items.length < limit)⟩ s' := by
  rcases Nat.lt_or_ge items.length limit with hlt | hle
  · obtain ⟨s', h'⟩ := (h.mono (hrest.resolve_left (Nat.not_le_of_gt hlt))).exists_end
    refine ⟨s', ?_⟩
    rw [List.take_of_length_le (Nat.le_of_lt hlt), decide_eq_true hlt]
    exact pull_of_gives_all h' hlt
  · have hlength : (items.take limit).length = limit := by rw [List.length_take]; omega
    obtain ⟨s', -, hpull⟩ := (h.take limit hle).pull (Nat.le_of_eq hlength) (by omega)
    refine ⟨s', ?_⟩
    rw [hpull, hlength, decide_eq_false (Nat.lt_irrefl _), decide_eq_false (Nat.not_lt_of_ge hle)]

/-- The replies to a number of requests, of which the first ones give the items. -/
def Act.answers (items : List α) (n : Nat) : List (Except Fault (Option α)) :=
  items.map (fun a => .ok (some a)) ++ List.replicate (n - items.length) (.ok none)

theorem Act.map_answers {β : Type} (f : α → β) (items : List α) (n : Nat) :
    (answers items n).map (Except.map (Option.map f)) = answers (items.map f) n := by
  simp [answers, Except.map]

theorem Act.attemptAll_map {β : Type} (f : α → β) (x : Act σ α) (n : Nat) (s : σ) :
    attemptAll (List.replicate n (f <$> x)) s =
      ((attemptAll (List.replicate n x) s).1.map (Except.map f),
        (attemptAll (List.replicate n x) s).2) := by
  induction n generalizing s with
  | zero => rfl
  | succ n ih =>
    have hattempt : (f <$> x).attempt s = ((x.attempt s).1.map f, (x.attempt s).2) := by
      simp only [attempt, Functor.map, EStateM.map]
      cases x s <;> rfl
    simp only [List.replicate_succ, attemptAll, hattempt, ih, List.map_cons]

theorem Act.attemptAfter_map {β : Type} (f : α → β) (x : Act σ Unit) (y : Act σ α) (n : Nat) :
    attemptAfter x (f <$> y) n = List.map (Except.map f) <$> attemptAfter x y n := by
  funext s
  simp only [attemptAfter, Functor.map, EStateM.map]
  cases x s with
  | ok u s => exact congrArg (fun r => EStateM.Result.ok r.1 r.2) (attemptAll_map f y n s)
  | error e s => rfl

theorem Act.attemptAll_of_end {s : σ} (h : next s = .ok none s) (n : Nat) :
    attemptAll (List.replicate n next) s = (List.replicate n (.ok none), s) := by
  induction n with
  | zero => rfl
  | succ n ih =>
    have hattempt : next.attempt s = (.ok none, s) := by simp only [attempt, h]
    simp only [List.replicate_succ, attemptAll, hattempt, ih]

theorem Act.Gives.attemptAll {items : List α} : ∀ {s : σ}, Gives next rest items s → ∀ {n : Nat},
    items.length ≤ n → (items.length < n → ∀ s, rest s → next s = .ok none s) →
    ∃ s', rest s' ∧ attemptAll (List.replicate n next) s = (answers items n, s') := by
  induction items with
  | nil =>
    intro s h n _ hend
    cases n with
    | zero => exact ⟨s, h, rfl⟩
    | succ n => exact ⟨s, h, attemptAll_of_end (hend (Nat.zero_lt_succ n) s h) _⟩
  | cons a items ih =>
    rintro s ⟨s₁, hnext, h⟩ n hn hend
    obtain ⟨n, rfl⟩ := Nat.exists_eq_succ_of_ne_zero (Nat.ne_of_gt (Nat.zero_lt_of_lt hn))
    obtain ⟨s', hrest, hall⟩ := ih h (Nat.le_of_succ_le_succ hn) fun hlt =>
      hend (Nat.succ_lt_succ hlt)
    have hattempt : next.attempt s = (.ok (some a), s₁) := by simp only [attempt, hnext]
    refine ⟨s', hrest, ?_⟩
    simp only [List.replicate_succ, Act.attemptAll, hattempt, hall, answers, List.map_cons,
      List.length_cons, Nat.succ_eq_add_one, Nat.add_sub_add_right, List.cons_append]

/-- Asked a number of times, a sequence gives the first of its items. -/
theorem Act.Gives.attemptAll_take {items : List α} {s : σ} (h : Gives next rest items s) (n : Nat)
    (hend : ∀ s, rest s → next s = .ok none s) :
    ∃ s', Act.attemptAll (List.replicate n next) s = (answers (items.take n) n, s') := by
  rcases Nat.le_total n items.length with hle | hle
  · have hlength : (items.take n).length = n := List.length_take_of_le hle
    obtain ⟨s', -, hall⟩ := (h.take n hle).attemptAll (Nat.le_of_eq hlength) fun hlt =>
      absurd hlength (Nat.ne_of_lt hlt)
    exact ⟨s', hall⟩
  · obtain ⟨s', -, hall⟩ := h.attemptAll hle fun _ => hend
    rw [List.take_of_length_le hle]
    exact ⟨s', hall⟩

/-- The items can be read off the replies. -/
theorem Act.answers_injective {n : Nat} {items items' : List α}
    (h : answers items n = answers items' n) : items = items' := by
  have hitems : ∀ items : List α,
      (answers items n).filterMap (fun reply => reply.toOption.join) = items := by
    intro items
    rw [answers, List.filterMap_append, List.filterMap_map, List.filterMap_replicate_of_none rfl,
      List.append_nil]
    exact List.filterMap_some
  rw [← hitems items, h, hitems]

/-- A sequence whose every step gives an item or shows that it is at its end gives as many items as
it is asked for, or all. -/
theorem Act.gives_of_steps (inv : List α → σ → Prop) {ended : σ → Prop}
    (hstep : ∀ given s, inv given s →
      ended s ∨ ∃ a s', next s = .ok (some a) s' ∧ inv (given ++ [a]) s')
    (n : Nat) : ∀ {given : List α} {s : σ}, inv given s →
    ∃ more : List α, more.length ≤ n ∧
      Gives next (fun s' => inv (given ++ more) s' ∧ (more.length < n → ended s')) more s := by
  induction n with
  | zero =>
    intro given s h
    exact ⟨[], Nat.le_refl 0, (List.append_nil given).symm ▸ h, nofun⟩
  | succ n ih =>
    intro given s h
    rcases hstep given s h with hend | ⟨a, s₁, hnext, h₁⟩
    · exact ⟨[], Nat.zero_le _, (List.append_nil given).symm ▸ h, fun _ => hend⟩
    · obtain ⟨more, hmore, hgives⟩ := ih h₁
      refine ⟨a :: more, Nat.succ_le_succ hmore, s₁, hnext, hgives.mono fun s' h' => ?_⟩
      rw [List.append_assoc] at h'
      exact ⟨h'.1, fun hlt => h'.2 (Nat.lt_of_succ_lt_succ hlt)⟩

end Pull

/-! ## Sources -/

theorem Source.gives_ofList (items : List α) : (Source.ofList items).Gives items := fun k _ => by
  simp only [Source.ofList, List.getElem?_toArray]

theorem Source.Starts.concat {s : Source α} {items : List α} (h : s.Starts items) {a : α}
    (ha : s.answer items.length = .ok (some a)) : s.Starts (items ++ [a]) := by
  intro k hk
  rw [List.length_append, List.length_singleton] at hk
  rcases Nat.lt_succ_iff_lt_or_eq.1 hk with hk | rfl
  · rw [List.getElem?_append_left hk]
    exact h k hk
  · rw [List.getElem?_concat_length]
    exact ha

theorem Source.Gives.starts {s : Source α} {items : List α} (h : s.Gives items) :
    s.Starts items := fun k hk => h k (Nat.le_of_lt hk)

theorem Source.Starts.gives {s : Source α} {items : List α} (h : s.Starts items)
    (hend : s.answer items.length = .ok none) : s.Gives items := by
  intro k hk
  rcases Nat.lt_or_eq_of_le hk with hk | rfl
  · exact h k hk
  · rw [hend, List.getElem?_eq_none (Nat.le_refl _)]

theorem Source.Starts.of_append {s : Source α} {items more : List α}
    (h : s.Starts (items ++ more)) : s.Starts items := by
  intro k hk
  rw [h k (by rw [List.length_append]; omega), List.getElem?_append_left hk]

namespace Counted

theorem Gives.tail {c : Counted α} {a : α} {items : List α} (h : c.Gives (a :: items)) :
    Gives { c with polls := c.polls + 1 } items := by
  intro k hk
  have hk' := h (k + 1) (by simpa using hk)
  rw [List.getElem?_cons_succ] at hk'
  rw [← hk', Nat.add_assoc, Nat.add_comm 1]

theorem pollAt_eq {cs : Array (Counted α)} {i polls : Nat} {source : Source α}
    (hc : cs[i]? = some ⟨source, polls⟩) :
    pollAt i cs = Act.ofExcept (source.answer polls)
      (cs.modify i fun c => { c with polls := c.polls + 1 }) := by
  obtain ⟨hi, hc⟩ := Array.getElem?_eq_some_iff.1 hc
  simp only [pollAt, dif_pos hi, hc]
  cases source.answer polls <;> rfl

/-- The answers of a source, one poll after the other. -/
theorem gives_poll {source : Source α} {rest : Counted α → Prop} (items : List α) :
    ∀ polls, (∀ k < items.length, source.answer (polls + k) = .ok items[k]?) →
      rest ⟨source, polls + items.length⟩ → Act.Gives poll rest items ⟨source, polls⟩ := by
  induction items with
  | nil => exact fun _ _ hrest => hrest
  | cons a items ih =>
    intro polls hanswer hrest
    have hhead : source.answer polls = .ok (some a) := hanswer 0 (Nat.zero_lt_succ _)
    refine ⟨⟨source, polls + 1⟩, by simp only [poll, hhead], ih _ (fun k hk => ?_) ?_⟩
    · rw [Nat.add_right_comm, Nat.add_assoc]
      exact hanswer (k + 1) (Nat.succ_lt_succ hk)
    · rwa [Nat.add_right_comm, Nat.add_assoc]

end Counted

theorem Source.Starts.polled {s : Source α} {items : List α} (h : s.Starts items) :
    Act.Gives Counted.poll (· = ⟨s, items.length⟩) items (.ofSource s) :=
  Counted.gives_poll items 0 (fun k hk => by rw [Nat.zero_add]; exact h k hk) (by rw [Nat.zero_add])

theorem Source.Gives.polled {s : Source α} {items : List α} (h : s.Gives items) :
    Act.Gives Counted.poll (fun c => Counted.poll c = .ok none ⟨s, items.length + 1⟩) items
      (.ofSource s) := by
  refine h.starts.polled.mono ?_
  rintro _ rfl
  have hend := h items.length (Nat.le_refl _)
  rw [List.getElem?_eq_none (Nat.le_refl _)] at hend
  simp only [Counted.poll, hend]

theorem Source.Starts.gives_poll {s : Source α} {items : List α} (h : s.Starts items) :
    Act.Gives Counted.poll (fun _ => True) items (.ofSource s) :=
  h.polled.mono fun _ _ => trivial

theorem Source.Gives.gives_poll {s : Source α} {items : List α} (h : s.Gives items) :
    Act.Gives Counted.poll (Act.AtEnd Counted.poll) items (.ofSource s) :=
  h.polled.mono fun _ hend => ⟨_, hend⟩

end Streamkit
