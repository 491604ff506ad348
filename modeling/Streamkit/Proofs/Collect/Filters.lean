import Streamkit.Proofs.Sequences
import Streamkit.Sequence.Collect

/-!
# Filters

A filter of a sequence gives the chosen payloads of its items (`nextChosen`). While it looks for the
next one, the items that it has passed over are counted against its limit; `gives_chosen` goes
through the items with these set aside. A filter asks for no item after the last one whose payload
it gives: `pull_chosen_of_starts`.
-/

namespace Streamkit

variable {σ α β : Type}

/-- The chosen payloads of the items, in order. -/
def chosen (choose : α → Maybe β) (items : List α) : List β :=
  items.filterMap fun a => (choose a).toOption

/-- The first of the items, up to the `k`-th one with a chosen payload. -/
structure UpTo (choose : α → Maybe β) (k : Nat) (items before : List α) : Prop where
  isPrefix : before <+: items
  length_chosen : (chosen choose before).length = k
  last_chosen : ∀ a ∈ before.getLast?, choose a ≠ .absent

section Chosen

variable {choose : α → Maybe β} {next : Act σ (Option α)} {rest : σ → Prop} {s s' : σ}
  {limit : Nat}

theorem chosen_append (items more : List α) :
    chosen choose (items ++ more) = chosen choose items ++ chosen choose more :=
  List.filterMap_append

theorem chosen_cons_of_absent {a : α} (ha : choose a = .absent) (items : List α) :
    chosen choose (a :: items) = chosen choose items := by
  simp [chosen, ha, Maybe.toOption]

theorem chosen_cons_of_present {a : α} {b : β} (ha : choose a = .present b) (items : List α) :
    chosen choose (a :: items) = b :: chosen choose items := by
  simp [chosen, ha, Maybe.toOption]

theorem length_chosen_le (items : List α) : (chosen choose items).length ≤ items.length :=
  List.length_filterMap_le _ _

/-- Every chosen payload is that of an item, behind the items of the payloads before it. -/
theorem exists_of_lt_length_chosen {items : List α} : ∀ {k : Nat},
    k < (chosen choose items).length → ∃ before a b after,
      items = before ++ a :: after ∧ choose a = .present b ∧ (chosen choose before).length = k := by
  induction items with
  | nil => exact fun hk => absurd hk (Nat.not_lt_zero _)
  | cons a items ih =>
    intro k hk
    cases ha : choose a with
    | absent =>
      rw [chosen_cons_of_absent ha] at hk
      obtain ⟨before, a', b, after, rfl, hb, hlength⟩ := ih hk
      exact ⟨a :: before, a', b, after, rfl, hb, by rw [chosen_cons_of_absent ha, hlength]⟩
    | present b =>
      rw [chosen_cons_of_present ha] at hk
      cases k with
      | zero => exact ⟨[], a, b, items, rfl, ha, rfl⟩
      | succ k =>
        obtain ⟨before, a', b', after, rfl, hb, hlength⟩ := ih (Nat.lt_of_succ_lt_succ hk)
        refine ⟨a :: before, a', b', after, rfl, hb, ?_⟩
        rw [chosen_cons_of_present ha, List.length_cons, hlength]

theorem nextChosen_succ : nextChosen choose next (limit + 1) s =
    match next s with
    | .error e s => .error e s
    | .ok none s => .ok none s
    | .ok (some a) s =>
      match choose a with
      | .absent => nextChosen choose next limit s
      | .present b => .ok (some b) s := by
  simp only [nextChosen, Bind.bind, EStateM.bind, walk]
  rcases next s with ⟨_ | a, s⟩ | ⟨e, s⟩
  · rfl
  · cases ha : choose a <;> simp only [ha] <;> rfl
  · rfl

/-- A filter passes over the items without a chosen payload. -/
theorem nextChosen_skip {skipped : List α} : ∀ {s : σ}, Act.Gives next rest skipped s →
    (∀ a ∈ skipped, choose a = .absent) →
    ∃ s', rest s' ∧ ∀ limit,
      nextChosen choose next (skipped.length + limit) s = nextChosen choose next limit s' := by
  induction skipped with
  | nil => exact fun h _ => ⟨_, h, fun limit => by rw [List.length_nil, Nat.zero_add]⟩
  | cons a skipped ih =>
    rintro s ⟨s₁, hnext, h⟩ hskipped
    obtain ⟨ha, hskipped⟩ := List.forall_mem_cons.1 hskipped
    obtain ⟨s', hrest, hskip⟩ := ih h hskipped
    refine ⟨s', hrest, fun limit => ?_⟩
    rw [List.length_cons, Nat.add_right_comm, nextChosen_succ, hnext]
    simp only [ha, hskip]

theorem gives_chosen_of_present {skipped : List α} {a : α} {b : β}
    (h : Act.Gives next rest (skipped ++ [a]) s) (hskipped : ∀ a ∈ skipped, choose a = .absent)
    (ha : choose a = .present b) (hlimit : skipped.length < limit) :
    Act.Gives (nextChosen choose next limit) rest [b] s := by
  obtain ⟨s₁, ⟨s₂, hnext, hrest⟩, hskip⟩ := nextChosen_skip (Act.gives_append.1 h) hskipped
  obtain ⟨more, rfl⟩ := Nat.exists_eq_add_of_lt hlimit
  refine ⟨s₂, ?_, hrest⟩
  rw [Nat.add_assoc, hskip, nextChosen_succ, hnext]
  simp only [ha]

theorem nextChosen_of_end {skipped : List α}
    (h : Act.Gives next (fun s => next s = .ok none s') skipped s)
    (hskipped : ∀ a ∈ skipped, choose a = .absent) (hlimit : skipped.length < limit) :
    nextChosen choose next limit s = .ok none s' := by
  obtain ⟨s₁, hend, hskip⟩ := nextChosen_skip h hskipped
  obtain ⟨more, rfl⟩ := Nat.exists_eq_add_of_lt hlimit
  rw [Nat.add_assoc, hskip, nextChosen_succ, hend]

/-- A filter gives the chosen payloads; after them come items without one, and then `rest`. The
items in `skipped` were passed over since the last chosen one. -/
theorem gives_chosen {items : List α} : ∀ (skipped : List α) {s : σ},
    Act.Gives next rest (skipped ++ items) s → (∀ a ∈ skipped, choose a = .absent) →
    skipped.length + items.length < limit →
    Act.Gives (nextChosen choose next limit)
      (fun s => ∃ skipped : List α, Act.Gives next rest skipped s ∧
        (∀ a ∈ skipped, choose a = .absent) ∧ skipped.length < limit)
      (chosen choose items) s := by
  induction items with
  | nil =>
    intro skipped s h hskipped hlimit
    exact ⟨skipped, List.append_nil skipped ▸ h, hskipped, hlimit⟩
  | cons a items ih =>
    intro skipped s h hskipped hlimit
    rw [List.length_cons] at hlimit
    rw [List.append_cons] at h
    cases ha : choose a with
    | absent =>
      rw [chosen_cons_of_absent ha]
      refine ih _ h (List.forall_mem_append.2 ⟨hskipped, List.forall_mem_singleton.2 ha⟩) ?_
      rw [List.length_append, List.length_singleton]
      omega
    | present b =>
      rw [chosen_cons_of_present ha]
      have hfirst : Act.Gives (nextChosen choose next limit) (Act.Gives next rest items) [b] s :=
        gives_chosen_of_present (Act.gives_append.1 h) hskipped ha (by omega)
      obtain ⟨s₁, hnext, h⟩ := hfirst
      refine ⟨s₁, hnext, ?_⟩
      exact ih [] h (List.forall_mem_nil _) (by rw [List.length_nil]; omega)

theorem pull_chosen {items : List α} (h : Act.Gives next (fun s => next s = .ok none s') items s)
    (hlimit : items.length < limit) {n : Nat} (hn : items.length < n) :
    pull (nextChosen choose next limit) n s = .ok ⟨(chosen choose items).toArray, true⟩ s' := by
  have hgives : Act.Gives (nextChosen choose next limit)
      (fun s => nextChosen choose next limit s = .ok none s') (chosen choose items) s := by
    refine (gives_chosen [] h nofun (by simpa using hlimit)).mono ?_
    rintro s ⟨skipped, h, hskipped, hlimit⟩
    exact nextChosen_of_end h hskipped hlimit
  exact pull_of_gives_all hgives (Nat.lt_of_le_of_lt (length_chosen_le items) hn)

/-- The payload of an item is given before any item after it is asked for. -/
theorem pull_chosen_concat {before : List α} {a : α} {b : β}
    (h : Act.Gives next (· = s') (before ++ [a]) s) (ha : choose a = .present b)
    (hlimit : before.length < limit) :
    pull (nextChosen choose next limit) ((chosen choose before).length + 1) s =
      .ok ⟨(chosen choose before ++ [b]).toArray, false⟩ s' := by
  have hgives : Act.Gives (nextChosen choose next limit) (· = s')
      (chosen choose before ++ [b]) s := by
    have hlimit' : ([] : List α).length + before.length < limit := by simpa using hlimit
    refine Act.gives_append.2 ((gives_chosen [] (Act.gives_append.1 h) nofun hlimit').mono ?_)
    rintro s ⟨skipped, h, hskipped, hlimit⟩
    exact gives_chosen_of_present (Act.gives_append.2 h) hskipped ha hlimit
  have hlength : (chosen choose before ++ [b]).length = (chosen choose before).length + 1 := by
    rw [List.length_append, List.length_singleton]
  obtain ⟨_, rfl, hpull⟩ := hgives.pull (Nat.le_of_eq hlength) (by omega)
  rw [hpull, hlength, decide_eq_false (Nat.lt_irrefl _)]

/-- Pulling a number of chosen payloads polls the source up to the item of the last one. -/
theorem pull_chosen_of_starts {source : Source α} {items : List α} (h : source.Starts items)
    (hlimit : items.length ≤ limit) {k : Nat} (hk : k ≤ (chosen choose items).length) :
    ∃ before, UpTo choose k items before ∧
      pull (nextChosen choose Counted.poll limit) k (.ofSource source) =
        .ok ⟨((chosen choose items).take k).toArray, false⟩ ⟨source, before.length⟩ := by
  cases k with
  | zero => exact ⟨[], ⟨List.nil_prefix, rfl, nofun⟩, rfl⟩
  | succ k =>
    obtain ⟨before, a, b, after, rfl, ha, rfl⟩ := exists_of_lt_length_chosen hk
    rw [List.append_cons] at h
    have hconcat : chosen choose (before ++ [a]) = chosen choose before ++ [b] := by
      rw [chosen_append, chosen_cons_of_present ha]
      rfl
    refine ⟨before ++ [a], ⟨⟨after, (List.append_cons ..).symm⟩, ?_, ?_⟩, ?_⟩
    · rw [hconcat, List.length_append, List.length_singleton]
    · simp [ha]
    · have hlt : before.length < limit := by
        rw [List.length_append, List.length_cons] at hlimit
        omega
      rw [pull_chosen_concat h.of_append.polled ha hlt, List.append_cons before a after,
        chosen_append, hconcat,
        List.take_left' (by rw [List.length_append, List.length_singleton])]

end Chosen

end Streamkit
