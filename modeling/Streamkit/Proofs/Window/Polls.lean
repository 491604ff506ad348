import Streamkit.Proofs.Memo.Replay
import Streamkit.Proofs.Window.Cuts

/-!
# What a traversal of windows polls

A window that passes on `k` items, and no more than its limit, asks what it looks at for its skip
and these `k`; for no item it asks nothing (`Window.reach`). Through a nest the demand goes inwards
from window to window, and what arrives at the source is `Nest.demand`. A traversal polls the source
exactly as often as this demand of positions costs, which is once more than there are items if the
demand goes beyond them: `WindowSession.traversal_polls_demand`. So the polls tell apart windows
that give the same items. Nested windows poll at least as often as one window narrowed in place by
the same cuts, since a window that skips beyond the limit of the window it looks at still asks it
for all items.
-/

namespace Streamkit

open Act

variable {α τ : Type}

/-- How far a traversal of the window reads, up to `n` items. -/
def Window.reach (w : Window) (n : Nat) : Nat :=
  if min n w.limit = 0 then 0 else w.skip + min n w.limit

/-- How many items are asked of the sequence, when `n` are asked of the outermost window. -/
def Nest.demand : Nest → Nat → Nat
  | [], n => n
  | w :: inner, n => demand inner (w.reach n)

/-- The polls of a fresh traversal of the source, up to `n` items. -/
def Nest.polls (ws : Nest) (source : Source α) (n : Nat) : Nat :=
  ((ws.pull Counted.poll n).attempt (.ofSource source)).2.polls

/-- The passage of a window that has passed on `k` items. -/
def Passage.after (w : Window) (k : Nat) : Passage := ⟨if k = 0 then w.skip else 0, w.limit - k⟩

/-- The sequence pays for its items: `after k` holds when it has given `k` of them, and `spent n`
when it has spent what `n` of them cost. What it has spent when it stops pays for any more items;
it gives up only if it `fails`. -/
structure Act.Pays (next : Act τ (Option α)) (fails : Prop) (after spent : Nat → τ → Prop) :
    Prop where
  spent_of_after : ∀ k t, after k t → spent k t
  step : ∀ k t, after k t →
    Leaves (fun x t' => if x.isSome then after (k + 1) t' else ∀ n > k, spent n t')
      (fun _ t' => fails ∧ ∀ n > k, spent n t') (next t)

/-! ## Reach and demand -/

namespace Window

variable (w : Window)

theorem reach_zero : w.reach 0 = 0 := by simp [reach]

theorem reach_of_limit_zero (h : w.limit = 0) (n : Nat) : w.reach n = 0 := by simp [reach, h]

theorem reach_of_le {k : Nat} (hk : 0 < k) (hlimit : k ≤ w.limit) : w.reach k = w.skip + k := by
  rw [reach, Nat.min_eq_left hlimit, if_neg (Nat.ne_of_gt hk)]

theorem reach_of_limit_le {n : Nat} (h : w.limit ≤ n) : w.reach n = w.reach w.limit := by
  rw [reach, reach, Nat.min_eq_right h, Nat.min_self]

theorem reach_mono {n n' : Nat} (h : n ≤ n') : w.reach n ≤ w.reach n' := by
  unfold reach
  split <;> split <;> omega

theorem reach_le_reach_limit (n : Nat) : w.reach n ≤ w.reach w.limit := by
  rcases Nat.le_total n w.limit with hle | hge
  · exact w.reach_mono hle
  · exact Nat.le_of_eq (w.reach_of_limit_le hge)

theorem reach_limit_le : w.reach w.limit ≤ w.skip + w.limit := by
  unfold reach
  split <;> omega

/-- A limit that is lowered is a request for fewer items. -/
theorem reach_take (k n : Nat) : (w.take k).reach n = w.reach (min n k) := by
  unfold reach take
  dsimp only
  rw [Nat.min_assoc, Nat.min_comm w.limit]

end Window

namespace Nest

theorem demand_mono (ws : Nest) : ∀ {n n' : Nat}, n ≤ n' → ws.demand n ≤ ws.demand n' := by
  induction ws with
  | nil => exact id
  | cons w inner ih => exact fun h => ih (w.reach_mono h)

theorem demand_zero (ws : Nest) : ws.demand 0 = 0 := by
  induction ws with
  | nil => rfl
  | cons w inner ih => rw [demand, w.reach_zero, ih]

theorem demand_append (outer inner : Nest) (n : Nat) :
    (outer ++ inner).demand n = inner.demand (outer.demand n) := by
  induction outer generalizing n with
  | nil => rfl
  | cons w outer ih => exact ih (w.reach n)

/-- Nothing is asked through a window that passes on nothing. -/
theorem demand_of_limit_zero {ws : Nest} {w : Window} (hw : w ∈ ws) (h : w.limit = 0) (n : Nat) :
    ws.demand n = 0 := by
  obtain ⟨outer, inner, rfl⟩ := List.append_of_mem hw
  rw [demand_append, demand, w.reach_of_limit_zero h, demand_zero]

theorem demand_le_of_limit_le (w : Window) (inner : Nest) {n : Nat} (h : w.limit ≤ n) :
    demand (w :: inner) n = demand (w :: inner) w.limit := by
  rw [demand, demand, w.reach_of_limit_le h]

/-- No request gets more from a window than all its items. -/
theorem demand_append_le (outer : Nest) (w : Window) (inner : Nest) (n : Nat) :
    (outer ++ w :: inner).demand n ≤ demand (w :: inner) w.limit := by
  rw [demand_append]
  exact inner.demand_mono (w.reach_le_reach_limit _)

end Nest

/-! ## Paying for items -/

namespace Act.Pays

variable {next : Act τ (Option α)} {fails : Prop} {after spent : Nat → τ → Prop}

/-- After `m` items that are skipped there is one more, or the sequence has stopped. -/
theorem nth (h : Pays next fails after spent) (m : Nat) : ∀ k t, after k t →
    Leaves (fun x t' => if x.isSome then after (k + m + 1) t' else ∀ n > k + m, spent n t')
      (fun _ t' => fails ∧ ∀ n > k + m, spent n t') (Streamkit.nth next m t) := by
  induction m with
  | zero => exact h.step
  | succ m ih =>
    intro k t hk
    have hstep := h.step k t hk
    simp only [Streamkit.nth]
    cases hnext : next t with
    | error e t' =>
      rw [hnext] at hstep
      exact ⟨hstep.1, fun n hn => hstep.2 n (by omega)⟩
    | ok x t' =>
      rw [hnext] at hstep
      cases x with
      | none => exact fun n hn => hstep n (by omega)
      | some a =>
        have hrest := ih (k + 1) t' hstep
        rwa [Nat.add_right_comm k 1 m] at hrest

theorem walk (h : Pays next fails after spent) (m : Nat) : ∀ k t (seen : Array α), after k t →
    Leaves (fun _ => spent (k + m)) (fun _ t' => fails ∧ spent (k + m) t')
      (Streamkit.walk next (fun items a => pure (.continue (items.push a))) m seen t) := by
  induction m with
  | zero => exact fun k t _ hk => h.spent_of_after k t hk
  | succ m ih =>
    intro k t seen hk
    have hstep := h.step k t hk
    simp only [Streamkit.walk]
    cases hnext : next t with
    | error e t' =>
      rw [hnext] at hstep
      exact ⟨hstep.1, hstep.2 _ (by omega)⟩
    | ok x t' =>
      rw [hnext] at hstep
      cases x with
      | none => exact hstep _ (by omega)
      | some a =>
        have hrest := ih (k + 1) t' (seen.push a) hstep
        rwa [Nat.add_right_comm k 1 m] at hrest

/-- Pulling spends what the items cost that were asked for. -/
theorem pull (h : Pays next fails after spent) (n : Nat) {t : τ} (ht : after 0 t) :
    Leaves (fun _ => spent n) (fun _ t' => fails ∧ spent n t') (Streamkit.pull next n t) := by
  have hwalk := h.walk n 0 t #[] ht
  rw [Nat.zero_add] at hwalk
  exact hwalk.bind fun _ _ hspent => hspent

/-- A passage pays with what it looks at, for as far as the window reaches. -/
theorem passage (h : Pays next fails after spent) (w : Window) :
    Pays (Passage.next next) fails
      (fun k t => t.1 = .after w k ∧ k ≤ w.limit ∧ after (w.reach k) t.2)
      (fun n t => spent (w.reach n) t.2) where
  spent_of_after k t ht := h.spent_of_after _ _ ht.2.2
  step := by
    rintro k ⟨p, t⟩ ⟨rfl, hk, hafter⟩
    rcases Nat.lt_or_eq_of_le hk with hlt | rfl
    · obtain ⟨left, hleft⟩ : ∃ left, w.limit - k = left + 1 := ⟨w.limit - k - 1, by omega⟩
      have hafterwards : Passage.after w (k + 1) = ⟨0, left⟩ := by
        simp only [Passage.after, if_neg (Nat.succ_ne_zero k), ← Nat.sub_sub, hleft]
        rfl
      -- the items skipped and the one after them take what is looked at as far as one item more
      have hreach : w.reach k + (Passage.after w k).skip + 1 = w.reach (k + 1) := by
        rw [w.reach_of_le k.succ_pos hlt]
        rcases Nat.eq_zero_or_pos k with rfl | hpos
        · simp [Passage.after, w.reach_zero]
        · simp [Passage.after, w.reach_of_le hpos hk, Nat.ne_of_gt hpos, Nat.add_assoc]
      have hspent : ∀ t', (∀ n > w.reach k + (Passage.after w k).skip, spent n t') →
          ∀ n > k, spent (w.reach n) t' := fun t' hall n hn =>
        hall _ (by have := w.reach_mono (show k + 1 ≤ n from hn); omega)
      have hnth := h.nth (Passage.after w k).skip (w.reach k) t hafter
      rw [hreach] at hnth
      have hpassage : (Passage.after w k).left = left + 1 := hleft
      simp only [Passage.next, hpassage]
      refine hnth.elim (fun x t' hx => ?_) (fun e t' he => ⟨he.1, hspent t' he.2⟩)
      cases x with
      | none => exact hspent t' hx
      | some a => exact ⟨hafterwards.symm, hlt, hx⟩
    · have hpassage : (Passage.after w w.limit).left = 0 := Nat.sub_self _
      simp only [Passage.next, hpassage]
      intro n hn
      show spent (w.reach n) t
      rw [w.reach_of_limit_le (Nat.le_of_lt hn)]
      exact h.spent_of_after _ _ hafter

end Act.Pays

namespace Nest

variable (source : Source α)

/-- A traversal that has given `k` items. -/
def After : (ws : Nest) → Nat → Traversal (Counted α) ws → Prop
  | [], k, c => c = ⟨source, k⟩ ∧ source.itemsWithin k = k
  | w :: inner, k, t => t.1 = .after w k ∧ k ≤ w.limit ∧ After inner (w.reach k) t.2

/-- A traversal whose source was polled as often as a demand of `n` items costs. -/
def Spent (ws : Nest) (n : Nat) (t : Traversal (Counted α) ws) : Prop :=
  base ws t = ⟨source, source.pollsWithin (ws.demand n)⟩

variable {source}

theorem pays_poll : Pays Counted.poll (∃ k e, source.replay k = .error e)
    (After source []) (Spent source []) where
  spent_of_after := by
    rintro k c ⟨rfl, hk⟩
    simp only [Spent, base, demand, source.pollsWithin_of_reading hk]
  step := by
    rintro k c ⟨rfl, hk⟩
    have hanswer : source.replay k = source.answer k :=
      source.replay_eq_answer (Nat.le_of_eq hk.symm)
    -- after the first answer that is no item, more demand costs no more
    have hstop : (∀ a, source.replay k ≠ .ok (some a)) → ∀ n > k, source.pollsWithin n = k + 1 := by
      intro h n hn
      have hitems := source.itemsWithin_succ_of_stop h
      have hpolls := source.pollsWithin_of_stopped (d := k + 1) (by omega) (Nat.succ_le_of_lt hn)
      rw [hpolls, source.pollsWithin_succ_of_reading hk]
    simp only [Counted.poll]
    rw [← hanswer]
    cases hreplay : source.replay k with
    | error e =>
      refine ⟨⟨k, e, hreplay⟩, fun n hn => ?_⟩
      simp only [Spent, base, demand, hstop (by simp [hreplay]) n hn]
    | ok x =>
      cases x with
      | none =>
        intro n hn
        simp only [Spent, base, demand, hstop (by simp [hreplay]) n hn]
      | some a => exact ⟨rfl, by rw [(source.within_succ_of_item hreplay).1, hk]⟩

/-- Every nest pays for its items with the polls that its demand costs. -/
theorem pays : ∀ ws : Nest, Pays (next Counted.poll ws) (∃ k e, source.replay k = .error e)
    (After source ws) (Spent source ws)
  | [] => pays_poll
  | w :: inner => (pays inner).passage w

theorem after_start : ∀ ws : Nest, After source ws 0 (start (.ofSource source) ws)
  | [] => ⟨rfl, rfl⟩
  | w :: inner => ⟨rfl, Nat.zero_le _, by rw [w.reach_zero]; exact after_start inner⟩

theorem leaves_pull (ws : Nest) (n : Nat) :
    Leaves (fun _ c => c = ⟨source, source.pollsWithin (ws.demand n)⟩)
      (fun _ c => (∃ k e, source.replay k = .error e) ∧
        c = ⟨source, source.pollsWithin (ws.demand n)⟩)
      (ws.pull Counted.poll n (.ofSource source)) := by
  simp only [Nest.pull]
  exact ((pays ws).pull n (after_start ws)).elim (fun _ _ h => h) (fun _ _ h => h)

/-- The polls of a traversal are the price of its demand. -/
theorem polls_eq (ws : Nest) (source : Source α) (n : Nat) :
    ws.polls source n = source.pollsWithin (ws.demand n) := by
  simp only [polls, attempt]
  exact (leaves_pull ws n).elim (fun _ _ h => by rw [h]) (fun _ _ h => by rw [h.2])

theorem exists_pull (ws : Nest) {source : Source α} (hsource : ∀ k e, source.replay k ≠ .error e)
    (n : Nat) : ∃ p, ws.pull Counted.poll n (.ofSource source) =
      .ok p ⟨source, ws.polls source n⟩ := by
  rw [polls_eq]
  exact (leaves_pull ws n).elim (fun p _ h => ⟨p, by rw [h]⟩)
    (fun e _ h => absurd h.1 fun ⟨k, e, he⟩ => hsource k e he)

theorem polls_mono {ws ws' : Nest} {n n' : Nat} (h : ws.demand n ≤ ws'.demand n')
    (source : Source α) : ws.polls source n ≤ ws'.polls source n' := by
  rw [polls_eq, polls_eq]
  exact source.pollsWithin_mono h

theorem polls_le_demand (ws : Nest) (source : Source α) (n : Nat) :
    ws.polls source n ≤ ws.demand n := by
  rw [polls_eq]
  exact Nat.min_le_left _ _

end Nest

/-! ## Nested and in place -/

namespace Cut

/-- The number of items that the cut is about. -/
def count : Cut → Nat
  | take n => n
  | drop n => n

/-- The window narrowed by the cut. -/
def onWindow : Cut → Window → Window
  | take n => Window.take n
  | drop n => Window.drop n

/-- The same cuts, all applied in place. -/
def allInPlace (steps : List (Manner × Cut)) : List (Manner × Cut) :=
  steps.map fun step => (.inPlace, step.2)

theorem map_snd_allInPlace (steps : List (Manner × Cut)) :
    (allInPlace steps).map Prod.snd = steps.map Prod.snd := by
  simp [allInPlace]

theorem onWindows_inPlace (c : Cut) (w : Window) (inner : Nest) :
    c.onWindows .inPlace (w :: inner) = c.onWindow w :: inner := by
  cases c <;> rfl

end Cut

/-- The window `flat` never asks the sequence for more than the nest does. -/
structure Window.NoMoreThan (flat w : Window) (inner : Nest) : Prop where
  skip_le : w.skip ≤ flat.skip
  skip_le_maxSize : w.skip ≤ maxSize
  limit_le : flat.limit ≤ w.limit
  limit_le_maxSize : flat.limit ≤ maxSize
  reach_le : ∀ n, flat.reach n ≤ Nest.demand (w :: inner) n

namespace Window

variable {flat w : Window} {inner : Nest} {k : Nat}

theorem reach_drop_of_lt {n : Nat} (hn : 0 < n) (hk : k < w.limit) :
    (w.drop k).reach n = min (w.skip + k) maxSize + min n (w.limit - k) := by
  have hmin : min n (w.limit - k) ≠ 0 := by omega
  exact if_neg hmin

theorem reach_drop_of_limit_le (hk : w.limit ≤ k) (n : Nat) : (w.drop k).reach n = 0 :=
  (w.drop k).reach_of_limit_zero (Nat.sub_eq_zero_of_le hk) n

theorem NoMoreThan.take_nested (h : NoMoreThan flat w inner) :
    NoMoreThan (flat.take k) (.ofTake k) (w :: inner) where
  skip_le := Nat.zero_le _
  skip_le_maxSize := Nat.zero_le _
  limit_le := Nat.min_le_right _ _
  limit_le_maxSize := (Nat.min_le_left _ _).trans h.limit_le_maxSize
  reach_le n := by
    have hreach : (Window.ofTake k).reach n = min n k := by
      show (if min n k = 0 then 0 else 0 + min n k) = min n k
      split <;> omega
    rw [reach_take, Nest.demand, hreach]
    exact h.reach_le _

theorem NoMoreThan.take_inPlace (h : NoMoreThan flat w inner) :
    NoMoreThan (flat.take k) (w.take k) inner where
  skip_le := h.skip_le
  skip_le_maxSize := h.skip_le_maxSize
  limit_le := by
    have hlimit := h.limit_le
    show min flat.limit k ≤ min w.limit k
    omega
  limit_le_maxSize := (Nat.min_le_left _ _).trans h.limit_le_maxSize
  reach_le n := by
    rw [reach_take, Nest.demand, reach_take]
    exact h.reach_le _

theorem NoMoreThan.drop_nested (h : NoMoreThan flat w inner) (hk : k ≤ maxSize) :
    NoMoreThan (flat.drop k) (.ofDrop k) (w :: inner) where
  skip_le := by
    show k ≤ min (flat.skip + k) maxSize
    omega
  skip_le_maxSize := hk
  limit_le := (Nat.sub_le _ _).trans h.limit_le_maxSize
  limit_le_maxSize := (Nat.sub_le _ _).trans h.limit_le_maxSize
  reach_le n := by
    have hsize := h.limit_le_maxSize
    rcases Nat.lt_or_ge k flat.limit with hlt | hge
    · rcases Nat.eq_zero_or_pos n with rfl | hn
      · rw [reach_zero]
        exact Nat.zero_le _
      · have hmin : min n maxSize ≠ 0 := by omega
        have hreach : (Window.ofDrop k).reach n = k + min n maxSize := if_neg hmin
        have hflat : flat.reach (k + min n maxSize) =
            flat.skip + min (k + min n maxSize) flat.limit := if_neg (by omega)
        have hle := h.reach_le (k + min n maxSize)
        rw [reach_drop_of_lt hn hlt, Nest.demand, hreach]
        omega
    · rw [reach_drop_of_limit_le hge]
      exact Nat.zero_le _

theorem NoMoreThan.drop_inPlace (h : NoMoreThan flat w inner) :
    NoMoreThan (flat.drop k) (w.drop k) inner where
  skip_le := by
    have hskip := h.skip_le
    show min (w.skip + k) maxSize ≤ min (flat.skip + k) maxSize
    omega
  skip_le_maxSize := Nat.min_le_right _ _
  limit_le := Nat.sub_le_sub_right h.limit_le k
  limit_le_maxSize := (Nat.sub_le _ _).trans h.limit_le_maxSize
  reach_le n := by
    obtain ⟨hskip, hsize, hlimit, -, hle⟩ := h
    rcases Nat.lt_or_ge k flat.limit with hlt | hge
    · rcases Nat.eq_zero_or_pos n with rfl | hn
      · rw [reach_zero]
        exact Nat.zero_le _
      · -- of the window before the drop, which skips no further than to the largest size, so many
        -- items reach as far
        obtain ⟨m, hm⟩ : ∃ m, min (w.skip + k) maxSize - w.skip + min n (w.limit - k) = m :=
          ⟨_, rfl⟩
        have hw : w.reach m = (w.drop k).reach n := by
          have hmin : min m w.limit ≠ 0 := by omega
          rw [reach_drop_of_lt hn (hlt.trans_le hlimit), reach, if_neg hmin]
          omega
        have hflat : (flat.drop k).reach n ≤ flat.reach m := by
          have hmin : min m flat.limit ≠ 0 := by omega
          rw [reach_drop_of_lt hn hlt, reach, if_neg hmin]
          omega
        have hnest : Nest.demand ((w.drop k) :: inner) n = Nest.demand (w :: inner) m := by
          rw [Nest.demand, Nest.demand, hw]
        exact hnest ▸ hflat.trans (hle m)
    · rw [reach_drop_of_limit_le hge]
      exact Nat.zero_le _

/-- A cut in place of the one window, and in any manner of the nest. -/
theorem NoMoreThan.cut (h : NoMoreThan flat w inner) (m : Cut.Manner) (c : Cut)
    (hc : c.count ≤ maxSize) :
    ∃ w' inner', c.onWindows m (w :: inner) = w' :: inner' ∧
      NoMoreThan (c.onWindow flat) w' inner' := by
  cases m with
  | nested =>
    cases c with
    | take k => exact ⟨_, _, rfl, h.take_nested⟩
    | drop k => exact ⟨_, _, rfl, h.drop_nested hc⟩
  | inPlace =>
    cases c with
    | take k => exact ⟨_, _, rfl, h.take_inPlace⟩
    | drop k => exact ⟨_, _, rfl, h.drop_inPlace⟩

theorem NoMoreThan.first {c : Cut} (hc : c.count ≤ maxSize) :
    ∃ w, c.onWindows .nested [] = [w] ∧ NoMoreThan w w [] := by
  cases c with
  | take k =>
    exact ⟨_, rfl, Nat.le_refl _, Nat.zero_le _, Nat.le_refl _, hc, fun _ => Nat.le_refl _⟩
  | drop k =>
    exact ⟨_, rfl, Nat.le_refl _, hc, Nat.le_refl _, Nat.le_refl _, fun _ => Nat.le_refl _⟩

theorem NoMoreThan.cuts (steps : List (Cut.Manner × Cut)) :
    ∀ {flat w : Window} {inner : Nest}, NoMoreThan flat w inner →
      (∀ step ∈ steps, step.2.count ≤ maxSize) →
      ∃ flat' w' inner', Cut.onWindowsAll (Cut.allInPlace steps) [flat] = [flat'] ∧
        Cut.onWindowsAll steps (w :: inner) = w' :: inner' ∧ NoMoreThan flat' w' inner' := by
  induction steps with
  | nil => exact fun h _ => ⟨_, _, _, rfl, rfl, h⟩
  | cons step steps ih =>
    intro flat w inner h hcounts
    obtain ⟨m, c⟩ := step
    obtain ⟨w', inner', hws, h'⟩ := h.cut m c (hcounts _ List.mem_cons_self)
    have hflat : Cut.onWindowsAll (Cut.allInPlace ((m, c) :: steps)) [flat] =
        Cut.onWindowsAll (Cut.allInPlace steps) [c.onWindow flat] := by
      rw [← Cut.onWindows_inPlace]
      rfl
    have hnest : Cut.onWindowsAll ((m, c) :: steps) (w :: inner) =
        Cut.onWindowsAll steps (w' :: inner') := by
      rw [← hws]
      rfl
    rw [hflat, hnest]
    exact ih h' fun step hstep => hcounts step (List.mem_cons_of_mem _ hstep)

end Window

/-! ## Sessions -/

namespace WindowSession

open Cut

section

variable {source : Source α} (first : Cut) (rest : List (Manner × Cut))

/-- One window that is cut in place asks for no more than the windows of the same cuts. -/
theorem demand_cut_allInPlace (source : Source α)
    (hcounts : ∀ c ∈ first :: rest.map Prod.snd, c.count ≤ maxSize) :
    ∃ w, (cut source first (allInPlace rest)).windows = [w] ∧
      ∀ n, w.reach n ≤ (cut source first rest).windows.demand n := by
  obtain ⟨w, hw, hfirst⟩ := Window.NoMoreThan.first (hcounts first List.mem_cons_self)
  obtain ⟨flat, w', inner, hflat, hnest, h⟩ := hfirst.cuts rest fun step hstep =>
    hcounts _ (List.mem_cons_of_mem _ (List.mem_map_of_mem hstep))
  rw [windows_cut, windows_cut, hw, hflat, hnest]
  exact ⟨flat, rfl, h.reach_le⟩

theorem traversals_allInPlace_of_gives {items : List α} (hsource : source.Gives items)
    (hitems : items.length ≤ maxSize) (limits : List Nat) :
    traversals limits (cut source first (allInPlace rest)) =
      traversals limits (cut source first rest) := by
  rw [traversals_cut_of_gives first rest hsource hitems,
    traversals_cut_of_gives first (allInPlace rest) hsource hitems, map_snd_allInPlace]

theorem traversals_allInPlace_of_starts {items : List α} {q : Nat} (hsource : source.Starts items)
    (hitems : droppedAll (first :: rest.map Prod.snd) + q ≤ items.length)
    (hsize : droppedAll (first :: rest.map Prod.snd) + q ≤ maxSize) {limits : List Nat}
    (hlimits : ∀ n ∈ limits, n ≤ q) :
    traversals limits (cut source first (allInPlace rest)) =
      traversals limits (cut source first rest) := by
  rw [traversals_cut_of_starts first rest hsource hitems hsize hlimits,
    traversals_cut_of_starts first (allInPlace rest) hsource
      (by rw [map_snd_allInPlace]; exact hitems) (by rw [map_snd_allInPlace]; exact hsize) hlimits,
    map_snd_allInPlace]

end

theorem attempt_traverse (s : WindowSession α) (hsource : ∀ k e, s.source.replay k ≠ .error e)
    (n : Nat) : ∃ p, (perform (.traverse n)).attempt s =
      (.ok (.pulled p), { s with polls := s.polls + s.windows.polls s.source n }) := by
  obtain ⟨p, hpull⟩ := s.windows.exists_pull hsource n
  refine ⟨p, ?_⟩
  simp only [attempt, perform, Bind.bind, EStateM.bind, traverse, hpull]
  rfl

/-- The window `w`, which looks at the windows `inner`, bounds the polls of a traversal up to `n`
items. -/
structure BoundedBy (s : WindowSession α) (n : Nat) (w : Window) (inner : Nest) : Prop where
  innermost : inner = [] → s.windows.polls s.source n ≤ w.skip + w.limit
  limit : s.windows.polls s.source n ≤ Nest.polls (w :: inner) s.source w.limit
  /-- A window that has passed on its last item does not look for more. -/
  last : ∀ m ≥ w.limit, Nest.polls (w :: inner) s.source m =
    Nest.polls (w :: inner) s.source w.limit

/-- The same cuts in place make one window, which polls no more and gives the same items. -/
structure CutInPlace (source : Source α) (first : Cut) (rest : List (Manner × Cut)) (n : Nat) :
    Prop where
  polls : ∃ w, (cut source first (allInPlace rest)).windows = [w] ∧
    Nest.polls [w] source n ≤ (cut source first rest).windows.polls source n
  finite : ∀ limits items, source.Gives items → items.length ≤ maxSize →
    traversals limits (cut source first (allInPlace rest)) =
      traversals limits (cut source first rest)
  endless : ∀ limits items q, source.Starts items →
    droppedAll (first :: rest.map Prod.snd) + q ≤ items.length →
    droppedAll (first :: rest.map Prod.snd) + q ≤ maxSize → (∀ n ∈ limits, n ≤ q) →
    traversals limits (cut source first (allInPlace rest)) =
      traversals limits (cut source first rest)

/-- What a traversal up to `n` items polls. -/
structure PollsDemand (s : WindowSession α) (n : Nat) : Prop where
  traverse : ∃ p, (perform (.traverse n)).attempt s =
    (.ok (.pulled p), { s with polls := s.polls + s.windows.polls s.source n })
  polls : (s.windows.polls s.source n : ℕ∞) = min (s.windows.demand n : ℕ∞) (s.source.length + 1)
  zero : (n = 0 ∨ ∃ w ∈ s.windows, w.limit = 0) → s.windows.polls s.source n = 0
  bounded : ∀ outer w inner, s.windows = outer ++ w :: inner → s.BoundedBy n w inner
  inPlace : ∀ first rest, (∀ c ∈ first :: rest.map Prod.snd, c.count ≤ maxSize) →
    CutInPlace s.source first rest n

theorem polls_eq_zero {s : WindowSession α} {n : Nat}
    (h : n = 0 ∨ ∃ w ∈ s.windows, w.limit = 0) : s.windows.polls s.source n = 0 := by
  have hdemand : s.windows.demand n = 0 := by
    rcases h with rfl | ⟨w, hw, hlimit⟩
    · exact s.windows.demand_zero
    · exact Nest.demand_of_limit_zero hw hlimit n
  exact Nat.eq_zero_of_le_zero (hdemand ▸ s.windows.polls_le_demand s.source n)

theorem boundedBy_of_eq_append {s : WindowSession α} (n : Nat) {outer inner : Nest} {w : Window}
    (hws : s.windows = outer ++ w :: inner) : s.BoundedBy n w inner := by
  have hle := hws ▸ Nest.demand_append_le outer w inner n
  refine ⟨?_, Nest.polls_mono hle s.source, fun m hm => ?_⟩
  · rintro rfl
    exact (s.windows.polls_le_demand s.source n).trans (hle.trans w.reach_limit_le)
  · rw [Nest.polls_eq, Nest.polls_eq, Nest.demand_le_of_limit_le w inner hm]

theorem cutInPlace_of_counts (source : Source α) {first : Cut} {rest : List (Manner × Cut)}
    (hcounts : ∀ c ∈ first :: rest.map Prod.snd, c.count ≤ maxSize) (n : Nat) :
    CutInPlace source first rest n where
  polls := by
    obtain ⟨w, hw, hreach⟩ := demand_cut_allInPlace first rest source hcounts
    exact ⟨w, hw, Nest.polls_mono (show Nest.demand [w] n ≤ _ from hreach n) source⟩
  finite limits _ hgives hitems := traversals_allInPlace_of_gives first rest hgives hitems limits
  endless _ _ _ hstarts hitems hsize hlimits :=
    traversals_allInPlace_of_starts first rest hstarts hitems hsize hlimits

/-- A traversal of any windows polls the source as often as its demand costs: not at all if there is
nothing to pull, and no more than any of the windows admits. The same cuts in place of one window
poll no more. -/
theorem traversal_polls_demand (s : WindowSession α)
    (hsource : ∀ k e, s.source.replay k ≠ .error e) (n : Nat) : s.PollsDemand n where
  traverse := s.attempt_traverse hsource n
  polls := by rw [Nest.polls_eq, s.source.coe_pollsWithin, min_comm]
  zero := polls_eq_zero
  bounded _ _ _ := boundedBy_of_eq_append n
  inPlace _ _ hcounts := cutInPlace_of_counts s.source hcounts n

theorem traversal_polls_demand_of_naturals :
    (∀ k e, naturals.replay k ≠ .error e) ∧
    (∃ p, (perform (.traverse 3)).attempt ⟨naturals, [⟨5, 2⟩, ⟨1, 9⟩], 0⟩ =
      (.ok (.pulled p), ⟨naturals, [⟨5, 2⟩, ⟨1, 9⟩], 8⟩)) ∧
    (8 : ℕ∞) = min ((Nest.demand [⟨5, 2⟩, ⟨1, 9⟩] 3 : Nat) : ℕ∞) (naturals.length + 1) ∧
    -- a skip beyond the limit of the window that is looked at
    Nest.polls [⟨5, 0⟩] naturals 3 = 0 ∧ Nest.polls [.ofDrop 5, .ofTake 2] naturals 3 = 2 ∧
    Nest.polls [⟨5, 0⟩] naturals 3 ≤ Nest.polls [.ofDrop 5, .ofTake 2] naturals 3 := by
  have hsource : ∀ k e, naturals.replay k ≠ .error e :=
    naturals.replay_ne_error fun _ _ => nofun
  obtain ⟨⟨p, hp⟩, hpolls, -, -, hcuts⟩ :=
    traversal_polls_demand ⟨naturals, [⟨5, 2⟩, ⟨1, 9⟩], 0⟩ hsource 3
  obtain ⟨w, hw, hle⟩ := (hcuts (.take 2) [(.nested, .drop 5)] (by decide)).polls
  obtain rfl : ⟨5, 0⟩ = w := (List.cons.inj hw).1
  exact ⟨hsource, ⟨p, hp⟩, hpolls, rfl, rfl, hle⟩

end WindowSession

end Streamkit
