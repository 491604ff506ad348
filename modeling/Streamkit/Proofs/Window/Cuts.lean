import Mathlib.Algebra.Ring.Nat
import Streamkit.Proofs.Refinement
import Streamkit.Proofs.Sequences
import Streamkit.Sequence.Window.Session

/-!
# Windows cut lists

A window is made of cuts, each of which takes the first items of what there is so far or drops them.
A cut may be a window of its own, nested around the windows before it, or narrow the outermost one
in place. The two ways give the same items: those of the list that is cut in the same order
(`WindowSession.traversals_cut_lists`). Sizes are the only obstacle. A window that drops items keeps
the largest size as its limit and as its skip, so the list has to be no longer than that, or to be
looked at no further.
-/

namespace Streamkit

variable {σ τ α : Type}

/-- A cut of a list: its first items are taken or dropped. -/
inductive Cut where
  | take (n : Nat)
  | drop (n : Nat)

/-- How a cut is applied: around the windows so far, or to the outermost of them. -/
inductive Cut.Manner where
  | nested
  | inPlace

namespace Cut

def onList : Cut → List α → List α
  | take n => List.take n
  | drop n => List.drop n

/-- The items dropped at most. -/
def dropped : Cut → Nat
  | take _ => 0
  | drop n => n

/-- The request that applies the cut. -/
def request : Manner → Cut → WindowRequest
  | .nested, take n => .ofTake n
  | .nested, drop n => .ofDrop n
  | .inPlace, take n => .take n
  | .inPlace, drop n => .drop n

/-- The windows after a cut. -/
def onWindows : Manner → Cut → Nest → Nest
  | .nested, take n => (.ofTake n :: ·)
  | .nested, drop n => (.ofDrop n :: ·)
  | .inPlace, take n => (·.modifyHead (Window.take n))
  | .inPlace, drop n => (·.modifyHead (Window.drop n))

/-- The windows after several cuts, the first cut first. -/
def onWindowsAll (steps : List (Manner × Cut)) (ws : Nest) : Nest :=
  steps.foldl (fun ws (m, c) => c.onWindows m ws) ws

/-- The list cut several times, the first cut first. -/
def onListAll (cuts : List Cut) (items : List α) : List α :=
  cuts.foldl (fun items c => c.onList items) items

/-- The items dropped by all cuts at most. -/
def droppedAll (cuts : List Cut) : Nat := (cuts.map dropped).sum

/-- The first items of a list that is cut are those of its beginning. -/
theorem take_onListAll (cuts : List Cut) (n : Nat) :
    ∀ (items : List α) (m : Nat), droppedAll cuts + n ≤ m →
      (onListAll cuts (items.take m)).take n = (onListAll cuts items).take n := by
  induction cuts with
  | nil =>
    intro items m hm
    have hle : n ≤ m := by simpa [droppedAll] using hm
    simp [onListAll, List.take_take, Nat.min_eq_left hle]
  | cons c cuts ih =>
    intro items m hm
    have hsum : droppedAll (c :: cuts) = c.dropped + droppedAll cuts := by simp [droppedAll]
    rw [hsum] at hm
    show (onListAll cuts (c.onList (items.take m))).take n =
      (onListAll cuts (c.onList items)).take n
    cases c with
    | take k =>
      have hswap : (items.take m).take k = (items.take k).take m := by
        rw [List.take_take, List.take_take, Nat.min_comm]
      simp only [onList, hswap]
      exact ih _ m (by simpa [dropped] using hm)
    | drop k =>
      simp only [onList, List.drop_take]
      exact ih _ (m - k) (by simp only [dropped] at hm; omega)

end Cut

/-! ## The items of a traversal -/

/-- The items of a list that the window lets pass. -/
def Window.onList (w : Window) (items : List α) : List α := (items.drop w.skip).take w.limit

/-- The items of a list that all windows let pass. -/
def Nest.onList : Nest → List α → List α
  | [], items => items
  | w :: inner, items => w.onList (onList inner items)

/-- A traversal that knows `items` of the sequence, and that it ends there if `ends`, sees an
end. -/
def Nest.Ends (ends : Prop) (items : List α) : Nest → Prop
  | [] => ends
  | w :: inner => Ends ends items inner ∨ w.limit ≤ (onList inner items).length - w.skip

theorem nth_of_gives {next : Act σ (Option α)} {rest : σ → Prop} (n : Nat) :
    ∀ {items : List α} {s : σ}, Act.Gives next rest items s →
      (∃ (h : n < items.length) (s' : σ), nth next n s = .ok (some items[n]) s' ∧
        Act.Gives next rest (items.drop (n + 1)) s') ∨
      items.length ≤ n ∧ ((∀ s, rest s → Act.AtEnd next s) → ∃ s', nth next n s = .ok none s') := by
  induction n with
  | zero =>
    intro items s h
    cases items with
    | nil => exact .inr ⟨Nat.le_refl 0, fun hrest => hrest s h⟩
    | cons a items =>
      obtain ⟨s₁, hnext, h⟩ := h
      exact .inl ⟨Nat.zero_lt_succ _, s₁, hnext, h⟩
  | succ n ih =>
    intro items s h
    cases items with
    | nil =>
      refine .inr ⟨Nat.zero_le _, fun hrest => ?_⟩
      obtain ⟨s', hend⟩ := hrest s h
      exact ⟨s', by simp only [nth, hend]⟩
    | cons a items =>
      obtain ⟨s₁, hnext, h⟩ := h
      rcases ih h with ⟨hn, s', hnth, h'⟩ | ⟨hn, hend⟩
      · refine .inl ⟨Nat.succ_lt_succ hn, s', ?_, h'⟩
        simpa only [nth, hnext, List.getElem_cons_succ] using hnth
      · refine .inr ⟨Nat.succ_le_succ hn, fun hrest => ?_⟩
        obtain ⟨s', hnth⟩ := hend hrest
        exact ⟨s', by simpa only [nth, hnext] using hnth⟩

/-- What a passage lets pass of a sequence that it knows some items of. -/
theorem Passage.gives {inner : Act τ (Option α)} {ends : Prop} (left : Nat) :
    ∀ (skip : Nat) {items : List α} {t : τ},
      Act.Gives inner (fun t => ends → Act.AtEnd inner t) items t →
      Act.Gives (Passage.next inner)
        (fun p => ends ∨ left ≤ items.length - skip → Act.AtEnd (Passage.next inner) p)
        ((items.drop skip).take left) (⟨skip, left⟩, t) := by
  -- each item that passes leaves a passage with nothing to skip and one item less to pass on
  induction left with
  | zero => exact fun _ _ _ _ _ => ⟨_, rfl⟩
  | succ left ih =>
    intro skip items t h
    rcases nth_of_gives skip h with ⟨hskip, t', hnth, h'⟩ | ⟨hskip, hend⟩
    · rw [List.drop_eq_getElem_cons hskip, List.take_succ_cons]
      refine ⟨(⟨0, left⟩, t'), by simp only [Passage.next, hnth], ?_⟩
      refine (ih 0 h').mono fun p hp hends => hp (hends.imp_right fun hle => ?_)
      rw [List.length_drop]
      omega
    · rw [List.drop_of_length_le hskip, List.take_nil]
      intro hends
      obtain ⟨t', hnth⟩ := hend fun s hs => hs (hends.resolve_right (by omega))
      exact ⟨(⟨0, left⟩, t'), by simp only [Passage.next, hnth]⟩

namespace Nest

theorem ends_of_ends {ends : Prop} (h : ends) (items : List α) : ∀ ws : Nest, Ends ends items ws
  | [] => h
  | _ :: inner => .inl (ends_of_ends h items inner)

theorem gives {ask : Act σ (Option α)} {ends : Prop} {items : List α} {s : σ}
    (h : Act.Gives ask (fun s => ends → Act.AtEnd ask s) items s) :
    ∀ ws : Nest, Act.Gives (next ask ws)
      (fun t => Ends ends items ws → Act.AtEnd (next ask ws) t) (onList ws items) (start s ws)
  | [] => h
  | w :: inner => Passage.gives w.limit w.skip (gives h inner)

/-- A traversal of a source, up to a number of items, with the source's beginning known. -/
theorem pull_of_gives {ends : Prop} {source : Source α} {items : List α}
    (h : Act.Gives Counted.poll (fun c => ends → Act.AtEnd Counted.poll c) items (.ofSource source))
    (ws : Nest) (n : Nat) (hn : Ends ends items ws ∨ n ≤ (ws.onList items).length) :
    ∃ c, ws.pull Counted.poll n (.ofSource source) =
      .ok ⟨((ws.onList items).take n).toArray, decide ((ws.onList items).length < n)⟩ c := by
  obtain ⟨t, hpull⟩ := Act.pull_of_gives (gives h ws)
    (hn.symm.imp_right fun hends t ht => ht hends)
  exact ⟨_, by simp only [pull, hpull]; rfl⟩

/-! ## Cutting windows -/

theorem length_onList_le (ws : Nest) (items : List α) :
    (ws.onList items).length ≤ items.length := by
  induction ws with
  | nil => exact Nat.le_refl _
  | cons w inner ih =>
    simp only [onList, Window.onList, List.length_take, List.length_drop]
    omega

variable {items : List α} (m : Cut.Manner) (c : Cut) (w : Window) (inner : Nest)

theorem exists_onWindows : ∃ w' inner', c.onWindows m (w :: inner) = w' :: inner' := by
  cases m <;> cases c <;> exact ⟨_, _, rfl⟩

/-- Either way a cut of the windows is a cut of the list. -/
theorem onList_onWindows (hitems : items.length ≤ maxSize) :
    onList (c.onWindows m (w :: inner)) items = c.onList (onList (w :: inner) items) := by
  have hlength := length_onList_le inner items
  have hlength' := length_onList_le (w :: inner) items
  cases m with
  | nested =>
    cases c with
    | take n => rfl
    | drop n =>
      have hdrop : ((onList (w :: inner) items).drop n).length ≤ maxSize := by
        rw [List.length_drop]
        omega
      exact List.take_of_length_le hdrop
  | inPlace =>
    cases c with
    | take n =>
      show _ = ((onList inner items |>.drop w.skip).take w.limit).take n
      rw [List.take_take, Nat.min_comm]
      rfl
    | drop n =>
      show ((onList inner items).drop (min (w.skip + n) maxSize)).take (w.limit - n) =
        ((onList inner items |>.drop w.skip).take w.limit).drop n
      rw [List.drop_take, List.drop_drop]
      -- a skip that stops at the largest size is beyond the list anyway
      rcases Nat.le_total (w.skip + n) maxSize with hle | hge
      · rw [Nat.min_eq_left hle]
      · rw [Nat.min_eq_right hge, List.drop_of_length_le (by omega),
          List.drop_of_length_le (by omega)]

/-- A traversal sees an end, or all items but those that were dropped are let pass. -/
theorem ends_onWindows {ends : Prop} {d : Nat} (hitems : items.length ≤ maxSize)
    (h : Ends ends items (w :: inner) ∨
      items.length - d ≤ (onList (w :: inner) items).length) :
    Ends ends items (c.onWindows m (w :: inner)) ∨
      items.length - (d + c.dropped) ≤ (onList (c.onWindows m (w :: inner)) items).length := by
  have hlength := length_onList_le inner items
  rw [onList_onWindows m c w inner hitems]
  cases m with
  | nested =>
    by_cases hends : Ends ends items (w :: inner)
    · cases c <;> exact .inl (.inl hends)
    have hknown := h.resolve_left hends
    cases c with
    | take n =>
      show (_ ∨ n ≤ (onList (w :: inner) items).length - 0) ∨
        items.length - (d + 0) ≤ ((onList (w :: inner) items).take n).length
      rw [List.length_take]
      omega
    | drop n =>
      refine .inr ?_
      show items.length - (d + n) ≤ ((onList (w :: inner) items).drop n).length
      rw [List.length_drop]
      omega
  | inPlace =>
    by_cases hinner : Ends ends items inner
    · cases c <;> exact .inl (.inl hinner)
    have hpassed : (onList (w :: inner) items).length =
        min w.limit ((onList inner items).length - w.skip) := by
      rw [onList, Window.onList, List.length_take, List.length_drop]
    have hknown := h.imp_left fun hends => hends.resolve_left hinner
    cases c with
    | take n =>
      show (_ ∨ min w.limit n ≤ (onList inner items).length - w.skip) ∨
        items.length - (d + 0) ≤ ((onList (w :: inner) items).take n).length
      rw [List.length_take]
      omega
    | drop n =>
      show (_ ∨ w.limit - n ≤ (onList inner items).length - min (w.skip + n) maxSize) ∨
        items.length - (d + n) ≤ ((onList (w :: inner) items).drop n).length
      rw [List.length_drop]
      omega

theorem onList_onWindowsAll (hitems : items.length ≤ maxSize) (steps : List (Cut.Manner × Cut)) :
    ∀ (w : Window) (inner : Nest), onList (Cut.onWindowsAll steps (w :: inner)) items =
      Cut.onListAll (steps.map Prod.snd) (onList (w :: inner) items) := by
  induction steps with
  | nil => exact fun _ _ => rfl
  | cons step steps ih =>
    intro w inner
    obtain ⟨m, c⟩ := step
    obtain ⟨w', inner', hws⟩ := exists_onWindows m c w inner
    have hcut := onList_onWindows m c w inner hitems
    rw [hws] at hcut
    show onList (Cut.onWindowsAll steps (c.onWindows m (w :: inner))) items = _
    rw [hws, ih, hcut]
    rfl

theorem ends_onWindowsAll {ends : Prop} (hitems : items.length ≤ maxSize)
    (steps : List (Cut.Manner × Cut)) : ∀ (w : Window) (inner : Nest) (d : Nat),
      (Ends ends items (w :: inner) ∨ items.length - d ≤ (onList (w :: inner) items).length) →
      Ends ends items (Cut.onWindowsAll steps (w :: inner)) ∨
        items.length - (d + Cut.droppedAll (steps.map Prod.snd)) ≤
          (onList (Cut.onWindowsAll steps (w :: inner)) items).length := by
  induction steps with
  | nil => exact fun _ _ _ h => h
  | cons step steps ih =>
    intro w inner d h
    obtain ⟨m, c⟩ := step
    obtain ⟨w', inner', hws⟩ := exists_onWindows m c w inner
    have hstep := ends_onWindows m c w inner hitems h
    rw [hws] at hstep
    have hrest := ih w' inner' _ hstep
    have hsum : Cut.droppedAll (((m, c) :: steps).map Prod.snd) =
        c.dropped + Cut.droppedAll (steps.map Prod.snd) := by simp [Cut.droppedAll]
    rw [hsum, ← Nat.add_assoc]
    show Ends ends items (Cut.onWindowsAll steps (c.onWindows m (w :: inner))) ∨
      _ ≤ (onList (Cut.onWindowsAll steps (c.onWindows m (w :: inner))) items).length
    rw [hws]
    exact hrest

end Nest

/-! ## Sessions -/

namespace WindowSession

open Cut

/-- The windows of a first cut and of further ones, each applied in its manner. -/
def cut (source : Source α) (first : Cut) (rest : List (Manner × Cut)) : WindowSession α :=
  (Act.attemptAll (((.nested, first) :: rest).map fun (m, c) => perform (c.request m))
    (start source)).2

/-- The replies to fresh traversals, one after the other and each up to a number of items. -/
def traversals (limits : List Nat) (s : WindowSession α) : List (Except Fault (WindowReply α)) :=
  (Act.attemptAll (limits.map fun n => perform (.traverse n)) s).1

/-- The reply of a traversal through which the items pass. -/
def passed (items : List α) (limit : Nat) : Except Fault (WindowReply α) :=
  .ok (.pulled ⟨(items.take limit).toArray, decide (items.length < limit)⟩)

theorem map_passed_congr {q : Nat} {limits : List Nat} (hlimits : ∀ n ∈ limits, n ≤ q)
    {items items' : List α} (h : items.take q = items'.take q) :
    limits.map (passed items) = limits.map (passed items') := by
  refine List.map_congr_left fun n hn => ?_
  have hle := hlimits n hn
  have htake : items.take n = items'.take n := by
    rw [← Nat.min_eq_left hle, ← List.take_take, h, List.take_take]
  have hlength := congrArg List.length htake
  simp only [List.length_take] at hlength
  simp only [passed, htake]
  congr 3
  exact decide_eq_decide.2 (by omega)

theorem attemptAll_request (steps : List (Manner × Cut)) (s : WindowSession α) :
    (Act.attemptAll (steps.map fun (m, c) => perform (c.request m)) s).2 =
      { s with windows := onWindowsAll steps s.windows } := by
  induction steps generalizing s with
  | nil => rfl
  | cons step steps ih =>
    obtain ⟨m, c⟩ := step
    have hstep : ((perform (c.request m)).attempt s).2 =
        { s with windows := c.onWindows m s.windows } := by cases m <;> cases c <;> rfl
    simp only [List.map_cons, Act.attemptAll, hstep, ih]
    rfl

/-- Traversals do not change the windows, and each starts afresh. -/
theorem traversals_eq {limits : List Nat} {items : List α} {s : WindowSession α}
    (h : ∀ n ∈ limits, ∃ c, s.windows.pull Counted.poll n (.ofSource s.source) =
      .ok ⟨(items.take n).toArray, decide (items.length < n)⟩ c) :
    traversals limits s = limits.map (passed items) := by
  induction limits generalizing s with
  | nil => rfl
  | cons n limits ih =>
    obtain ⟨c, hpull⟩ := h n List.mem_cons_self
    have hreply : (perform (.traverse n)).attempt s =
        (passed items n, { s with polls := s.polls + c.polls }) := by
      simp only [Act.attempt, perform, Bind.bind, EStateM.bind, traverse, hpull]
      rfl
    have hrest := ih (s := { s with polls := s.polls + c.polls }) fun n hn =>
      h n (List.mem_cons_of_mem _ hn)
    simp only [traversals, List.map_cons, Act.attemptAll, hreply] at hrest ⊢
    exact congrArg _ hrest

section

variable {source : Source α} (first : Cut) (rest : List (Manner × Cut)) {items : List α}

theorem windows_cut : (cut source first rest).windows =
    onWindowsAll rest (first.onWindows .nested []) :=
  congrArg WindowSession.windows (attemptAll_request _ (start source))

theorem source_cut : (cut source first rest).source = source :=
  congrArg WindowSession.source (attemptAll_request _ (start source))

theorem onList_first (hitems : items.length ≤ maxSize) :
    (first.onWindows .nested []).onList items = first.onList items := by
  cases first with
  | take n => rfl
  | drop n =>
    have hdrop : (items.drop n).length ≤ maxSize := by
      rw [List.length_drop]
      omega
    exact List.take_of_length_le hdrop

theorem onList_windows_cut (hitems : items.length ≤ maxSize) :
    (cut source first rest).windows.onList items =
      onListAll (first :: rest.map Prod.snd) items := by
  obtain ⟨w, hw⟩ : ∃ w, first.onWindows .nested [] = [w] := by cases first <;> exact ⟨_, rfl⟩
  have hfirst := onList_first first hitems
  rw [hw] at hfirst
  rw [windows_cut, hw, Nest.onList_onWindowsAll hitems, hfirst]
  rfl

theorem ends_windows_cut {ends : Prop} (hitems : items.length ≤ maxSize) :
    (cut source first rest).windows.Ends ends items ∨
      items.length - droppedAll (first :: rest.map Prod.snd) ≤
        ((cut source first rest).windows.onList items).length := by
  have hfirst : (first.onWindows .nested []).Ends ends items ∨
      items.length - first.dropped ≤ ((first.onWindows .nested []).onList items).length := by
    rw [onList_first first hitems]
    cases first with
    | take n =>
      show (_ ∨ n ≤ items.length - 0) ∨ items.length - 0 ≤ (items.take n).length
      rw [List.length_take]
      omega
    | drop n => exact .inr (Nat.le_of_eq List.length_drop.symm)
  obtain ⟨w, hw⟩ : ∃ w, first.onWindows .nested [] = [w] := by cases first <;> exact ⟨_, rfl⟩
  rw [hw] at hfirst
  have hrest := Nest.ends_onWindowsAll hitems rest w [] first.dropped hfirst
  rw [windows_cut, hw]
  simpa [droppedAll] using hrest

theorem traversals_cut_of_gives (hsource : source.Gives items) (hitems : items.length ≤ maxSize)
    (limits : List Nat) : traversals limits (cut source first rest) =
      limits.map (passed (onListAll (first :: rest.map Prod.snd) items)) := by
  refine traversals_eq fun n _ => ?_
  have hends : (cut source first rest).windows.Ends True items := by
    rw [windows_cut]
    exact Nest.ends_of_ends trivial items _
  have hgives := hsource.gives_poll.mono fun _ h (_ : True) => h
  rw [source_cut, ← onList_windows_cut first rest hitems]
  exact Nest.pull_of_gives hgives _ n (.inl hends)

/-- Of a source that may go on, no more is known than the items it starts with. -/
theorem traversals_cut_of_starts {q : Nat} (hsource : source.Starts items)
    (hitems : droppedAll (first :: rest.map Prod.snd) + q ≤ items.length)
    (hsize : droppedAll (first :: rest.map Prod.snd) + q ≤ maxSize) {limits : List Nat}
    (hlimits : ∀ n ∈ limits, n ≤ q) : traversals limits (cut source first rest) =
      limits.map (passed (onListAll (first :: rest.map Prod.snd) items)) := by
  -- a traversal up to `q` items reads no more than `known`
  obtain ⟨known, hknown⟩ : ∃ known,
      items.take (droppedAll (first :: rest.map Prod.snd) + q) = known := ⟨_, rfl⟩
  have hlength : known.length = droppedAll (first :: rest.map Prod.snd) + q := by
    rw [← hknown, List.length_take, Nat.min_eq_left hitems]
  have hcut : (onListAll (first :: rest.map Prod.snd) known).take q =
      (onListAll (first :: rest.map Prod.snd) items).take q := by
    rw [← hknown]
    exact take_onListAll _ _ _ _ (Nat.le_refl _)
  have hgives : Act.Gives Counted.poll (fun c => False → Act.AtEnd Counted.poll c) known
      (.ofSource source) := by
    have hstarts : source.Starts known := fun k hk => by
      rw [← hknown, List.getElem?_take, if_pos (by omega)]
      exact hsource k (by omega)
    exact hstarts.gives_poll.mono fun _ _ h => h.elim
  rw [map_passed_congr hlimits hcut.symm]
  refine traversals_eq fun n hn => ?_
  rw [source_cut, ← onList_windows_cut first rest (hlength ▸ hsize)]
  have hends : (cut source first rest).windows.Ends False known ∨ _ :=
    ends_windows_cut first rest (hlength ▸ hsize)
  refine Nest.pull_of_gives hgives _ n (hends.imp_right fun hle => ?_)
  have := hlimits n hn
  omega

/-- The windows on the first items and on the others see all items between them. -/
theorem traversals_take_drop (hsource : source.Gives items) (hitems : items.length ≤ maxSize)
    {limit : Nat} (hlimit : items.length < limit) (n : Nat) : ∃ firsts others,
      traversals [limit] (cut source (.take n) []) = [.ok (.pulled ⟨firsts, true⟩)] ∧
      traversals [limit] (cut source (.drop n) []) = [.ok (.pulled ⟨others, true⟩)] ∧
      firsts ++ others = items.toArray := by
  have hpassed : ∀ part : List α, part.length ≤ items.length →
      passed part limit = .ok (.pulled ⟨part.toArray, true⟩) := fun part hpart => by
    have hlt := Nat.lt_of_le_of_lt hpart hlimit
    rw [passed, List.take_of_length_le (Nat.le_of_lt hlt), decide_eq_true hlt]
  have htraversals := fun c => traversals_cut_of_gives c [] hsource hitems [limit]
  refine ⟨(items.take n).toArray, (items.drop n).toArray, ?_, ?_, ?_⟩
  · rw [htraversals, ← hpassed _ (List.length_take_le' n items)]
    rfl
  · rw [htraversals, ← hpassed _ (by rw [List.length_drop]; omega)]
    rfl
  · rw [List.append_toArray, List.take_append_drop]

end

/-- Every traversal of a window gives the items of the list that is cut as the window was. -/
theorem traversals_cut_lists (source : Source α) (first : Cut) (rest : List (Manner × Cut))
    (limits : List Nat) :
    (∀ items, source.Gives items → items.length ≤ maxSize →
      traversals limits (cut source first rest) =
        limits.map (passed (onListAll (first :: rest.map Prod.snd) items)) ∧
      -- the manner of a cut does not matter
      (∀ rest', rest'.map Prod.snd = rest.map Prod.snd →
        traversals limits (cut source first rest') = traversals limits (cut source first rest)) ∧
      ∀ n limit, items.length < limit → ∃ firsts others,
        traversals [limit] (cut source (.take n) []) = [.ok (.pulled ⟨firsts, true⟩)] ∧
        traversals [limit] (cut source (.drop n) []) = [.ok (.pulled ⟨others, true⟩)] ∧
        firsts ++ others = items.toArray) ∧
    -- the source may have no end: then `items` are enough of its first ones
    ∀ items q, source.Starts items →
      droppedAll (first :: rest.map Prod.snd) + q ≤ items.length →
      droppedAll (first :: rest.map Prod.snd) + q ≤ maxSize → (∀ n ∈ limits, n ≤ q) →
      traversals limits (cut source first rest) =
        limits.map (passed (onListAll (first :: rest.map Prod.snd) items)) := by
  refine ⟨fun items hsource hitems => ⟨?_, fun rest' hrest => ?_, fun n limit hlimit => ?_⟩,
    fun items q hsource hitems hsize hlimits => ?_⟩
  · exact traversals_cut_of_gives first rest hsource hitems limits
  · rw [traversals_cut_of_gives first rest hsource hitems,
      traversals_cut_of_gives first rest' hsource hitems, hrest]
  · exact traversals_take_drop hsource hitems hlimit n
  · exact traversals_cut_of_starts first rest hsource hitems hsize hlimits

/-- All numbers, without an end. -/
def naturals : Source Nat := ⟨fun k => .ok (some k), fun _ => ⟨maxSize, none⟩⟩

theorem traversals_cut_lists_of_naturals :
    traversals [2, 7] (cut (.ofList (List.range 9)) (.drop 2)
        [(.inPlace, .take 5), (.nested, .drop 1), (.inPlace, .take maxSize)]) =
      [passed [3, 4, 5, 6] 2, passed [3, 4, 5, 6] 7] ∧
    traversals [3] (cut naturals (.drop 5) [(.inPlace, .take 9), (.nested, .drop 1)]) =
      [passed [6, 7, 8] 3] := by
  refine ⟨?_, ?_⟩
  · have hlists := traversals_cut_lists (.ofList (List.range 9)) (.drop 2)
      [(.inPlace, .take 5), (.nested, .drop 1), (.inPlace, .take maxSize)] [2, 7]
    exact (hlists.1 _ (Source.gives_ofList _) (by decide)).1.trans rfl
  · have hlists := traversals_cut_lists naturals (.drop 5)
      [(.inPlace, .take 9), (.nested, .drop 1)] [3]
    have hstarts : naturals.Starts (List.range 9) := fun k hk => by
      rw [List.getElem?_range (by simpa using hk)]
      rfl
    exact (hlists.2 _ 3 hstarts (by decide) (by decide) (by decide)).trans rfl

end WindowSession

end Streamkit
