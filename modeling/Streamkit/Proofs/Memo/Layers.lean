import Streamkit.Proofs.Memo.Forcing

/-!
# Layers of memos

A memo that maps another one is a layer on it, `Memo.Layer`: its items are the first items of the
other one mapped, each of them by one call of the function, in order, and it has stopped where the
other one has, or where the function has given up. In a store that is `MemoStore.Stacked` every
mapped memo is a layer, and its end was recorded after that of the memo below. Only what happens to
a memo itself and to the one right below it matters for a layer (`MemoStore.Stacked.advance`), so
that forcing a position keeps the layers of a tree of any depth: `MemoStore.Yields.stacked`.
-/

namespace Streamkit

variable {α : Type}

/-- The memo that an event is about. -/
def MemoEvent.memo? : MemoEvent α → Option Nat
  | .mapping i _ => some i
  | .exhausted i => some i
  | .tested _ => none

/-- The item of a call of the function that memo `i` maps by. -/
def MemoEvent.calledBy (i : Nat) : MemoEvent α → Option α
  | .mapping j a => if i = j then some a else none
  | _ => none

/-- The items that the function of memo `i` was called on, in order. -/
def MemoStore.calls (s : MemoStore α) (i : Nat) : List α :=
  s.trace.toList.filterMap (MemoEvent.calledBy i)

theorem take_of_isPrefix {xs ys : List α} (h : xs <+: ys) {n : Nat} (hn : n ≤ xs.length) :
    ys.take n = xs.take n := by
  obtain ⟨zs, rfl⟩ := h
  exact List.take_append_of_le_length hn

namespace Memo

/-- The memo later on: there may be more items, unless it had stopped. -/
structure Extends (m m' : Memo α) : Prop where
  origin : m'.origin = m.origin
  items : m.items.toList <+: m'.items.toList
  stopped : m.status ≠ .reading → m'.items = m.items ∧ m'.status = m.status

/-- This is at position `k` of the memo. -/
def Answers (m : Memo α) (k : Nat) : Except Fault (Option α) → Prop
  | .ok (some a) => m.items[k]? = some a
  | .ok none => m.status = .ended ∧ m.evaluated = k
  | .error _ => m.status = .failed ∧ m.evaluated = k

/-- Memo `m` has failed because the function gave up on the next item of memo `p`. -/
def Tripped (m : Memo α) (f : α → Except Fault α) (p : Memo α) : Prop :=
  m.status = .failed ∧ ∃ a e, p.items[m.evaluated]? = some a ∧ f a = .error e

/-- Memo `m` has read memo `p` through `f`, which was called on `calls`. -/
structure Layer (m : Memo α) (f : α → Except Fault α) (p : Memo α) (calls : List α) : Prop where
  items : (p.items.toList.take m.evaluated).map f = m.items.toList.map .ok
  called : ¬ m.Tripped f p → calls = p.items.toList.take m.evaluated
  tripped : m.Tripped f p → calls = p.items.toList.take (m.evaluated + 1)
  ended : m.status = .ended → p.status = .ended ∧ p.evaluated = m.evaluated
  failed : m.status = .failed → m.Tripped f p ∨ p.status = .failed ∧ p.evaluated = m.evaluated

/-! ## Memos later on -/

variable {m m' p p' : Memo α} {f : α → Except Fault α} {calls : List α}

theorem Extends.refl (m : Memo α) : m.Extends m := ⟨rfl, List.prefix_rfl, fun _ => ⟨rfl, rfl⟩⟩

theorem Extends.trans {m'' : Memo α} (h : m.Extends m') (h' : m'.Extends m'') :
    m.Extends m'' where
  origin := h'.origin.trans h.origin
  items := h.items.trans h'.items
  stopped hstatus := by
    obtain ⟨hitems, hsame⟩ := h.stopped hstatus
    obtain ⟨hitems', hsame'⟩ := h'.stopped (hsame ▸ hstatus)
    exact ⟨hitems'.trans hitems, hsame'.trans hsame⟩

theorem extends_settled (hm : m.status = .reading) (x : Except Fault (Option α)) :
    m.Extends (m.settled x) := by
  have hstopped : ∀ p : Prop, m.status ≠ .reading → p := fun p h => absurd hm h
  rcases x with e | _ | a
  · exact ⟨rfl, List.prefix_rfl, hstopped _⟩
  · exact ⟨rfl, List.prefix_rfl, hstopped _⟩
  · refine ⟨rfl, ?_, hstopped _⟩
    simp only [settled, Array.toList_push]
    exact List.prefix_append _ _

theorem answers_settled (m : Memo α) (x : Except Fault (Option α)) :
    (m.settled x).Answers m.evaluated x := by
  rcases x with e | _ | a
  · exact ⟨rfl, rfl⟩
  · exact ⟨rfl, rfl⟩
  · simp [settled, Answers, evaluated]

/-! ## Layers later on -/

theorem Layer.evaluated_le (h : m.Layer f p calls) : m.evaluated ≤ p.evaluated := by
  have hlength := congrArg List.length h.items
  rw [List.length_map, List.length_map, List.length_take] at hlength
  simp only [evaluated, Array.length_toList] at hlength ⊢
  omega

theorem Tripped.lt (h : m.Tripped f p) : m.evaluated < p.evaluated := by
  obtain ⟨-, a, -, ha, -⟩ := h
  exact (Array.getElem?_eq_some_iff.1 ha).1

theorem Tripped.extend (h : m.Tripped f p) (hp : p.Extends p') : m.Tripped f p' := by
  obtain ⟨hm, a, e, ha, he⟩ := h
  refine ⟨hm, a, e, ?_, he⟩
  rw [← Array.getElem?_toList] at ha ⊢
  obtain ⟨items, hitems⟩ := hp.items
  rw [← hitems, List.getElem?_append_left (List.getElem?_eq_some_iff.1 ha).1, ha]

/-- A layer stays one while the memo below reads on. -/
theorem Layer.extend (h : m.Layer f p calls) (hp : p.Extends p') : m.Layer f p' calls := by
  have htake : ∀ n ≤ p.evaluated, p'.items.toList.take n = p.items.toList.take n :=
    fun n hn => take_of_isPrefix hp.items hn
  have htripped : m.Tripped f p' → m.Tripped f p := by
    rintro ⟨hm, a, e, ha, he⟩
    refine (h.failed hm).resolve_right fun ⟨hstatus, hsize⟩ => ?_
    rw [(hp.stopped (by rw [hstatus]; nofun)).1, ← hsize, evaluated, Array.getElem?_size] at ha
    cases ha
  exact {
    items := by rw [htake _ h.evaluated_le, h.items]
    called := fun hm => by rw [h.called fun h' => hm (h'.extend hp), htake _ h.evaluated_le]
    tripped := fun hm => by rw [h.tripped (htripped hm), htake _ (htripped hm).lt]
    ended := fun hm => by
      obtain ⟨hstatus, hsize⟩ := h.ended hm
      obtain ⟨hitems, hsame⟩ := hp.stopped (by rw [hstatus]; nofun)
      exact ⟨hsame.trans hstatus, by rw [← hsize, evaluated, hitems, evaluated]⟩
    failed := fun hm => by
      rcases h.failed hm with htrip | ⟨hstatus, hsize⟩
      · exact .inl (htrip.extend hp)
      · obtain ⟨hitems, hsame⟩ := hp.stopped (by rw [hstatus]; nofun)
        exact .inr ⟨hsame.trans hstatus, by rw [← hsize, evaluated, hitems, evaluated]⟩ }

theorem layer_ofOrigin (origin : MemoOrigin α) : (ofOrigin origin).Layer f p [] where
  items := rfl
  called _ := rfl
  tripped h := by cases h.1
  ended h := by cases h
  failed h := by cases h

theorem not_tripped (hm : m.status = .reading) : ¬ m.Tripped f p := by
  rintro ⟨hstatus, -⟩
  rw [hm] at hstatus
  cases hstatus

/-- The next item of the memo below is mapped. -/
theorem Layer.map (h : m.Layer f p calls) (hm : m.status = .reading) {a : α}
    (ha : p.items[m.evaluated]? = some a) :
    (m.settled ((f a).map some)).Layer f p (calls ++ [a]) := by
  have htake : p.items.toList.take (m.evaluated + 1) = p.items.toList.take m.evaluated ++ [a] := by
    rw [List.take_add_one, Array.getElem?_toList, ha]
    rfl
  have hcalls : calls ++ [a] = p.items.toList.take (m.evaluated + 1) := by
    rw [h.called (not_tripped hm), htake]
  cases hf : f a with
  | error e =>
    have htrip : Tripped { m with status := .failed } f p := ⟨rfl, a, e, ha, hf⟩
    exact ⟨h.items, fun hnot => absurd htrip hnot, fun _ => hcalls, nofun, fun _ => .inl htrip⟩
  | ok b =>
    have hsize : (m.items.push b).size = m.evaluated + 1 := Array.size_push b
    have hreading : ({ m with items := m.items.push b } : Memo α).status = .reading := hm
    refine ⟨?_, fun _ => ?_, fun htrip => absurd htrip (not_tripped hm), fun hended => ?_,
      fun hfailed => ?_⟩
    · simp only [Except.map, settled, evaluated, Array.toList_push, List.map_append, List.map_cons,
        List.map_nil]
      rw [hsize, htake, List.map_append, h.items, List.map_cons, hf, List.map_nil]
    · exact hcalls.trans (by rw [← hsize]; rfl)
    · exact absurd (hreading.symm.trans hended) nofun
    · exact absurd (hreading.symm.trans hfailed) nofun

/-- The memo below has stopped. -/
theorem Layer.stop (h : m.Layer f p calls) (hm : m.status = .reading)
    {x : Except Fault (Option α)} (hx : ∀ a, x ≠ .ok (some a)) (hp : p.Answers m.evaluated x) :
    (m.settled x).Layer f p calls := by
  have hcalls := h.called (not_tripped hm)
  have hnot : ∀ status, ¬ Tripped { m with status } f p := by
    rintro status ⟨-, a, -, ha, -⟩
    have hlt := (Array.getElem?_eq_some_iff.1 ha).1
    rcases x with e | _ | b
    · exact Nat.ne_of_gt hlt hp.2
    · exact Nat.ne_of_gt hlt hp.2
    · exact hx b rfl
  rcases x with e | _ | b
  · exact ⟨h.items, fun _ => hcalls, fun htrip => absurd htrip (hnot _), nofun, fun _ => .inr hp⟩
  · exact ⟨h.items, fun _ => hcalls, fun htrip => absurd htrip (hnot _), fun _ => hp, nofun⟩
  · exact absurd rfl (hx b)

end Memo

namespace MemoStore

/-- Memo `i`, which is `m`, maps the earlier memo `parent`, which is `p`, by `f`. -/
structure Maps (s : MemoStore α) (i : Nat) (m : Memo α) (parent : Nat) (p : Memo α)
    (f : α → Except Fault α) : Prop where
  memo : s.memos[i]? = some m
  origin : m.origin = .mapped parent f
  lt : parent < i
  below : s.memos[parent]? = some p

/-- Every mapped memo is a layer on the one that it maps, and has ended after it. -/
structure Stacked (s : MemoStore α) : Prop where
  layer : ∀ {i m parent p f}, s.Maps i m parent p f → m.Layer f p (s.calls i)
  order : ∀ {i m parent p f}, s.Maps i m parent p f →
    ∀ n : Nat, s.trace[n]? = some (MemoEvent.exhausted i) →
      ∃ n' < n, s.trace[n']? = some (MemoEvent.exhausted parent)
  noted : ∀ {i : Nat} {m : Memo α}, s.memos[i]? = some m → m.status = .ended →
    .exhausted i ∈ s.trace
  there : ∀ e ∈ s.trace, ∀ i, e.memo? = some i → i < s.memos.size

/-- Memo `i`, which was `m`, has become `m'`, and the events, which are about it, were recorded. -/
structure Advances (i : Nat) (m m' : Memo α) (es : Array (MemoEvent α)) (s t : MemoStore α) :
    Prop where
  memo : s.memos[i]? = some m
  extended : m.Extends m'
  memos : t.memos = s.memos.modify i fun _ => m'
  trace : t.trace = s.trace ++ es
  about : ∀ e ∈ es, e.memo? = some i

variable {s t : MemoStore α} {i : Nat} {m m' : Memo α} {es : Array (MemoEvent α)}

/-! ## Changing one memo -/

theorem advances_refl (hm : s.memos[i]? = some m) : Advances i m m #[] s s where
  memo := hm
  extended := .refl m
  memos := (modify_of_fixed hm rfl).symm
  trace := Array.append_empty.symm
  about := nofun

theorem Advances.adjust (h : Advances i m m' es s t) (g : Memo α → Memo α)
    (hg : m'.Extends (g m')) : Advances i m (g m') es s (t.adjust i g) where
  memo := h.memo
  extended := h.extended.trans hg
  memos := by rw [MemoStore.adjust, h.memos, modify_modify]
  trace := h.trace
  about := h.about

theorem Advances.note (h : Advances i m m' es s t) {e : MemoEvent α} (he : e.memo? = some i) :
    Advances i m m' (es.push e) s (t.note e) where
  memo := h.memo
  extended := h.extended
  memos := h.memos
  trace := by rw [MemoStore.note, h.trace, Array.push_append]
  about e' he' := by
    rcases Array.mem_push.1 he' with he' | rfl
    · exact h.about e' he'
    · exact he

theorem Advances.countPoll (h : Advances i m m' es s t) :
    Advances i m { m' with polls := m'.polls + 1 } es s (t.countPoll i) :=
  h.adjust (fun m => { m with polls := m.polls + 1 }) ⟨rfl, List.prefix_rfl, fun _ => ⟨rfl, rfl⟩⟩

/-- The events of an answered poll. -/
def settling (i : Nat) : Except Fault (Option α) → Array (MemoEvent α)
  | .ok none => #[.exhausted i]
  | _ => #[]

theorem Advances.settled (h : Advances i m m' es s t) (hm : m'.status = .reading)
    (x : Except Fault (Option α)) :
    Advances i m (m'.settled x) (es ++ settling i x) s (t.settled i x) := by
  have hadjust := h.adjust (·.settled x) (Memo.extends_settled hm x)
  rcases x with e | _ | a
  · show Advances i m _ (es ++ #[]) s _
    rwa [Array.append_empty]
  · exact hadjust.note rfl
  · show Advances i m _ (es ++ #[]) s _
    rwa [Array.append_empty]

theorem Advances.memo_self (h : Advances i m m' es s t) : t.memos[i]? = some m' := by
  rw [h.memos, Array.getElem?_modify, if_pos rfl, h.memo]
  rfl

theorem Advances.memo_ne (h : Advances i m m' es s t) {j : Nat} (hj : i ≠ j) :
    t.memos[j]? = s.memos[j]? := by
  rw [h.memos, Array.getElem?_modify, if_neg hj]

theorem Advances.size (h : Advances i m m' es s t) : t.memos.size = s.memos.size := by
  rw [h.memos, Array.size_modify]

theorem calls_note (s : MemoStore α) (e : MemoEvent α) (i : Nat) :
    (s.note e).calls i = s.calls i ++ (e.calledBy i).toList := by
  rw [calls, MemoStore.note, Array.toList_push, List.filterMap_append]
  cases he : e.calledBy i <;> simp [calls, he]

/-- Events about other memos are no calls of the function of memo `i`. -/
theorem filterMap_calledBy_eq_nil (h : ∀ e ∈ es, e.memo? ≠ some i) :
    es.toList.filterMap (MemoEvent.calledBy i) = [] := by
  refine List.filterMap_eq_nil_iff.2 fun e he => ?_
  have hother := h e (Array.mem_toList_iff.1 he)
  cases e with
  | mapping j a => exact if_neg fun hij => hother (congrArg some hij.symm)
  | exhausted j => rfl
  | tested a => rfl

theorem Advances.calls_ne (h : Advances i m m' es s t) {j : Nat} (hj : i ≠ j) :
    t.calls j = s.calls j := by
  have hother : ∀ e ∈ es, e.memo? ≠ some j := fun e he habout =>
    hj (Option.some.inj ((h.about e he).symm.trans habout))
  rw [calls, h.trace, Array.toList_append, List.filterMap_append,
    filterMap_calledBy_eq_nil hother, List.append_nil]
  rfl

theorem Advances.maps (h : Advances i m m' es s t) {parent : Nat} {p : Memo α}
    {f : α → Except Fault α} (ht : t.Maps i m' parent p f) : s.Maps i m parent p f where
  memo := h.memo
  origin := h.extended.origin.symm.trans ht.origin
  lt := ht.lt
  below := (h.memo_ne (Nat.ne_of_gt ht.lt)).symm.trans ht.below

theorem Advances.exists_maps (h : Advances i m m' es s t) {j parent : Nat} {mj p : Memo α}
    {f : α → Except Fault α} (ht : t.Maps j mj parent p f) :
    ∃ mj' p', s.Maps j mj' parent p' f := by
  by_cases hij : i = j
  · subst hij
    obtain rfl := Option.some.inj (h.memo_self.symm.trans ht.memo)
    exact ⟨m, p, h.maps ht⟩
  have hmemo := (h.memo_ne hij).symm.trans ht.memo
  by_cases hip : i = parent
  · exact ⟨mj, m, hmemo, ht.origin, ht.lt, hip ▸ h.memo⟩
  · exact ⟨mj, p, hmemo, ht.origin, ht.lt, (h.memo_ne hip).symm.trans ht.below⟩

theorem Advances.earlier (h : Advances i m m' es s t) {n : Nat} {e : MemoEvent α}
    (he : s.trace[n]? = some e) : t.trace[n]? = some e := by
  rw [h.trace, Array.getElem?_append_left (Array.getElem?_eq_some_iff.1 he).1, he]

/-- A change of one memo keeps the layers, if it keeps that of the memo itself. -/
theorem Stacked.advance (hs : s.Stacked) (h : Advances i m m' es s t)
    (hlayer : ∀ parent p f, s.Maps i m parent p f → m'.Layer f p (t.calls i))
    (hnoted : m'.status = .ended → m.status = .ended ∨ .exhausted i ∈ es)
    (horder : .exhausted i ∈ es → ∀ parent p f, s.Maps i m parent p f →
      .exhausted parent ∈ s.trace) : t.Stacked where
  layer := by
    intro j mj parent p f ht
    by_cases hij : i = j
    · subst hij
      obtain rfl := Option.some.inj (h.memo_self.symm.trans ht.memo)
      exact hlayer parent p f (h.maps ht)
    have hmemo := (h.memo_ne hij).symm.trans ht.memo
    rw [h.calls_ne hij]
    by_cases hip : i = parent
    · subst hip
      obtain rfl := Option.some.inj (h.memo_self.symm.trans ht.below)
      exact (hs.layer ⟨hmemo, ht.origin, ht.lt, h.memo⟩).extend h.extended
    · exact hs.layer ⟨hmemo, ht.origin, ht.lt, (h.memo_ne hip).symm.trans ht.below⟩
  order := by
    intro j mj parent p f ht n hn
    rcases Nat.lt_or_ge n s.trace.size with hlt | hge
    · obtain ⟨mj', p', hmaps⟩ := h.exists_maps ht
      rw [h.trace, Array.getElem?_append_left hlt] at hn
      obtain ⟨n', hn', hparent⟩ := hs.order hmaps n hn
      exact ⟨n', hn', h.earlier hparent⟩
    · rw [h.trace, Array.getElem?_append_right hge] at hn
      have hmem := Array.mem_of_getElem? hn
      obtain rfl := Option.some.inj (h.about _ hmem)
      obtain rfl := Option.some.inj (h.memo_self.symm.trans ht.memo)
      obtain ⟨n', hn'⟩ := Array.getElem?_of_mem (horder hmem parent p f (h.maps ht))
      exact ⟨n', (Array.getElem?_eq_some_iff.1 hn').1.trans_le hge, h.earlier hn'⟩
  noted := by
    intro j mj hmj hended
    rw [h.trace, Array.mem_append]
    by_cases hij : i = j
    · subst hij
      obtain rfl := Option.some.inj (h.memo_self.symm.trans hmj)
      exact (hnoted hended).imp_left (hs.noted h.memo)
    · exact .inl (hs.noted ((h.memo_ne hij).symm.trans hmj) hended)
  there := by
    intro e he j hj
    rw [h.trace, Array.mem_append] at he
    rw [h.size]
    rcases he with he | he
    · exact hs.there e he j hj
    · obtain rfl := Option.some.inj ((h.about e he).symm.trans hj)
      exact (Array.getElem?_eq_some_iff.1 h.memo).1

theorem Stacked.countPoll (hs : s.Stacked) (hm : s.memos[i]? = some m) :
    (s.countPoll i).Stacked := by
  have h := (advances_refl hm).countPoll
  refine hs.advance h (fun parent p f hmaps => ?_) .inl nofun
  have hlayer := hs.layer hmaps
  exact ⟨hlayer.items, hlayer.called, hlayer.tripped, hlayer.ended, hlayer.failed⟩

/-! ## Forcing a position -/

/-- After position `k` of memo `i` was forced the layers stand, and if all before `k` had been read,
what was given is at `k`. -/
structure Stands (i k : Nat) (s : MemoStore α) (x : Except Fault (Option α)) (t : MemoStore α) :
    Prop where
  stacked : t.Stacked
  answers : ∀ m, s.memos[i]? = some m → k ≤ m.evaluated →
    ∃ m', t.memos[i]? = some m' ∧ m'.Answers k x

theorem Maps.unique {parent parent' : Nat} {p p' : Memo α} {f f' : α → Except Fault α}
    (h : s.Maps i m parent p f) (h' : s.Maps i m parent' p' f') :
    parent = parent' ∧ p = p' ∧ f = f' := by
  obtain ⟨rfl, rfl⟩ := MemoOrigin.mapped.inj (h.origin.symm.trans h'.origin)
  exact ⟨rfl, Option.some.inj (h.below.symm.trans h'.below), rfl⟩

theorem Stacked.stands (hs : s.Stacked) {k : Nat} {x : Except Fault (Option α)}
    (h : ∀ m, s.memos[i]? = some m → k ≤ m.evaluated → m.Answers k x) : Stands i k s x s where
  stacked := hs
  answers m hm hk := ⟨m, hm, h m hm hk⟩

theorem exhausted_mem_settling (hm : m.status = .reading) {x : Except Fault (Option α)}
    (h : (m.settled x).status = .ended) : .exhausted i ∈ settling i x := by
  rcases x with e | _ | a
  · cases h
  · exact Array.mem_singleton.2 rfl
  · exact absurd (hm.symm.trans h) nofun

theorem eq_none_of_mem_settling {x : Except Fault (Option α)} {e : MemoEvent α}
    (h : e ∈ settling i x) : x = .ok none ∧ e = .exhausted i := by
  rcases x with f | _ | a
  · exact absurd h (Array.not_mem_empty e)
  · exact ⟨rfl, Array.mem_singleton.1 h⟩
  · exact absurd h (Array.not_mem_empty e)

theorem calls_settled (t : MemoStore α) (i j : Nat) (x : Except Fault (Option α)) :
    (t.settled i x).calls j = t.calls j := by
  rcases x with e | _ | a
  · rfl
  · exact (calls_note _ _ j).trans (List.append_nil _)
  · rfl

section Settle

variable {s₁ t₁ : MemoStore α} {k : Nat} {x y : Except Fault (Option α)}

/-- Memo `i`, which lacked position `k`, is answered after earlier memos have been read. -/
theorem Lacks.stands (hm : s.Lacks i k m) (hs₁ : s₁.Stacked)
    (h : Advances i { m with polls := m.polls + 1 } { m with polls := m.polls + 1 } es s₁ t₁)
    (hes : .exhausted i ∉ es)
    (hown : ∀ parent p f, s₁.Maps i { m with polls := m.polls + 1 } parent p f →
      Memo.Layer (Memo.settled { m with polls := m.polls + 1 } x) f p (t₁.calls i) ∧
      (x = .ok none → .exhausted parent ∈ s₁.trace)) :
    Stands i k s x (t₁.settled i x) := by
  have hsettled := h.settled hm.status x
  refine ⟨hs₁.advance hsettled (fun parent p f hmaps => ?_) (fun hended => ?_) ?_,
    fun m' hm' hk => ?_⟩
  · rw [calls_settled]
    exact (hown parent p f hmaps).1
  · refine .inr (Array.mem_append_right _ ?_)
    exact exhausted_mem_settling (m := { m with polls := m.polls + 1 }) hm.status hended
  · intro hmem parent p f hmaps
    have hmem := (Array.mem_append.1 hmem).resolve_left hes
    exact (hown parent p f hmaps).2 (eq_none_of_mem_settling hmem).1
  · obtain rfl := Option.some.inj (hm.memo.symm.trans hm')
    have hk : k = m.evaluated := Nat.le_antisymm hk hm.beyond
    exact ⟨_, hsettled.memo_self, hk ▸ Memo.answers_settled _ x⟩

/-- What the memo below was forced to give is at its next position. -/
theorem Lacks.exists_below (hm : s.Lacks i k m) (hs : s.Stacked) {parent : Nat}
    {f : α → Except Fault α} (ho : m.origin = .mapped parent f) (hlt : parent < i)
    (hyields : Yields parent m.items.size (s.countPoll i) y s₁)
    (h : Stands parent m.items.size (s.countPoll i) y s₁) :
    ∃ p, s₁.Maps i { m with polls := m.polls + 1 } parent p f ∧ p.Answers m.evaluated y := by
  have hsize : i < (s.countPoll i).memos.size := (Array.getElem?_eq_some_iff.1 hm.countPoll).1
  have hp := Array.getElem?_eq_getElem (hlt.trans hsize)
  have hlayer := (hs.countPoll hm.memo).layer ⟨hm.countPoll, ho, hlt, hp⟩
  obtain ⟨p, hp', hanswers⟩ := h.answers _ hp hlayer.evaluated_le
  exact ⟨p, ⟨hyields.memo_waiting hlt hm, ho, hlt, hp'⟩, hanswers⟩

end Settle

theorem Yields.stacked {k : Nat} {x : Except Fault (Option α)} (h : Yields i k s x t) :
    s.Stacked → Stands i k s x t := by
  induction h with
  | absent hm => exact fun hs => hs.stands fun m hm' => by rw [hm] at hm'; cases hm'
  | item hm ha =>
    refine fun hs => hs.stands fun m' hm' hk => ?_
    obtain rfl := Option.some.inj (hm.symm.trans hm')
    exact ha
  | ended hm hk hstatus =>
    refine fun hs => hs.stands fun m' hm' hk' => ?_
    obtain rfl := Option.some.inj (hm.symm.trans hm')
    exact ⟨hstatus, Nat.le_antisymm hk hk'⟩
  | failed hm hk hstatus =>
    refine fun hs => hs.stands fun m' hm' hk' => ?_
    obtain rfl := Option.some.inj (hm.symm.trans hm')
    exact ⟨hstatus, Nat.le_antisymm hk hk'⟩
  | source hm ho =>
    intro hs
    refine hm.stands (hs.countPoll hm.memo) (advances_refl hm.countPoll) nofun
      fun parent p f hmaps => ?_
    cases ho.symm.trans hmaps.origin
  | @mapped i k parent s s₁ m f a hm ho hlt hyields ih =>
    intro hs
    have hbelow := ih (hs.countPoll hm.memo)
    obtain ⟨p, hmaps, ha⟩ := hm.exists_below hs ho hlt hyields hbelow
    have hnote := (advances_refl hmaps.memo).note (e := .mapping i a) rfl
    refine hm.stands hbelow.stacked hnote (by simp) fun parent' p' f' hmaps' => ⟨?_, fun hx => ?_⟩
    · obtain ⟨rfl, rfl, rfl⟩ := hmaps.unique hmaps'
      rw [calls_note, MemoEvent.calledBy, if_pos rfl]
      exact (hbelow.stacked.layer hmaps).map hm.status ha
    · cases hf : f a <;> rw [hf] at hx <;> cases hx
  | stopped hm ho hlt hyields hx ih =>
    intro hs
    have hbelow := ih (hs.countPoll hm.memo)
    obtain ⟨p, hmaps, hp⟩ := hm.exists_below hs ho hlt hyields hbelow
    refine hm.stands hbelow.stacked (advances_refl hmaps.memo) nofun
      fun parent' p' f' hmaps' => ?_
    obtain ⟨rfl, rfl, rfl⟩ := hmaps.unique hmaps'
    refine ⟨(hbelow.stacked.layer hmaps).stop hm.status hx hp, ?_⟩
    rintro rfl
    exact hbelow.stacked.noted hmaps.below hp.1
  | dangling hm ho hge =>
    intro hs
    refine hm.stands (hs.countPoll hm.memo) (advances_refl hm.countPoll) nofun
      fun parent p f hmaps => ?_
    obtain ⟨rfl, rfl⟩ := MemoOrigin.mapped.inj (ho.symm.trans hmaps.origin)
    exact absurd hmaps.lt (Nat.not_lt.2 hge)

/-! ## Sessions -/

theorem maps_of_note {e : MemoEvent α} {parent : Nat} {p : Memo α} {f : α → Except Fault α}
    (h : (s.note e).Maps i m parent p f) : s.Maps i m parent p f :=
  ⟨h.memo, h.origin, h.lt, h.below⟩

theorem Stacked.note (hs : s.Stacked) (a : α) : (s.note (.tested a)).Stacked where
  layer := by
    intro i m parent p f hmaps
    have hcalls : (s.note (.tested a)).calls i = s.calls i :=
      (calls_note s _ i).trans (List.append_nil _)
    rw [hcalls]
    exact hs.layer (maps_of_note hmaps)
  order hmaps n hn := by
    rw [MemoStore.note, Array.getElem?_push] at hn
    split at hn
    · cases hn
    obtain ⟨n', hn', hparent⟩ := hs.order (maps_of_note hmaps) n hn
    exact ⟨n', hn', getElem?_push_of_some hparent _⟩
  noted hm hended := Array.mem_push_of_mem _ (hs.noted hm hended)
  there e he j hj := by
    rcases Array.mem_push.1 he with he | rfl
    · exact hs.there e he j hj
    · cases hj

/-- A memo that was just added has read nothing, and nothing has happened to it. -/
theorem maps_add {parent parent' : Nat} {p : Memo α} {f g : α → Except Fault α}
    (h : (s.add (.mapped parent' g)).Maps i m parent p f) :
    s.Maps i m parent p f ∨ i = s.memos.size ∧ m = .ofOrigin (.mapped parent' g) := by
  have hsize := (Array.getElem?_eq_some_iff.1 h.memo).1
  have hi : i < s.memos.size + 1 := by simpa [MemoStore.add] using hsize
  have hlt := h.lt
  have hbelow := h.below
  have hmemo := h.memo
  rw [getElem?_add, if_neg (by omega)] at hbelow
  rw [getElem?_add] at hmemo
  split at hmemo
  · rename_i heq
    exact .inr ⟨heq, (Option.some.inj hmemo).symm⟩
  · exact .inl ⟨hmemo, h.origin, hlt, hbelow⟩

theorem Stacked.calls_size (hs : s.Stacked) : s.calls s.memos.size = [] := by
  exact filterMap_calledBy_eq_nil fun e he habout =>
    absurd (hs.there e he _ habout) (Nat.lt_irrefl _)

theorem Stacked.add (hs : s.Stacked) (parent : Nat) (f : α → Except Fault α) :
    (s.add (.mapped parent f)).Stacked where
  layer hmaps := by
    rcases maps_add hmaps with hmaps | ⟨rfl, rfl⟩
    · exact hs.layer hmaps
    · show Memo.Layer _ _ _ (s.calls s.memos.size)
      rw [hs.calls_size]
      exact Memo.layer_ofOrigin _
  order hmaps n hn := by
    rcases maps_add hmaps with hmaps | ⟨rfl, -⟩
    · exact hs.order hmaps n hn
    · exact absurd (hs.there _ (Array.mem_of_getElem? hn) _ rfl) (Nat.lt_irrefl _)
  noted hm hended := by
    rw [getElem?_add] at hm
    split at hm
    · cases hm
      cases hended
    · exact hs.noted hm hended
  there e he j hj := by
    have hsize : (s.add (.mapped parent f)).memos.size = s.memos.size + 1 := Array.size_push _
    rw [hsize]
    exact Nat.lt_succ_of_lt (hs.there e he j hj)

theorem keptByReading_stacked : KeptByReading (Stacked (α := α)) where
  yields h hs := (h.stacked hs).stacked
  note a hs := hs.note a
  add parent f hs := hs.add parent f

end MemoStore

namespace MemoSession

theorem memo_start {sources : List (Source α)} {i : Nat} {m : Memo α}
    (hm : (start sources).store.memos[i]? = some m) :
    ∃ source, sources[i]? = some source ∧ m = .ofOrigin (.source source) := by
  simp only [start, List.getElem?_toArray, List.getElem?_map] at hm
  obtain ⟨source, hsource, rfl⟩ := Option.map_eq_some_iff.1 hm
  exact ⟨source, hsource, rfl⟩

theorem stacked_start (sources : List (Source α)) : (start sources).store.Stacked where
  layer hmaps := by
    obtain ⟨source, -, rfl⟩ := memo_start hmaps.memo
    cases hmaps.origin
  order hmaps := by
    obtain ⟨source, -, rfl⟩ := memo_start hmaps.memo
    cases hmaps.origin
  noted hm hended := by
    obtain ⟨source, -, rfl⟩ := memo_start hm
    cases hended
  there e he := absurd he (Array.not_mem_empty e)

theorem stacked_attemptAll (sources : List (Source α)) (ops : List (MemoOp α)) :
    (Act.attemptAll (ops.map perform) (start sources)).2.store.Stacked :=
  attemptAll_keeps MemoStore.keptByReading_stacked ops (stacked_start sources)

end MemoSession

end Streamkit
