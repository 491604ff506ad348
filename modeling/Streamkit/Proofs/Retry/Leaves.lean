import Mathlib.Data.List.Nodup
import Streamkit.Proofs.Outcome
import Streamkit.Proofs.Refinement
import Streamkit.Retry.Handler

/-!
# Handlers as the list of their leaves

A handler is a tree, but an error only meets its leaves, from left to right, until one gives up
(`Showing`). This holds of every way of cutting a handler into parts, be they its leaves or the two
handlers of a chain, so it is stated of an `Assembly`: a tree of parts with numbers. In a world that
is `noting`, an assembly notes the errors that each part is shown, and the world that the part
found; a run of errors leaves every part as these errors alone would have left it
(`Showings.assembly`). That chains are associative, that a log counts the errors that reach it and
that a chain can be taken apart again follow from this: `handlers_run_leaves`.
-/

namespace Streamkit

open Act

variable {κ ε σ : Type}

/-- An error that a handler was shown. -/
structure Reach (ε σ : Type) where
  /-- The number of the handler. -/
  number : Nat
  error : ε
  /-- The world that the handler found. -/
  found : σ

/-- The world whose leaves are numbered handlers, and in which every error they are shown is
noted. -/
def RetryWorld.noting (w : RetryWorld κ ε σ) :
    RetryWorld (Handler κ × Nat) ε (σ × List (Reach ε σ)) where
  observe e := fun ((h, i), s, reaches) =>
    match h.onFailure w e s with
    | .ok () (h, s') => .ok () ((h, i), s', reaches ++ [⟨i, e, s⟩])
    | .error f (h, s') => .error f ((h, i), s', reaches ++ [⟨i, e, s⟩])
  emit event := fun (s, reaches) => (w.emit event s, reaches)

/-- What the leaves do, apart from what they do to the world, does not depend on the world. -/
def RetryWorld.Private (w : RetryWorld κ ε σ) : Prop :=
  ∀ e, Refines (· = ·) (fun x y => x.1 = y.1) (w.observe e) (w.observe e)

namespace Handler

/-- The handlers at the ends of the tree, from left to right. -/
def leaves : Handler κ → List (Handler κ)
  | chain first second => first.leaves ++ second.leaves
  | ignore => [ignore]
  | logging operation failures => [logging operation failures]
  | leaf k => [leaf k]

/-- Shows the handler an error. -/
def shown (w : RetryWorld κ ε σ) (e : ε) : Act (Handler κ × σ) Unit :=
  fun (h, s) => h.onFailure w e s

/-- Shows the handler errors one after the other, whether it gives up or not. -/
def drive (w : RetryWorld κ ε σ) (errors : List ε) :
    Handler κ × σ → List (Except Fault Unit) × (Handler κ × σ) :=
  attemptAll (errors.map (shown w))

/-- Handler number `i` after the errors that have reached it, each in the world that it found. -/
def driven (w : RetryWorld κ ε σ) (reaches : List (Reach ε σ)) (h : Handler κ) (i : Nat) :
    Handler κ :=
  (reaches.filter (·.number = i)).foldl
    (fun h r => ((shown w r.error).attempt (h, r.found)).2.1) h

end Handler

open Handler

/-- An error is shown to handlers in turn, up to the first that gives up. -/
inductive Showing (w : RetryWorld κ ε σ) (e : ε) :
    List (Handler κ × Nat) → σ → Except Fault Unit → List (Reach ε σ) → σ → Prop
  /-- All have returned. -/
  | done (s : σ) : Showing w e [] s (.ok ()) [] s
  /-- One gives up, and those after it do not run. -/
  | gaveUp {h h' : Handler κ} {i : Nat} {rest : List (Handler κ × Nat)} {s s' : σ} {f : Fault}
      (hrun : h.onFailure w e s = .error f (h', s')) :
      Showing w e ((h, i) :: rest) s (.error f) [⟨i, e, s⟩] s'
  /-- One returns, and the next one finds the world that it leaves. -/
  | next {h h' : Handler κ} {i : Nat} {rest : List (Handler κ × Nat)} {s s₁ s' : σ}
      {reply : Except Fault Unit} {reaches : List (Reach ε σ)}
      (hrun : h.onFailure w e s = .ok () (h', s₁)) (hrest : Showing w e rest s₁ reply reaches s') :
      Showing w e ((h, i) :: rest) s reply (⟨i, e, s⟩ :: reaches) s'

/-- Errors are shown one after the other, each to the handlers as the errors before it have left
them, whatever has given up. -/
inductive Showings (w : RetryWorld κ ε σ) : List (Handler κ × Nat) → σ → List ε →
    List (Except Fault Unit) → List (Reach ε σ) → σ → Prop
  | nil (handlers : List (Handler κ × Nat)) (s : σ) : Showings w handlers s [] [] [] s
  | cons {handlers : List (Handler κ × Nat)} {e : ε} {errors : List ε} {s s₁ s' : σ}
      {reply : Except Fault Unit} {replies : List (Except Fault Unit)}
      {reaches more : List (Reach ε σ)} (hshowing : Showing w e handlers s reply reaches s₁)
      (hrest : Showings w (handlers.map fun p => (driven w reaches p.1 p.2, p.2)) s₁ errors replies
        more s') :
      Showings w handlers s (e :: errors) (reply :: replies) (reaches ++ more) s'

/-- A handler that is put together of numbered parts. -/
inductive Assembly (κ : Type) where
  | part (h : Handler κ) (number : Nat)
  | chain (first second : Assembly κ)

namespace Assembly

/-- The handler. -/
def handler : Assembly κ → Handler κ
  | part h _ => h
  | chain first second => .chain first.handler second.handler

/-- The handler with its parts as leaves that note what they are shown. -/
def watched : Assembly κ → Handler (Handler κ × Nat)
  | part h number => .leaf (h, number)
  | chain first second => .chain first.watched second.watched

/-- The parts with their numbers, from left to right. -/
def parts : Assembly κ → List (Handler κ × Nat)
  | part h number => [(h, number)]
  | chain first second => first.parts ++ second.parts

/-- The assembly with other parts. -/
def mapParts (f : Handler κ → Nat → Handler κ) : Assembly κ → Assembly κ
  | part h number => part (f h number) number
  | chain first second => chain (first.mapParts f) (second.mapParts f)

end Assembly

/-- The handler put together of its leaves, with numbers from `n` on. -/
def Handler.assembly : Handler κ → (n : Nat) → Assembly κ
  | .chain first second, n =>
    .chain (first.assembly n) (second.assembly (n + first.leaves.length))
  | .ignore, n => .part .ignore n
  | .logging operation failures, n => .part (.logging operation failures) n
  | .leaf k, n => .part (.leaf k) n

variable {w : RetryWorld κ ε σ} {e : ε} {s s' : σ} {reply : Except Fault Unit}
  {reaches more : List (Reach ε σ)}

/-! ## Handlers after the errors that have reached them -/

namespace Handler

theorem driven_append (w : RetryWorld κ ε σ) (reaches more : List (Reach ε σ)) (h : Handler κ)
    (i : Nat) : driven w (reaches ++ more) h i = driven w more (driven w reaches h i) i := by
  rw [driven, List.filter_append, List.foldl_append]
  rfl

theorem driven_of_unreached {i : Nat} (hi : ∀ r ∈ reaches, r.number ≠ i) (h : Handler κ) :
    driven w reaches h i = h := by
  have hnone : reaches.filter (·.number = i) = [] :=
    List.filter_eq_nil_iff.2 fun r hr => by simpa using hi r hr
  rw [driven, hnone]
  rfl

theorem driven_singleton (reply : Except Fault Unit) {h h' : Handler κ}
    (hrun : h.onFailure w e s = ofExcept reply (h', s')) (i : Nat) :
    driven w [⟨i, e, s⟩] h i = h' := by
  have hattempt : (shown w e).attempt (h, s) = (reply, (h', s')) := attempt_of_ofExcept hrun
  simp [driven, hattempt]

/-- A log counts the errors that reach it. -/
theorem driven_logging (w : RetryWorld κ ε σ) (reaches : List (Reach ε σ)) (operation : String)
    (n : UInt32) (i : Nat) : driven w reaches (.logging operation n) i =
      .logging operation (n + .ofNat (reaches.countP (·.number = i))) := by
  rw [driven, List.countP_eq_length_filter]
  induction reaches.filter (·.number = i) generalizing n with
  | nil => simp
  | cons r reaches ih =>
    rw [List.foldl_cons, List.length_cons, Nat.add_comm, UInt32.ofNat_add, ← UInt32.add_assoc]
    exact ih (n + 1)

/-- The handler is not a chain. -/
def Atomic : Handler κ → Prop
  | chain _ _ => False
  | ignore | logging _ _ | leaf _ => True

theorem Atomic.leaves_eq {h : Handler κ} (hatomic : h.Atomic) : h.leaves = [h] := by
  cases h with
  | chain first second => exact False.elim hatomic
  | ignore | logging | leaf => rfl

theorem Atomic.shown {h : Handler κ} (hatomic : h.Atomic) (w : RetryWorld κ ε σ) (e : ε) (s : σ) :
    ((shown w e).attempt (h, s)).2.1.Atomic := by
  cases h with
  | chain first second => exact False.elim hatomic
  | ignore | logging => trivial
  | leaf k =>
    simp only [attempt, Handler.shown, onFailure]
    rcases w.observe e (k, s) with ⟨_, k', s'⟩ | ⟨f, k', s'⟩ <;> trivial

theorem Atomic.driven {h : Handler κ} (hatomic : h.Atomic) (w : RetryWorld κ ε σ)
    (reaches : List (Reach ε σ)) (i : Nat) : (driven w reaches h i).Atomic := by
  rw [Handler.driven]
  induction reaches.filter (·.number = i) generalizing h with
  | nil => exact hatomic
  | cons r reaches ih => exact ih (hatomic.shown w r.error r.found)

end Handler

/-! ## Errors shown in turn -/

theorem exists_showing (w : RetryWorld κ ε σ) (e : ε) (handlers : List (Handler κ × Nat)) (s : σ) :
    ∃ reply reaches s', Showing w e handlers s reply reaches s' := by
  induction handlers generalizing s with
  | nil => exact ⟨_, _, _, .done s⟩
  | cons p handlers ih =>
    obtain ⟨h, i⟩ := p
    rcases hrun : h.onFailure w e s with ⟨_, h', s₁⟩ | ⟨f, h', s₁⟩
    · obtain ⟨reply, reaches, s', hrest⟩ := ih s₁
      exact ⟨_, _, _, .next hrun hrest⟩
    · exact ⟨_, _, _, .gaveUp hrun⟩

theorem exists_showings (w : RetryWorld κ ε σ) (errors : List ε) (handlers : List (Handler κ × Nat))
    (s : σ) : ∃ replies reaches s', Showings w handlers s errors replies reaches s' := by
  induction errors generalizing handlers s with
  | nil => exact ⟨_, _, _, .nil handlers s⟩
  | cons e errors ih =>
    obtain ⟨reply, reaches, s₁, hshowing⟩ := exists_showing w e handlers s
    obtain ⟨replies, more, s', hrest⟩ := ih _ s₁
    exact ⟨_, _, _, .cons hshowing hrest⟩

namespace Showing

theorem number_mem {handlers : List (Handler κ × Nat)}
    (h : Showing w e handlers s reply reaches s') :
    ∀ r ∈ reaches, r.number ∈ handlers.map Prod.snd := by
  induction h with
  | done => exact fun r hr => absurd hr List.not_mem_nil
  | gaveUp => exact fun r hr => List.mem_singleton.1 hr ▸ List.mem_cons_self
  | next _ _ ih =>
    intro r hr
    rcases List.mem_cons.1 hr with rfl | hr
    · exact List.mem_cons_self
    · exact List.mem_cons_of_mem _ (ih r hr)

/-- Of two lists of handlers, the second is reached if all of the first return. -/
theorem append_cases {first second : List (Handler κ × Nat)}
    (h : Showing w e (first ++ second) s reply reaches s') :
    (∃ f, reply = .error f ∧ Showing w e first s reply reaches s') ∨
    ∃ (before after : List (Reach ε σ)) (s₁ : σ), reaches = before ++ after ∧
      Showing w e first s (.ok ()) before s₁ ∧ Showing w e second s₁ reply after s' := by
  induction first generalizing s reply reaches with
  | nil => exact .inr ⟨[], reaches, s, rfl, .done s, h⟩
  | cons p first ih =>
    cases h with
    | gaveUp hrun => exact .inl ⟨_, rfl, .gaveUp hrun⟩
    | next hrun hrest =>
      rcases ih hrest with ⟨f, rfl, hfirst⟩ | ⟨before, after, s₁, rfl, hfirst, hsecond⟩
      · exact .inl ⟨f, rfl, .next hrun hfirst⟩
      · exact .inr ⟨_ :: before, after, s₁, rfl, .next hrun hfirst, hsecond⟩

end Showing

/-! ## Assemblies -/

namespace Assembly

variable {A : Assembly κ}

theorem parts_mapParts (f : Handler κ → Nat → Handler κ) (A : Assembly κ) :
    (A.mapParts f).parts = A.parts.map fun p => (f p.1 p.2, p.2) := by
  induction A with
  | part h number => rfl
  | chain first second ih₁ ih₂ => rw [mapParts, parts, parts, ih₁, ih₂, List.map_append]

theorem mapParts_mapParts (f g : Handler κ → Nat → Handler κ) (A : Assembly κ) :
    (A.mapParts f).mapParts g = A.mapParts fun h i => g (f h i) i := by
  induction A with
  | part h number => rfl
  | chain first second ih₁ ih₂ => rw [mapParts, mapParts, mapParts, ih₁, ih₂]

theorem mapParts_congr {f g : Handler κ → Nat → Handler κ}
    (h : ∀ p ∈ A.parts, f p.1 p.2 = g p.1 p.2) : A.mapParts f = A.mapParts g := by
  induction A with
  | part h' number => exact congrArg (part · number) (h _ List.mem_cons_self)
  | chain first second ih₁ ih₂ =>
    rw [mapParts, mapParts, ih₁ fun p hp => h p (List.mem_append_left _ hp),
      ih₂ fun p hp => h p (List.mem_append_right _ hp)]

theorem mapParts_id (A : Assembly κ) : (A.mapParts fun h _ => h) = A := by
  induction A with
  | part h number => rfl
  | chain first second ih₁ ih₂ => rw [mapParts, ih₁, ih₂]

/-- Errors that reach none of the parts leave them as they are. -/
theorem mapParts_driven_append_left (reaches : List (Reach ε σ))
    (h : ∀ r ∈ more, r.number ∉ A.parts.map Prod.snd) :
    A.mapParts (driven w (reaches ++ more)) = A.mapParts (driven w reaches) := by
  refine mapParts_congr fun p hp => ?_
  rw [driven_append, driven_of_unreached]
  exact fun r hr e => h r hr (e ▸ List.mem_map_of_mem hp)

theorem mapParts_driven_append_right (h : ∀ r ∈ reaches, r.number ∉ A.parts.map Prod.snd)
    (more : List (Reach ε σ)) :
    A.mapParts (driven w (reaches ++ more)) = A.mapParts (driven w more) := by
  refine mapParts_congr fun p hp => ?_
  have hunreached : driven w reaches p.1 p.2 = p.1 :=
    driven_of_unreached (fun r hr e => h r hr (e ▸ List.mem_map_of_mem hp)) p.1
  rw [driven_append, hunreached]

theorem mapParts_driven_of_unreached (h : ∀ r ∈ reaches, r.number ∉ A.parts.map Prod.snd) :
    A.mapParts (driven w reaches) = A := by
  rw [← List.append_nil reaches, mapParts_driven_append_right h]
  exact A.mapParts_id

end Assembly

namespace Handler

variable {first first' second second' : Handler κ} {s₁ : σ}

theorem onFailure_chain_error {f : Fault}
    (hfirst : first.onFailure w e s = .error f (first', s')) :
    (chain first second).onFailure w e s = .error f (chain first' second, s') := by
  simp only [onFailure, hfirst]

theorem onFailure_chain (hfirst : first.onFailure w e s = .ok () (first', s₁))
    (hsecond : second.onFailure w e s₁ = ofExcept reply (second', s')) :
    (chain first second).onFailure w e s = ofExcept reply (chain first' second', s') := by
  simp only [onFailure, hfirst, hsecond]
  cases reply <;> rfl

theorem drive_cons (hfirst : first.onFailure w e s = ofExcept reply (first', s')) {errors : List ε}
    {replies : List (Except Fault Unit)} {left : Handler κ × σ}
    (hdrive : drive w errors (first', s') = (replies, left)) :
    drive w (e :: errors) (first, s) = (reply :: replies, left) := by
  have hstep : (shown w e).attempt (first, s) = (reply, (first', s')) := attempt_of_ofExcept hfirst
  simp only [drive, List.map_cons, attemptAll, hstep]
  exact congrArg (fun x => (reply :: x.1, x.2)) hdrive

theorem onFailure_noting (reply : Except Fault Unit)
    (hfirst : first.onFailure w e s = ofExcept reply (first', s')) (i : Nat)
    (noted : List (Reach ε σ)) : (leaf (first, i)).onFailure w.noting e (s, noted) =
      ofExcept reply (leaf (first', i), (s', noted ++ [⟨i, e, s⟩])) := by
  simp only [onFailure, RetryWorld.noting, hfirst]
  cases reply <;> rfl

end Handler

/-- The assembly shows an error to its parts in turn. -/
theorem Showing.assembly {A : Assembly κ} (h : Showing w e A.parts s reply reaches s')
    (hA : (A.parts.map Prod.snd).Nodup) :
    A.handler.onFailure w e s =
        ofExcept reply ((A.mapParts (driven w reaches)).handler, s') ∧
      ∀ noted, A.watched.onFailure w.noting e (s, noted) =
        ofExcept reply ((A.mapParts (driven w reaches)).watched, (s', noted ++ reaches)) := by
  induction A generalizing s reply reaches s' with
  | part h' number =>
    cases h with
    | @gaveUp _ _ _ _ _ _ f hrun =>
      rw [Assembly.mapParts, driven_singleton (.error f) hrun]
      exact ⟨hrun, onFailure_noting (.error f) hrun number⟩
    | next hrun hrest =>
      cases hrest
      rw [Assembly.mapParts, driven_singleton (.ok ()) hrun]
      exact ⟨hrun, onFailure_noting (.ok ()) hrun number⟩
  | chain first second ih₁ ih₂ =>
    rw [Assembly.parts, List.map_append] at hA
    have hdisjoint := List.disjoint_of_nodup_append hA
    rcases h.append_cases with ⟨f, rfl, hfirst⟩ | ⟨before, after, s₁, rfl, hfirst, hsecond⟩
    · -- the first part of the chain gives up, and the second is left as it is
      obtain ⟨hrun, hwatched⟩ := ih₁ hfirst hA.of_append_left
      have hleft := Assembly.mapParts_driven_of_unreached (w := w) (A := second)
        fun r hr => hdisjoint (hfirst.number_mem r hr)
      rw [Assembly.mapParts, hleft]
      exact ⟨onFailure_chain_error hrun, fun noted => onFailure_chain_error (hwatched noted)⟩
    · -- what reaches the one part of the chain does not reach the other
      obtain ⟨hrun, hwatched⟩ := ih₁ hfirst hA.of_append_left
      obtain ⟨hrun', hwatched'⟩ := ih₂ hsecond hA.of_append_right
      have hfirst' := Assembly.mapParts_driven_append_left (w := w) (A := first) before
        fun r hr hmem => hdisjoint hmem (hsecond.number_mem r hr)
      have hsecond' := Assembly.mapParts_driven_append_right (w := w) (A := second)
        (fun r hr => hdisjoint (hfirst.number_mem r hr)) after
      rw [Assembly.mapParts, hfirst', hsecond']
      refine ⟨onFailure_chain hrun hrun', fun noted => ?_⟩
      rw [← List.append_assoc]
      exact onFailure_chain (hwatched noted) (hwatched' (noted ++ before))

/-- Over a run of errors every part is left as the errors that reached it leave it. -/
theorem Showings.assembly {A : Assembly κ} {errors : List ε} {replies : List (Except Fault Unit)}
    (h : Showings w A.parts s errors replies reaches s') (hA : (A.parts.map Prod.snd).Nodup) :
    drive w errors (A.handler, s) =
        (replies, ((A.mapParts (driven w reaches)).handler, s')) ∧
      ∀ noted, drive w.noting errors (A.watched, (s, noted)) =
        (replies, ((A.mapParts (driven w reaches)).watched, (s', noted ++ reaches))) := by
  generalize hparts : A.parts = parts at h
  induction h generalizing A with
  | nil handlers s =>
    have hnone : A.mapParts (driven w ([] : List (Reach ε σ))) = A := A.mapParts_id
    rw [hnone]
    exact ⟨rfl, fun noted => by rw [List.append_nil]; rfl⟩
  | @cons handlers e errors s s₁ s' reply replies reaches more hshowing hrest ih =>
    subst hparts
    obtain ⟨hrun, hwatched⟩ := hshowing.assembly hA
    have hnumbers : (A.mapParts (driven w reaches)).parts.map Prod.snd = A.parts.map Prod.snd := by
      rw [Assembly.parts_mapParts, List.map_map]
      rfl
    obtain ⟨hdrive, hdrive'⟩ := ih (hnumbers ▸ hA) (Assembly.parts_mapParts _ A)
    have hleft : A.mapParts (driven w (reaches ++ more)) =
        (A.mapParts (driven w reaches)).mapParts (driven w more) := by
      rw [Assembly.mapParts_mapParts]
      exact Assembly.mapParts_congr fun p _ => driven_append w reaches more p.1 p.2
    rw [hleft]
    refine ⟨drive_cons hrun hdrive, fun noted => ?_⟩
    rw [← List.append_assoc]
    exact drive_cons (hwatched noted) (hdrive' (noted ++ reaches))

/-- What a run of errors comes to for a handler that is put together of parts. -/
structure Assembly.Runs (w : RetryWorld κ ε σ) (A : Assembly κ) (s : σ) (errors : List ε)
    (replies : List (Except Fault Unit)) (reaches : List (Reach ε σ)) (A' : Assembly κ) (s' : σ) :
    Prop where
  showings : Showings w A.parts s errors replies reaches s'
  left : A' = A.mapParts (driven w reaches)
  drive : Handler.drive w errors (A.handler, s) = (replies, (A'.handler, s'))
  noted : Handler.drive w.noting errors (A.watched, (s, [])) =
    (replies, (A'.watched, (s', reaches)))

theorem Showings.runs {A : Assembly κ} {errors : List ε} {replies : List (Except Fault Unit)}
    (h : Showings w A.parts s errors replies reaches s') (hA : (A.parts.map Prod.snd).Nodup) :
    A.Runs w s errors replies reaches (A.mapParts (driven w reaches)) s' :=
  ⟨h, rfl, (h.assembly hA).1, (h.assembly hA).2 []⟩

/-! ## Leaves -/

namespace Handler

theorem handler_assembly (h : Handler κ) (n : Nat) : (h.assembly n).handler = h := by
  induction h generalizing n with
  | chain first second ih₁ ih₂ => rw [assembly, Assembly.handler, ih₁, ih₂]
  | ignore | logging | leaf => rfl

theorem parts_assembly (h : Handler κ) (n : Nat) : (h.assembly n).parts = h.leaves.zipIdx n := by
  induction h generalizing n with
  | chain first second ih₁ ih₂ =>
    rw [assembly, Assembly.parts, ih₁, ih₂, leaves, List.zipIdx_append]
  | ignore | logging | leaf => rfl

theorem nodup_assembly (h : Handler κ) : ((h.assembly 0).parts.map Prod.snd).Nodup := by
  rw [parts_assembly, List.zipIdx_map_snd]
  exact List.nodup_range'

theorem leaves_mapParts_assembly {f : Handler κ → Nat → Handler κ}
    (hf : ∀ l i, l.Atomic → (f l i).Atomic) (h : Handler κ) (n : Nat) :
    ((h.assembly n).mapParts f).handler.leaves =
      (h.leaves.zipIdx n).map fun p => f p.1 p.2 := by
  induction h generalizing n with
  | chain first second ih₁ ih₂ =>
    rw [assembly, Assembly.mapParts, Assembly.handler, leaves, ih₁, ih₂, leaves,
      List.zipIdx_append, List.map_append]
  | ignore => exact (hf .ignore n trivial).leaves_eq
  | logging operation failures => exact (hf (.logging operation failures) n trivial).leaves_eq
  | leaf k => exact (hf (.leaf k) n trivial).leaves_eq

/-- A log has counted the errors that reached it. -/
theorem counts_of_left {h : Handler κ} {left : List (Handler κ)}
    (hleft : left = h.leaves.zipIdx.map fun p => driven w reaches p.1 p.2) {i : Nat}
    {operation : String} {n : UInt32} (hlog : h.leaves[i]? = some (.logging operation n)) :
    ∃ m, left[i]? = some (.logging operation m) ∧
      (n.toNat + reaches.countP (·.number = i) < UInt32.size →
        m.toNat = n.toNat + reaches.countP (·.number = i)) := by
  refine ⟨n + .ofNat (reaches.countP (·.number = i)), ?_, fun hlt => ?_⟩
  · rw [hleft, List.getElem?_map, List.getElem?_zipIdx, hlog, Nat.zero_add]
    exact congrArg some (driven_logging w reaches operation n i)
  · have hcount : (UInt32.ofNat (reaches.countP (·.number = i))).toNat =
        reaches.countP (·.number = i) := UInt32.toNat_ofNat_of_lt' (by omega)
    rw [UInt32.toNat_add, hcount]
    exact Nat.mod_eq_of_lt hlt

/-! ## Handlers that run alike -/

/-- A handler that runs as another one does runs so over a run of errors. -/
theorem drive_of_refines {g : Handler κ → Handler κ}
    (hg : ∀ e, Refines (· = ·) (fun x y => y = (g x.1, x.2)) (shown w e) (shown w e))
    {errors : List ε} {h h' : Handler κ} {replies : List (Except Fault Unit)}
    (hrun : drive w errors (h, s) = (replies, (h', s'))) :
    drive w errors (g h, s) = (replies, (g h', s')) := by
  have hall : List.Forall₂ (Refines (· = ·) fun x y => y = (g x.1, x.2)) (errors.map (shown w))
      (errors.map (shown w)) :=
    List.forall₂_map_left_iff.2 (List.forall₂_map_right_iff.2 (List.forall₂_same.2 fun e _ => hg e))
  obtain ⟨hreplies, hleft⟩ := forall₂_attemptAll hall (s := (h, s)) rfl
  rw [← drive, hrun] at hreplies hleft
  exact Prod.ext (forall₂_sameReply_eq hreplies).symm hleft

theorem refines_ignore_chain (w : RetryWorld κ ε σ) (e : ε) :
    Refines (· = ·) (fun x y => y = (chain ignore x.1, x.2)) (shown w e) (shown w e) := by
  rintro ⟨h, s⟩ _ rfl
  simp only [shown, onFailure]
  rcases h.onFailure w e s with ⟨_, h', s'⟩ | ⟨f, h', s'⟩ <;> exact ⟨rfl, rfl⟩

theorem refines_chain_ignore (w : RetryWorld κ ε σ) (e : ε) :
    Refines (· = ·) (fun x y => y = (chain x.1 ignore, x.2)) (shown w e) (shown w e) := by
  rintro ⟨h, s⟩ _ rfl
  simp only [shown, onFailure]
  rcases h.onFailure w e s with ⟨_, h', s'⟩ | ⟨f, h', s'⟩ <;> exact ⟨rfl, rfl⟩

/-! ## Parts on their own -/

theorem refines_shown (hw : w.Private) (e : ε) :
    Refines (· = ·) (fun x y : Handler κ × σ => x.1 = y.1) (shown w e) (shown w e) := by
  rintro ⟨h, s⟩ ⟨_, s₂⟩ rfl
  show Agree (· = ·) _ (h.onFailure w e s) (h.onFailure w e s₂)
  induction h generalizing s s₂ with
  | ignore | logging => exact ⟨rfl, rfl⟩
  | leaf k =>
    simp only [onFailure]
    refine (hw e (k, s) (k, s₂) rfl).elim (fun _ x y hxy => ?_) (fun f _ x y hf hxy => ?_)
    · exact ⟨rfl, congrArg leaf hxy⟩
    · exact ⟨hf, congrArg leaf hxy⟩
  | chain first second ih₁ ih₂ =>
    simp only [onFailure]
    refine (ih₁ s s₂).elim (fun _ x y hxy => ?_) (fun f _ x y hf hxy => ?_)
    · obtain ⟨first', s'⟩ := x
      obtain ⟨_, s₂'⟩ := y
      obtain rfl : first' = _ := hxy
      dsimp only
      refine (ih₂ s' s₂').elim (fun _ x y hxy => ?_) (fun f _ x y hf hxy => ?_)
      · exact ⟨rfl, congrArg (chain first') hxy⟩
      · exact ⟨hf, congrArg (chain first') hxy⟩
    · exact ⟨hf, congrArg (chain · second) hxy⟩

/-- A handler whose leaves are private is left by the errors that reach it as by these errors
alone. -/
theorem driven_of_private (hw : w.Private) (reaches : List (Reach ε σ)) (h : Handler κ) (i : Nat)
    (s : σ) : driven w reaches h i =
      (drive w ((reaches.filter (·.number = i)).map Reach.error) (h, s)).2.1 := by
  rw [driven]
  induction reaches.filter (·.number = i) generalizing h s with
  | nil => rfl
  | cons r reaches ih =>
    have hstep : ((shown w r.error).attempt (h, r.found)).2.1 =
        ((shown w r.error).attempt (h, s)).2.1 :=
      ((refines_shown hw r.error).attempt (s := (h, r.found)) (r := (h, s)) rfl).2
    rw [List.foldl_cons, hstep, ih _ ((shown w r.error).attempt (h, s)).2.2]
    rfl

/-! ## Handlers of any form -/

/-- The errors are shown to the leaves of the handler, in turn up to the first that gives up. -/
structure ShownToLeaves (w : RetryWorld κ ε σ) (errors : List ε) (s : σ) (h : Handler κ)
    (replies : List (Except Fault Unit)) (reaches : List (Reach ε σ)) (A : Assembly κ) (s' : σ) :
    Prop where
  handler : (h.assembly 0).handler = h
  parts : (h.assembly 0).parts = h.leaves.zipIdx
  runs : (h.assembly 0).Runs w s errors replies reaches A s'
  /-- Every leaf is left as the errors that reached it leave it. -/
  left : A.handler.leaves = h.leaves.zipIdx.map fun p => driven w reaches p.1 p.2
  /-- A log has counted the errors that reached it. -/
  counted : ∀ (i : Nat) operation n, h.leaves[i]? = some (.logging operation n) →
    ∃ m, A.handler.leaves[i]? = some (.logging operation m) ∧
      (n.toNat + reaches.countP (·.number = i) < UInt32.size →
        m.toNat = n.toNat + reaches.countP (·.number = i))

/-- A chain of two handlers is taken apart after the errors, into the handlers as the errors that
reached them leave them. -/
structure TakenApart (w : RetryWorld κ ε σ) (errors : List ε) (s : σ) (a b : Handler κ)
    (replies : List (Except Fault Unit)) (reaches : List (Reach ε σ)) (A : Assembly κ) (s' : σ) :
    Prop where
  runs : (Assembly.chain (.part a 0) (.part b 1)).Runs w s errors replies reaches A s'
  parts : A.handler.parts = some (driven w reaches a 0, driven w reaches b 1)
  /-- Driven separately, the handlers are left so as well. -/
  alone : w.Private → ∀ s₀,
    driven w reaches a 0 =
      (drive w ((reaches.filter (·.number = 0)).map Reach.error) (a, s₀)).2.1 ∧
    driven w reaches b 1 =
      (drive w ((reaches.filter (·.number = 1)).map Reach.error) (b, s₀)).2.1

/-- What a run of errors comes to for handlers of any form. -/
structure RunsLeaves (w : RetryWorld κ ε σ) (errors : List ε) (s : σ) : Prop where
  leaves : ∀ h : Handler κ, ∃ replies reaches A s',
    ShownToLeaves w errors s h replies reaches A s'
  assoc : ∀ a b c : Handler κ, ∃ replies a' b' c' s',
    drive w errors (.chain (.chain a b) c, s) = (replies, (.chain (.chain a' b') c', s')) ∧
    drive w errors (.chain a (.chain b c), s) = (replies, (.chain a' (.chain b' c'), s'))
  /-- Ignoring errors before or after a handler changes nothing. -/
  unit : ∀ h : Handler κ, ∃ replies h' s', drive w errors (h, s) = (replies, (h', s')) ∧
    drive w errors (.chain .ignore h, s) = (replies, (.chain .ignore h', s')) ∧
    drive w errors (.chain h .ignore, s) = (replies, (.chain h' .ignore, s'))
  andThen : ∀ a b : Handler κ,
    drive w errors (a.andThen b, s) = drive w errors (.chain a b, s)
  apart : ∀ a b : Handler κ, ∃ replies reaches A s', TakenApart w errors s a b replies reaches A s'

theorem exists_shownToLeaves (w : RetryWorld κ ε σ) (errors : List ε) (s : σ) (h : Handler κ) :
    ∃ replies reaches A s', ShownToLeaves w errors s h replies reaches A s' := by
  obtain ⟨replies, reaches, s', hshowings⟩ := exists_showings w errors (h.assembly 0).parts s
  have hleft := h.leaves_mapParts_assembly (fun l i hl => Atomic.driven hl w reaches i) 0
  exact ⟨replies, reaches, _, s', h.handler_assembly 0, h.parts_assembly 0,
    hshowings.runs h.nodup_assembly, hleft, fun i operation n => counts_of_left hleft⟩

theorem exists_takenApart (w : RetryWorld κ ε σ) (errors : List ε) (s : σ) (a b : Handler κ) :
    ∃ replies reaches A s', TakenApart w errors s a b replies reaches A s' := by
  obtain ⟨replies, reaches, s', hshowings⟩ := exists_showings w errors [(a, 0), (b, 1)] s
  have hruns := Showings.runs (A := .chain (.part a 0) (.part b 1)) hshowings
    (by simp [Assembly.parts])
  exact ⟨replies, reaches, _, s', hruns, rfl, fun hw s₀ =>
    ⟨driven_of_private hw reaches a 0 s₀, driven_of_private hw reaches b 1 s₀⟩⟩

end Handler

/-- A handler runs as the list of its leaves: each error is shown to them in turn up to the first
that gives up, and every leaf is left as the errors that reached it leave it. So chains are
associative, ignoring errors changes nothing, and the parts of a chain can be taken apart again. -/
theorem handlers_run_leaves (w : RetryWorld κ ε σ) (errors : List ε) (s : σ) :
    Handler.RunsLeaves w errors s where
  leaves := exists_shownToLeaves w errors s
  assoc a b c := by
    -- both ways of putting three handlers together have the same parts
    obtain ⟨replies, reaches, s', hshowings⟩ := exists_showings w errors [(a, 0), (b, 1), (c, 2)] s
    have hleft := Showings.assembly (A := .chain (.chain (.part a 0) (.part b 1)) (.part c 2))
      hshowings (by simp [Assembly.parts])
    have hright := Showings.assembly (A := .chain (.part a 0) (.chain (.part b 1) (.part c 2)))
      hshowings (by simp [Assembly.parts])
    exact ⟨replies, _, _, _, s', hleft.1, hright.1⟩
  unit h := by
    obtain ⟨replies, h', s', hrun⟩ : ∃ replies h' s', drive w errors (h, s) = (replies, (h', s')) :=
      ⟨_, _, _, rfl⟩
    exact ⟨replies, h', s', hrun, drive_of_refines (refines_ignore_chain w) hrun,
      drive_of_refines (g := (chain · ignore)) (refines_chain_ignore w) hrun⟩
  andThen _ _ := rfl
  apart := exists_takenApart w errors s

theorem handlers_run_leaves_of_budget :
    let w : RetryWorld Nat String (List String) := ⟨fun e (left, seen) =>
      match left with
      | 0 => .error (.raised "spent") (0, seen)
      | left + 1 => .ok () (left, seen ++ [e]), fun _ seen => seen⟩
    let errors := ["a", "b", "c"]
    w.Private ∧ ∃ reaches : List (Reach String (List String)),
      (drive w errors (.chain (.leaf 2) (.logging "load" 0), [])).2.1.parts =
        some (.leaf 0, .logging "load" 2) ∧
      driven w reaches (.leaf 2) 0 = .leaf 0 ∧
      (drive w ((reaches.filter (·.number = 1)).map Reach.error) (.logging "load" 0, [])).2.1 =
        .logging "load" 2 := by
  intro w errors
  have hprivate : w.Private := by
    rintro e ⟨left, seen⟩ ⟨_, seen'⟩ rfl
    cases left <;> exact ⟨rfl, rfl⟩
  obtain ⟨replies, reaches, A, s', hruns, hparts, hown⟩ :=
    (handlers_run_leaves w errors []).apart (.leaf 2) (.logging "load" 0)
  have hleft : (drive w errors (.chain (.leaf 2) (.logging "load" 0), [])).2.1 = A.handler :=
    congrArg (·.2.1) hruns.drive
  have hlast : (drive w errors (.chain (.leaf 2) (.logging "load" 0), [])).2.1.parts =
      some (.leaf 0, .logging "load" 2) := rfl
  rw [← hleft, hlast] at hparts
  obtain ⟨hbudget, hlog⟩ := Prod.mk.inj (Option.some.inj hparts)
  exact ⟨hprivate, reaches, hlast, hbudget.symm, ((hown hprivate []).2.symm.trans hlog.symm)⟩

end Streamkit
