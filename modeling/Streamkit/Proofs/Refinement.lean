import Mathlib.Data.List.Forall2
import Mathlib.Logic.Relation
import Streamkit.Proofs.Coupling

/-!
# Refinement of computations

Two computations over different states refine each other, `Act.Refines faults states x y`, when from
related states they give the same value or both give up with related faults, and leave related
states. The rules follow the ways computations are built: sequencing, walks, searches and windows.
A whole run inherits the relation from its steps, whatever their outcomes:
`Act.forall₂_attemptAll`.
-/

namespace Streamkit

namespace Act

variable {σ ρ α β γ : Type}

/-- The same value and related states, or related faults and related states. -/
def Agree (faults : Fault → Fault → Prop) (states : σ → ρ → Prop) :
    EStateM.Result Fault σ α → EStateM.Result Fault ρ α → Prop
  | .ok a s, .ok b r => a = b ∧ states s r
  | .error e s, .error f r => faults e f ∧ states s r
  | _, _ => False

/-- From related states the outcomes agree. -/
def Refines (faults : Fault → Fault → Prop) (states : σ → ρ → Prop) (x : Act σ α) (y : Act ρ α) :
    Prop :=
  ∀ s r, states s r → Agree faults states (x s) (y r)

/-- The same value, or related faults. -/
def SameReply (faults : Fault → Fault → Prop) : Except Fault α → Except Fault α → Prop
  | .ok a, .ok b => a = b
  | .error e, .error f => faults e f
  | _, _ => False

/-- Performs computations one after the other, whatever their outcomes. -/
def attemptAll : List (Act σ α) → σ → List (Except Fault α) × σ
  | [], s => ([], s)
  | x :: xs, s =>
    let (reply, s) := x.attempt s
    let (replies, s) := attemptAll xs s
    (reply :: replies, s)

/-- Performs `x` and, unless it gives up, `y` a number of times, whatever the outcomes. -/
def attemptAfter (x : Act σ Unit) (y : Act σ α) (n : Nat) : Act σ (List (Except Fault α)) :=
    fun s =>
  match x s with
  | .error e s => .error e s
  | .ok () s =>
    let (replies, s) := attemptAll (List.replicate n y) s
    .ok replies s

variable {faults : Fault → Fault → Prop} {states : σ → ρ → Prop}

/-! ## Outcomes -/

@[elab_as_elim]
theorem Agree.elim {motive : EStateM.Result Fault σ α → EStateM.Result Fault ρ α → Prop}
    {o : EStateM.Result Fault σ α} {p : EStateM.Result Fault ρ α} (h : Agree faults states o p)
    (ok : ∀ a s r, states s r → motive (.ok a s) (.ok a r))
    (error : ∀ e f s r, faults e f → states s r → motive (.error e s) (.error f r)) :
    motive o p := by
  cases o with
  | ok a s =>
    cases p with
    | ok b r =>
      obtain ⟨rfl, hs⟩ := h
      exact ok a s r hs
    | error f r => exact False.elim h
  | error e s =>
    cases p with
    | ok b r => exact False.elim h
    | error f r => exact error e f s r h.1 h.2

theorem Agree.exists_ok {o : EStateM.Result Fault σ α} {a : α} {r : ρ}
    (h : Agree faults states o (.ok a r)) : ∃ s, o = .ok a s ∧ states s r := by
  cases o with
  | ok b s =>
    obtain ⟨rfl, hs⟩ := h
    exact ⟨s, rfl, hs⟩
  | error e s => exact False.elim h

theorem Agree.exists_ok_right {p : EStateM.Result Fault ρ α} {a : α} {s : σ}
    (h : Agree faults states (.ok a s) p) : ∃ r, p = .ok a r ∧ states s r := by
  cases p with
  | ok b r =>
    obtain ⟨rfl, hr⟩ := h
    exact ⟨r, rfl, hr⟩
  | error f r => exact False.elim h

theorem Agree.exists_error {o : EStateM.Result Fault σ α} {f : Fault} {r : ρ}
    (h : Agree faults states o (.error f r)) : ∃ e s, o = .error e s ∧ faults e f ∧ states s r := by
  cases o with
  | ok b s => exact False.elim h
  | error e s => exact ⟨e, s, rfl, h⟩

theorem Agree.eq_ok {x : Except Fault α} {a : α} {s : σ} {r : ρ}
    (h : Agree faults states (.ok a s) (ofExcept x r)) : x = .ok a := by
  cases x with
  | ok b =>
    obtain ⟨rfl, -⟩ := h
    rfl
  | error f => exact False.elim h

theorem Agree.mono {states' : σ → ρ → Prop} {o : EStateM.Result Fault σ α}
    {p : EStateM.Result Fault ρ α} (h : Agree faults states o p)
    (hs : ∀ s r, states s r → states' s r) : Agree faults states' o p :=
  h.elim (fun _ s r h => ⟨rfl, hs s r h⟩) (fun _ _ s r he h => ⟨he, hs s r h⟩)

theorem Agree.mono_ofExcept {τ : Type} {states' : σ → τ → Prop} {o : EStateM.Result Fault σ α}
    {x : Except Fault α} {r : ρ} (h : Agree faults states o (ofExcept x r)) {t : τ}
    (hs : ∀ s, states s r → states' s t) : Agree faults states' o (ofExcept x t) := by
  cases x with
  | ok a =>
    obtain ⟨s, rfl, hstate⟩ := Agree.exists_ok h
    exact ⟨rfl, hs s hstate⟩
  | error f =>
    obtain ⟨e, s, rfl, he, hstate⟩ := Agree.exists_error h
    exact ⟨he, hs s hstate⟩

theorem Agree.comp {τ : Type} {states' : ρ → τ → Prop} {o : EStateM.Result Fault σ α}
    {p : EStateM.Result Fault ρ α} {q : EStateM.Result Fault τ α} (h : Agree (· = ·) states o p)
    (h' : Agree (· = ·) states' p q) : Agree (· = ·) (Relation.Comp states states') o q := by
  revert h'
  refine h.elim (fun a s r h => ?_) (fun e f s r he h => ?_)
  · cases q with
    | ok b t => exact fun h' => ⟨h'.1, r, h, h'.2⟩
    | error g t => exact False.elim
  · cases q with
    | ok b t => exact False.elim
    | error g t => exact fun h' => ⟨he.trans h'.1, r, h, h'.2⟩

theorem Refines.comp {τ : Type} {states' : ρ → τ → Prop} {x : Act σ α} {y : Act ρ α}
    {z : Act τ α} (h : Refines (· = ·) states x y) (h' : Refines (· = ·) states' y z) :
    Refines (· = ·) (Relation.Comp states states') x z :=
  fun s t ⟨r, hs, ht⟩ => (h s r hs).comp (h' r t ht)

/-! ## Rules

A refinement is a coupling in which the states are related in the same way after a value and after a
fault. -/

theorem refines_pure (a : α) :
    Refines faults states (pure a : Act σ α) (pure a : Act ρ α) :=
  fun _ _ h => ⟨rfl, h⟩

theorem refines_ofExcept (hf : ∀ e, faults e e) (x : Except Fault α) :
    Refines faults states (ofExcept x : Act σ α) (ofExcept x : Act ρ α) :=
  coupled_ofExcept fun e _ _ _ h => ⟨hf e, h⟩

theorem Refines.bind {x : Act σ α} {y : Act ρ α} {f : α → Act σ β} {g : α → Act ρ β}
    (hx : Refines faults states x y) (hf : ∀ a, Refines faults states (f a) (g a)) :
    Refines faults states (x >>= f) (y >>= g) :=
  Coupled.bind hx hf

theorem Refines.map {x : Act σ α} {y : Act ρ α} (hx : Refines faults states x y) (f : α → β) :
    Refines faults states (f <$> x) (f <$> y) :=
  Coupled.map hx f

theorem refines_mapM {f : γ → Act σ α} {g : γ → Act ρ α}
    (h : ∀ c, Refines faults states (f c) (g c)) (xs : List γ) :
    Refines faults states (xs.mapM f) (xs.mapM g) :=
  coupled_mapM h xs

section Next

variable {next : Act σ (Option α)} {next' : Act ρ (Option α)}

theorem refines_pull (hn : Refines faults states next next') (n : Nat) :
    Refines faults states (pull next n) (pull next' n) :=
  coupled_pull hn n

theorem refines_countUpTo (hn : Refines faults states next next') (n : Nat) :
    Refines faults states (countUpTo next n) (countUpTo next' n) :=
  coupled_countUpTo hn n

theorem refines_findFirst (hn : Refines faults states next next') {test : α → Act σ Bool}
    {test' : α → Act ρ Bool} (ht : ∀ a, Refines faults states (test a) (test' a)) (limit : Nat) :
    Refines faults states (findFirst next test limit) (findFirst next' test' limit) :=
  coupled_findFirst hn ht limit

theorem nth_succ_of_last {s : σ} (h : ∀ a s', next s ≠ .ok (some a) s') (n : Nat) :
    nth next (n + 1) s = next s := by
  simp only [nth]
  cases hs : next s with
  | error e s' => rfl
  | ok x s' =>
    cases x with
    | none => rfl
    | some a => exact absurd hs (h a s')

theorem refines_nestPull (hn : Refines faults states next next') (ws : Nest) (n : Nat) :
    Refines faults states (Nest.pull next ws n) (Nest.pull next' ws n) :=
  coupled_nestPull hn ws n

end Next

/-! ## Runs -/

theorem sameReply_self (hf : ∀ e, faults e e) (x : Except Fault α) : SameReply faults x x := by
  cases x with
  | ok a => rfl
  | error e => exact hf e

theorem SameReply.eq {x y : Except Fault α} (h : SameReply (· = ·) x y) : x = y := by
  cases x <;> cases y <;> simp_all [SameReply]

theorem SameReply.eq_ok {x : Except Fault α} {a : α} (h : SameReply faults x (.ok a)) :
    x = .ok a := by
  cases x with
  | ok b => exact congrArg _ h
  | error e => exact False.elim h

theorem Refines.attempt {x : Act σ α} {y : Act ρ α} (hx : Refines faults states x y) {s : σ} {r : ρ}
    (h : states s r) :
    SameReply faults (x.attempt s).1 (y.attempt r).1 ∧ states (x.attempt s).2 (y.attempt r).2 := by
  simp only [Act.attempt]
  exact (hx s r h).elim (fun _ _ _ h => ⟨rfl, h⟩) (fun _ _ _ _ he h => ⟨he, h⟩)

/-- A run agrees with another one step by step, and leaves related states. -/
theorem forall₂_attemptAll {xs : List (Act σ α)} {ys : List (Act ρ α)}
    (hxy : List.Forall₂ (Refines faults states) xs ys) {s : σ} {r : ρ} (h : states s r) :
    List.Forall₂ (SameReply faults) (attemptAll xs s).1 (attemptAll ys r).1 ∧
      states (attemptAll xs s).2 (attemptAll ys r).2 := by
  induction hxy generalizing s r with
  | nil => exact ⟨.nil, h⟩
  | cons hx _ ih =>
    obtain ⟨hreply, h'⟩ := hx.attempt h
    obtain ⟨hreplies, h''⟩ := ih h'
    exact ⟨.cons hreply hreplies, h''⟩

theorem forall₂_sameReply_eq {xs ys : List (Except Fault α)}
    (h : List.Forall₂ (SameReply (· = ·)) xs ys) : xs = ys := by
  induction h with
  | nil => rfl
  | cons hxy _ ih => rw [hxy.eq, ih]

theorem agree_attemptAfter {x : Act σ Unit} {x' : Act ρ Unit} {y : Act σ α} {y' : Act ρ α} {s : σ}
    {r : ρ} (hx : Agree (· = ·) states (x s) (x' r)) (hy : Refines (· = ·) states y y') (n : Nat) :
    Agree (· = ·) states (attemptAfter x y n s) (attemptAfter x' y' n r) := by
  simp only [attemptAfter]
  refine hx.elim (fun _ s r h => ?_) (fun e f s r he h => ⟨he, h⟩)
  have hxy : List.Forall₂ (Refines (· = ·) states) (List.replicate n y) (List.replicate n y') := by
    induction n with
    | zero => exact .nil
    | succ n ih => exact .cons hy ih
  obtain ⟨hreplies, h'⟩ := forall₂_attemptAll hxy h
  exact ⟨forall₂_sameReply_eq hreplies, h'⟩

end Act

end Streamkit
