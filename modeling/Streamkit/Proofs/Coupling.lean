import Streamkit.Proofs.Outcome
import Streamkit.Sequence.Search
import Streamkit.Sequence.Window

/-!
# Coupled computations

Two computations over different states are coupled, `Act.Coupled values faults x y`, when from
states that `values` relates they give the same value and leave states that `values` relates, or
both give up, with faults `e` and `f` and states that `faults e f` relates: what is known after a
fault may differ from what is known after a value. The rules follow the ways computations are built:
sequencing, walks, searches and windows. Coupled with itself on single states, a computation keeps
an invariant: `Act.keeps_iff_coupled`.
-/

namespace Streamkit

namespace Act

variable {σ ρ α β γ : Type}

/-- The same value and states related by `values`, or faults and states related by `faults`. -/
def Meet (values : σ → ρ → Prop) (faults : Fault → Fault → σ → ρ → Prop) :
    EStateM.Result Fault σ α → EStateM.Result Fault ρ α → Prop
  | .ok a s, .ok b r => a = b ∧ values s r
  | .error e s, .error f r => faults e f s r
  | _, _ => False

/-- From related states the outcomes meet. -/
def Coupled (values : σ → ρ → Prop) (faults : Fault → Fault → σ → ρ → Prop) (x : Act σ α)
    (y : Act ρ α) : Prop :=
  ∀ s r, values s r → Meet values faults (x s) (y r)

/-- The same part beside related states. -/
def Beside {κ : Type} (states : σ → ρ → Prop) (s : κ × σ) (r : κ × ρ) : Prop :=
  s.1 = r.1 ∧ states s.2 r.2

/-- One state of which a predicate holds, on both sides. -/
def Single (p : σ → Prop) (s r : σ) : Prop := s = r ∧ p s

variable {values : σ → ρ → Prop} {faults : Fault → Fault → σ → ρ → Prop}

/-! ## Outcomes -/

@[elab_as_elim]
theorem Meet.elim {motive : EStateM.Result Fault σ α → EStateM.Result Fault ρ α → Prop}
    {o : EStateM.Result Fault σ α} {p : EStateM.Result Fault ρ α} (h : Meet values faults o p)
    (ok : ∀ a s r, values s r → motive (.ok a s) (.ok a r))
    (error : ∀ e f s r, faults e f s r → motive (.error e s) (.error f r)) : motive o p := by
  cases o with
  | ok a s =>
    cases p with
    | ok b r =>
      obtain ⟨rfl, hs⟩ := h
      exact ok a s r hs
    | error f r => exact False.elim h
  | error e s =>
    cases p with
    | ok b r => exact False.elim h
    | error f r => exact error e f s r h

theorem Meet.exists_ok {o : EStateM.Result Fault σ α} {a : α} {r : ρ}
    (h : Meet values faults o (.ok a r)) : ∃ s, o = .ok a s ∧ values s r := by
  cases o with
  | ok b s =>
    obtain ⟨rfl, hs⟩ := h
    exact ⟨s, rfl, hs⟩
  | error e s => exact False.elim h

theorem Coupled.imp {faults' : Fault → Fault → σ → ρ → Prop} {x : Act σ α} {y : Act ρ α}
    (h : Coupled values faults x y) (hf : ∀ e f s r, faults e f s r → faults' e f s r) :
    Coupled values faults' x y :=
  fun s r hs => (h s r hs).elim (fun _ _ _ hs => ⟨rfl, hs⟩) hf

theorem Coupled.attempt_cases {x : Act σ α} {y : Act ρ α} (h : Coupled values faults x y) {s : σ}
    {r : ρ} (hs : values s r) :
    (∃ a, (x.attempt s).1 = .ok a ∧ (y.attempt r).1 = .ok a ∧
      values (x.attempt s).2 (y.attempt r).2) ∨
    ∃ e f, (x.attempt s).1 = .error e ∧ (y.attempt r).1 = .error f ∧
      faults e f (x.attempt s).2 (y.attempt r).2 := by
  simp only [Act.attempt]
  exact (h s r hs).elim (fun a s r hs => .inl ⟨a, rfl, rfl, hs⟩)
    (fun e f s r hs => .inr ⟨e, f, rfl, rfl, hs⟩)

/-! ## Sequencing -/

theorem coupled_pure (a : α) : Coupled values faults (pure a : Act σ α) (pure a : Act ρ α) :=
  fun _ _ h => ⟨rfl, h⟩

theorem coupled_ofExcept {x : Except Fault α}
    (hx : ∀ e, x = .error e → ∀ s r, values s r → faults e e s r) :
    Coupled values faults (ofExcept x : Act σ α) (ofExcept x : Act ρ α) := by
  intro s r h
  cases x with
  | ok a => exact ⟨rfl, h⟩
  | error e => exact hx e rfl s r h

theorem Coupled.bind {x : Act σ α} {y : Act ρ α} {f : α → Act σ β} {g : α → Act ρ β}
    (hx : Coupled values faults x y) (hf : ∀ a, Coupled values faults (f a) (g a)) :
    Coupled values faults (x >>= f) (y >>= g) := by
  intro s r h
  simp only [Bind.bind, EStateM.bind]
  exact (hx s r h).elim (fun a s r h => hf a s r h) (fun _ _ _ _ h => h)

theorem Coupled.map {x : Act σ α} {y : Act ρ α} (hx : Coupled values faults x y) (f : α → β) :
    Coupled values faults (f <$> x) (f <$> y) := by
  intro s r h
  simp only [Functor.map, EStateM.map]
  exact (hx s r h).elim (fun _ _ _ h => ⟨rfl, h⟩) (fun _ _ _ _ h => h)

theorem coupled_forM {f : γ → Act σ Unit} {g : γ → Act ρ Unit}
    (h : ∀ c, Coupled values faults (f c) (g c)) (xs : List γ) :
    Coupled values faults (xs.forM f) (xs.forM g) := by
  induction xs with
  | nil => exact coupled_pure ()
  | cons c xs ih => exact (h c).bind fun _ => ih

theorem coupled_mapM {f : γ → Act σ α} {g : γ → Act ρ α}
    (h : ∀ c, Coupled values faults (f c) (g c)) (xs : List γ) :
    Coupled values faults (xs.mapM f) (xs.mapM g) := by
  induction xs with
  | nil => exact coupled_pure []
  | cons c xs ih =>
    rw [List.mapM_cons, List.mapM_cons]
    exact (h c).bind fun _ => ih.bind fun _ => coupled_pure _

/-! ## Walks and searches -/

section Next

variable {next : Act σ (Option α)} {next' : Act ρ (Option α)}

theorem coupled_walk (hn : Coupled values faults next next') {visit : β → α → Act σ (Visit β)}
    {visit' : β → α → Act ρ (Visit β)}
    (hv : ∀ b a, Coupled values faults (visit b a) (visit' b a)) :
    ∀ limit b, Coupled values faults (walk next visit limit b) (walk next' visit' limit b)
  | 0, _ => fun _ _ h => ⟨rfl, h⟩
  | limit + 1, b => by
    intro s r h
    simp only [walk]
    refine (hn s r h).elim (fun x s r h => ?_) (fun e f s r h => h)
    cases x with
    | none => exact ⟨rfl, h⟩
    | some a =>
      dsimp only
      refine (hv b a s r h).elim (fun v s r h => ?_) (fun e f s r h => h)
      cases v with
      | «continue» b => exact coupled_walk hn hv limit b s r h
      | enough b => exact ⟨rfl, h⟩

theorem coupled_pull (hn : Coupled values faults next next') (n : Nat) :
    Coupled values faults (pull next n) (pull next' n) :=
  (coupled_walk hn (fun _ _ => coupled_pure _) n _).bind fun _ => coupled_pure _

theorem coupled_countUpTo (hn : Coupled values faults next next') (n : Nat) :
    Coupled values faults (countUpTo next n) (countUpTo next' n) :=
  (coupled_walk hn (fun _ _ => coupled_pure _) n _).bind fun _ => coupled_pure _

theorem coupled_first (hn : Coupled values faults next next') :
    Coupled values faults (first next) (first next') :=
  hn.bind fun _ => coupled_pure _

theorem coupled_findFirst (hn : Coupled values faults next next') {test : α → Act σ Bool}
    {test' : α → Act ρ Bool} (ht : ∀ a, Coupled values faults (test a) (test' a)) (limit : Nat) :
    Coupled values faults (findFirst next test limit) (findFirst next' test' limit) := by
  refine (coupled_walk hn (fun _ a => (ht a).bind fun b => ?_) limit _).bind
    fun _ => coupled_pure _
  cases b <;> exact coupled_pure _

theorem coupled_nth (hn : Coupled values faults next next') :
    ∀ n, Coupled values faults (nth next n) (nth next' n)
  | 0 => hn
  | n + 1 => by
    intro s r h
    simp only [nth]
    refine (hn s r h).elim (fun x s r h => ?_) (fun e f s r h => h)
    cases x with
    | none => exact ⟨rfl, h⟩
    | some a => exact coupled_nth hn n s r h

/-! ## Windows -/

theorem coupled_passage (hn : Coupled values faults next next') :
    Coupled (Beside values) (fun e f => Beside (faults e f)) (Passage.next next)
      (Passage.next next') := by
  rintro ⟨p, s⟩ ⟨q, r⟩ ⟨rfl, h⟩
  simp only [Passage.next]
  cases p.left with
  | zero => exact ⟨rfl, rfl, h⟩
  | succ left =>
    dsimp only
    exact (coupled_nth hn p.skip s r h).elim (fun _ _ _ h => ⟨rfl, rfl, h⟩)
      (fun _ _ _ _ h => ⟨rfl, h⟩)

/-- Traversals of a nest in the same passages, over related states. -/
def SamePassages (states : σ → ρ → Prop) :
    (ws : Nest) → Nest.Traversal σ ws → Nest.Traversal ρ ws → Prop
  | [] => states
  | _ :: inner => Beside (SamePassages states inner)

theorem coupled_nest (hn : Coupled values faults next next') :
    ∀ ws : Nest, Coupled (SamePassages values ws) (fun e f => SamePassages (faults e f) ws)
      (Nest.next next ws) (Nest.next next' ws)
  | [] => hn
  | _ :: inner => coupled_passage (coupled_nest hn inner)

theorem samePassages_start {s : σ} {r : ρ} (h : values s r) :
    ∀ ws : Nest, SamePassages values ws (Nest.start s ws) (Nest.start r ws)
  | [] => h
  | _ :: inner => ⟨rfl, samePassages_start h inner⟩

theorem SamePassages.base :
    ∀ (ws : Nest) (t : Nest.Traversal σ ws) (u : Nest.Traversal ρ ws),
      SamePassages values ws t u → values (Nest.base ws t) (Nest.base ws u)
  | [], _, _, h => h
  | _ :: inner, t, u, h => SamePassages.base inner t.2 u.2 h.2

theorem coupled_nestPull (hn : Coupled values faults next next') (ws : Nest) (n : Nat) :
    Coupled values faults (Nest.pull next ws n) (Nest.pull next' ws n) := by
  intro s r h
  simp only [Nest.pull]
  have hpull := coupled_pull (coupled_nest hn ws) n _ _ (samePassages_start h ws)
  exact hpull.elim (fun _ t u h => ⟨rfl, h.base⟩) (fun _ _ t u h => SamePassages.base ws t u h)

end Next

/-! ## Invariants -/

theorem keeps_iff_coupled {inv : σ → Prop} {fault : Fault → σ → Prop} {x : Act σ α} :
    Keeps inv fault x ↔ Coupled (Single inv) (fun e f s r => e = f ∧ Single (fault e) s r) x x := by
  constructor
  · rintro h s _ ⟨rfl, hs⟩
    exact (h s hs).elim (fun _ _ h => ⟨rfl, rfl, h⟩) (fun _ _ h => ⟨rfl, rfl, h⟩)
  · intro h s hs
    have hmeet := h s s ⟨rfl, hs⟩
    cases hx : x s with
    | ok a s' =>
      rw [hx] at hmeet
      exact hmeet.2.2
    | error e s' =>
      rw [hx] at hmeet
      exact hmeet.2.2

theorem Keeps.pull {inv : σ → Prop} {fault : Fault → σ → Prop} {next : Act σ (Option α)}
    (h : Keeps inv fault next) (n : Nat) : Keeps inv fault (pull next n) :=
  keeps_iff_coupled.2 (coupled_pull (keeps_iff_coupled.1 h) n)

theorem Keeps.countUpTo {inv : σ → Prop} {fault : Fault → σ → Prop} {next : Act σ (Option α)}
    (h : Keeps inv fault next) (n : Nat) : Keeps inv fault (countUpTo next n) :=
  keeps_iff_coupled.2 (coupled_countUpTo (keeps_iff_coupled.1 h) n)

end Act

end Streamkit
