import Streamkit.Fault

/-!
# Outcomes of computations

`Act.Leaves value fault o` says what an outcome leaves behind: a value and a state of which `value`
holds, or a fault and a state of which `fault` holds. A computation that always returns is one whose
`fault` holds of nothing. `Act.EndsIn inv o` says that `inv` holds of the state whatever the outcome
is. `Act.Keeps inv fault x` is the case of an invariant: started where `inv` holds, `x` ends where
it holds, or gives up as `fault` says.
-/

namespace Streamkit.Act

variable {σ α β : Type}

/-- What an outcome leaves behind. -/
def Leaves (value : α → σ → Prop) (fault : Fault → σ → Prop) : EStateM.Result Fault σ α → Prop
  | .ok a s => value a s
  | .error e s => fault e s

/-- The computation keeps an invariant, unless it gives up. -/
def Keeps (inv : σ → Prop) (fault : Fault → σ → Prop) (x : Act σ α) : Prop :=
  ∀ s, inv s → Leaves (fun _ => inv) fault (x s)

/-- The outcome, be it a value or a fault, leaves a state of which `inv` holds. -/
def EndsIn (inv : σ → Prop) : EStateM.Result Fault σ α → Prop :=
  Leaves (fun _ => inv) (fun _ => inv)

/-- No fault is left. -/
def never : Fault → σ → Prop := fun _ _ => False

variable {value : α → σ → Prop} {inv : σ → Prop} {fault : Fault → σ → Prop}

@[elab_as_elim]
theorem Leaves.elim {motive : EStateM.Result Fault σ α → Prop} {o : EStateM.Result Fault σ α}
    (h : Leaves value fault o) (ok : ∀ a s, value a s → motive (.ok a s))
    (error : ∀ e s, fault e s → motive (.error e s)) : motive o := by
  cases o with
  | ok a s => exact ok a s h
  | error e s => exact error e s h

theorem Leaves.exists_ok {o : EStateM.Result Fault σ α} (h : Leaves value never o) :
    ∃ a s, o = .ok a s ∧ value a s :=
  h.elim (fun a s h => ⟨a, s, rfl, h⟩) (fun _ _ => False.elim)

theorem EndsIn.imp {inv' : σ → Prop} {o : EStateM.Result Fault σ α} (h : EndsIn inv o)
    (hinv : ∀ s, inv s → inv' s) : EndsIn inv' o :=
  Leaves.elim h (fun _ => hinv) (fun _ => hinv)

theorem EndsIn.attempt {x : Act σ α} {s : σ} (h : EndsIn inv (x s)) : inv (x.attempt s).2 := by
  simp only [Act.attempt]
  exact Leaves.elim h (fun _ _ h => h) (fun _ _ h => h)

theorem ofExcept_eq_ok {x : Except Fault α} {a : α} {s s' : σ}
    (h : ofExcept x s = .ok a s') : x = .ok a ∧ s' = s := by
  cases x with
  | ok b =>
    obtain ⟨rfl, rfl⟩ := EStateM.Result.ok.inj h
    exact ⟨rfl, rfl⟩
  | error e => cases h

theorem ofExcept_eq_error {x : Except Fault α} {e : Fault} {s s' : σ}
    (h : ofExcept x s = .error e s') : x = .error e ∧ s' = s := by
  cases x with
  | ok b => cases h
  | error f =>
    obtain ⟨rfl, rfl⟩ := EStateM.Result.error.inj h
    exact ⟨rfl, rfl⟩

theorem attempt_of_ofExcept {x : Act σ α} {r : Except Fault α} {s s' : σ}
    (h : x s = ofExcept r s') : x.attempt s = (r, s') := by
  rw [attempt, h]
  cases r <;> rfl

theorem Leaves.of_ofExcept {r : Except Fault α} {s : σ}
    (h : Leaves (fun _ => inv) (fun _ => inv) (ofExcept r s)) : inv s := by
  cases r <;> exact h

theorem keeps_pure (a : α) : Keeps inv fault (pure a : Act σ α) := fun _ h => h

theorem Leaves.bind {value' : β → σ → Prop} {x : Act σ α} {f : α → Act σ β} {s : σ}
    (hx : Leaves value fault (x s)) (hf : ∀ a s, value a s → Leaves value' fault (f a s)) :
    Leaves value' fault ((x >>= f) s) := by
  simp only [Bind.bind, EStateM.bind]
  exact hx.elim (fun a s h => hf a s h) (fun _ _ h => h)

theorem Keeps.bind {x : Act σ α} {f : α → Act σ β} (hx : Keeps inv fault x)
    (hf : ∀ a, Keeps inv fault (f a)) : Keeps inv fault (x >>= f) :=
  fun s h => (hx s h).bind hf

/-- A loop over numbers advances an invariant by one number at a time. -/
theorem leaves_forM_range {inv : Nat → σ → Prop} {f : Nat → Act σ Unit} (n : Nat)
    (hf : ∀ i < n, ∀ s, inv i s → Leaves (fun _ => inv (i + 1)) fault (f i s)) {s : σ}
    (h : inv 0 s) : Leaves (fun _ => inv n) fault ((List.range n).forM f s) := by
  induction n with
  | zero => exact h
  | succ n ih =>
    rw [List.range_succ]
    show Leaves _ _ (forM (List.range n ++ [n]) f s)
    rw [List.forM_append]
    refine (ih fun i hi => hf i (Nat.lt_succ_of_lt hi)).bind fun _ s h => ?_
    exact (hf n (Nat.lt_succ_self n) s h).bind (f := fun _ => pure ()) fun _ _ h => h

end Streamkit.Act
