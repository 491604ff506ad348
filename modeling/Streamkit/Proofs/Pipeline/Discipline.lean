import Streamkit.Proofs.Pipeline.Query

/-!
# The callbacks of a pipeline

Every step of a pipeline runs the callback that its method has for the variant of the value, once,
with the payload if it takes one, and no callback where the method has none for that variant. It
gives up with the fault of the callback, with the message that the callback worded, or as an
accessor without a payload, and then nothing more is run (`Pipeline.Step.Obeys`). From one step this
passes to pipelines of any length, whose calls are at most as many as their steps:
`Pipeline.callbacks_disciplined`.
-/

namespace Streamkit

variable {φ π τ α β : Type}

/-! ## Noting calls -/

/-- Notes the call of a callback before the callback runs. -/
def Call.noted (call : Call) (x : Act τ α) : Act (Array Call × τ) α := do
  Act.onFst (modify (·.push call))
  Act.onSnd x

/-- The callbacks, each of which notes its call before it runs. -/
def Callbacks.noted (cb : Callbacks φ π τ) : Callbacks φ π (Array Call × τ) where
  apply position f v := Call.noted ⟨position, some v⟩ (cb.apply position f v)
  produce position f := Call.noted ⟨position, none⟩ (cb.produce position f)
  test position p v := Call.noted ⟨position, some v⟩ (cb.test position p v)
  visit v := Call.noted ⟨0, some v⟩ (cb.visit v)
  word position message := Call.noted ⟨position, none⟩ (cb.word position message)

/-- Callbacks that neither tell their positions apart nor do anything when a value is visited or a
message worded. -/
def Callbacks.plain (apply : φ → Value → Act τ Value) (test : π → Value → Act τ Bool) :
    Callbacks φ π τ where
  apply _ f v := apply f v
  produce _ f := apply f .unit
  test _ p v := test p v
  visit _ := pure ()
  word _ message := pure message

namespace Pipeline

theorem recorded_eq_noted (apply : φ → Value → Act τ Value) (test : π → Value → Act τ Bool) :
    recorded apply test = (Callbacks.plain apply test).noted := rfl

variable (cb : Callbacks φ π τ)

theorem run_noted (q : Query φ π) : q.run cb.noted = Call.noted q.call (q.run cb) := by
  cases q <;> rfl

/-! ## One step -/

/-- What a step from `x` does with the callbacks, whose state it takes from `t` to `t'`. -/
structure Step.Obeys (x : Value) (method : Method φ π) (t t' : τ) (s : Step) : Prop where
  calls : s.calls.toList = ((method.query x).map Query.call).toList
  ending : match method.query x with
    | none => t' = t ∧ Fault.of? s.result = method.accessFault x
    | some q => match q.run cb t with
      | .ok a t₁ => t' = t₁ ∧ Fault.of? s.result = q.fault a
      | .error e t₁ => t' = t₁ ∧ s.result = .error e

theorem attempt_ofExcept {σ : Type} (r : Except Fault α) (s : σ) :
    (Act.ofExcept r).attempt s = (r, s) := by
  cases r <;> rfl

theorem attempt_noted (call : Call) (x : Act τ β) (finish : β → Except Fault α)
    (calls : Array Call) (t : τ) :
    (do Act.ofExcept (finish (← call.noted x))).attempt (calls, t) =
      match x t with
      | .ok b t₁ => (finish b, calls.push call, t₁)
      | .error e t₁ => (.error e, calls.push call, t₁) := by
  have hnoted : call.noted x (calls, t) = Act.onSnd x (calls.push call, t) := rfl
  simp only [Act.attempt, Bind.bind, EStateM.bind, hnoted, Act.onSnd]
  cases x t with
  | ok b t₁ => exact attempt_ofExcept (finish b) (calls.push call, t₁)
  | error e t₁ => rfl

theorem step_of_attempt {cb : Callbacks φ π (Array Call × τ)} {x : Value} {method : Method φ π}
    {t t' : τ} {r : Except Fault Outcome} {calls : Array Call}
    (h : (Method.run cb x method).attempt (#[], t) = (r, calls, t')) :
    step cb x method t = (⟨r, calls⟩, t') := by
  rw [step, h]

theorem obeys_step (x : Value) (method : Method φ π) (t : τ) :
    (step cb.noted x method t).1.Obeys cb x method t (step cb.noted x method t).2 := by
  have hasks := method.asks_run cb.noted x
  cases hq : method.query x with
  | none =>
    obtain ⟨r, hr, hrun⟩ := hq ▸ hasks
    have hattempt : (Method.run cb.noted x method).attempt (#[], t) = (r, #[], t) := by
      rw [hrun, attempt_ofExcept]
    rw [step_of_attempt hattempt]
    exact ⟨by rw [hq]; rfl, by rw [hq]; exact ⟨rfl, hr⟩⟩
  | some q =>
    obtain ⟨finish, hfinish, hrun⟩ := hq ▸ hasks
    have hattempt := attempt_noted q.call (q.run cb) finish #[] t
    rw [← run_noted, ← hrun] at hattempt
    cases ht : q.run cb t with
    | ok a t₁ =>
      rw [ht] at hattempt
      rw [step_of_attempt hattempt]
      exact ⟨by rw [hq]; rfl, by rw [hq]; simp only [ht]; exact ⟨trivial, hfinish a⟩⟩
    | error e t₁ =>
      rw [ht] at hattempt
      rw [step_of_attempt hattempt]
      exact ⟨by rw [hq]; rfl, by rw [hq]; simp only [ht]; exact ⟨trivial, trivial⟩⟩

/-! ## Runs -/

/-- Every step of a run obeys, on the value and the state that the steps before it leave. -/
inductive Obeying : Value → τ → List (Method φ π) → List Step → Prop
  | nil {x : Value} {t : τ} : Obeying x t [] []
  | cons {x : Value} {t t' : τ} {method : Method φ π} {s : Step} {methods : List (Method φ π)}
      {steps : List Step} (first : s.Obeys cb x method t t')
      (rest : Obeying (s.after x) t' methods steps) : Obeying x t (method :: methods) (s :: steps)

theorem obeying_run (methods : List (Method φ π)) (x : Value) (t : τ) :
    Obeying cb x t methods (run cb.noted x methods t) := by
  induction methods generalizing x t with
  | nil => exact .nil
  | cons method methods ih => exact .cons (obeys_step cb x method t) (ih _ _)

/-- The calls of all steps, in order. -/
def calls (steps : List Step) : List Call := steps.flatMap fun s => s.calls.toList

variable {cb}

theorem Step.Obeys.length_calls_le {x : Value} {method : Method φ π} {t t' : τ} {s : Step}
    (h : s.Obeys cb x method t t') : s.calls.toList.length ≤ 1 := by
  rw [h.calls]
  cases method.query x <;> simp

theorem Obeying.length_calls_le {x : Value} {t : τ} {methods : List (Method φ π)}
    {steps : List Step} (h : Obeying cb x t methods steps) :
    (calls steps).length ≤ methods.length := by
  induction h with
  | nil => exact Nat.le_refl 0
  | cons first rest ih =>
    have hfirst := first.length_calls_le
    rw [calls] at ih ⊢
    rw [List.flatMap_cons, List.length_append, List.length_cons]
    omega

/-- Whatever the callbacks do, every step of a pipeline runs at most one of them, which is the one
for the variant of its value, and the steps together make no more calls than there are steps. -/
theorem callbacks_disciplined (cb : Callbacks φ π τ) (x : Value) (methods : List (Method φ π))
    (t : τ) :
    Obeying cb x t methods (run cb.noted x methods t) ∧
    (calls (run cb.noted x methods t)).length ≤ methods.length ∧
    ∀ (apply : φ → Value → Act τ Value) (test : π → Value → Act τ Bool),
      recorded apply test = (Callbacks.plain apply test).noted :=
  have h := obeying_run cb methods x t
  ⟨h, h.length_calls_le, recorded_eq_noted⟩

end Pipeline

end Streamkit
