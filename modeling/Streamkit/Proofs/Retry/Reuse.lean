import Streamkit.Proofs.Outcome
import Streamkit.Proofs.Refinement
import Streamkit.Proofs.Retry.Trace

/-!
# A policy that is used again

A policy keeps its handler from call to call and nothing else. `PolicyCall.Comes` tells what one
call comes to, from whatever handler and world it finds (`PolicyCall.exists_comes`), and a
`Policy.Run` is a series of such calls, which goes on after a fault. So the attempts of every call
are counted from one, while a handler sees the errors of all calls one after the other; a handler
that logs numbers them through the whole run (`Policy.Run.recorded`). The two are put together in
`policy_reusable`.
-/

namespace Streamkit

open Act

variable {κ ε σ τ α β : Type}

/-! ## Calls -/

/-- A call of a policy, with an operation that takes an input or with one that takes none. -/
inductive PolicyCall (β ε α σ : Type) where
  | call (op : Act σ (Except ε α))
  | apply (input : β) (op : β → Act σ (Except ε α))

/-- What a call comes to: the errors of the attempts that failed, and the ending. -/
structure CallTrace (ε α : Type) where
  errors : List ε
  ending : RetryEnding ε α

namespace CallTrace

/-- What the caller is given. -/
def result (t : CallTrace ε α) : Except Fault (Except ε α) := t.ending.result

/-- The number of attempts. -/
def attempts (t : CallTrace ε α) : Nat := t.errors.length + t.ending.calls

/-- What is noted of a call of `n` attempts at most. -/
def notes (n : Nat) (input : β) (t : CallTrace ε α) : List (RetryNote β ε α) :=
  failedRounds n input 1 t.errors ++ t.ending.notes n input (t.errors.length + 1)

end CallTrace

namespace PolicyCall

/-- Makes the call. -/
def perform (w : RetryWorld κ ε σ) : PolicyCall β ε α σ → Act (Policy κ × σ) (Except ε α)
  | call op => Policy.call w op
  | apply input op => Policy.apply w input op

/-- The input of the operation, if it takes one. -/
def input : PolicyCall β ε α σ → Option β
  | call _ => none
  | apply input _ => some input

/-- The call with the calls of its operation noted. -/
def noted : PolicyCall β ε α σ → PolicyCall β ε α (Watched (Option β) ε α σ)
  | call op => call (Watched.attempt (fun _ => op) none)
  | apply input op => apply input fun i => Watched.attempt (fun _ => op i) (some i)

/-- Makes the call under watch, with the calls of its operation counted anew. -/
def watch (w : RetryWorld κ ε σ) (c : PolicyCall β ε α σ) :
    Act (Policy (Handler κ) × Watched (Option β) ε α σ) (Except ε α) :=
  fun (p, v) => c.noted.perform (Watched.ofWorld w) (p, { v with calls := 0 })

/-- The call in a world with something beside it. -/
def onFst : PolicyCall β ε α σ → PolicyCall β ε α (σ × τ)
  | call op => call (Act.onFst op)
  | apply input op => apply input fun i => Act.onFst (op i)

/-- What an attempt does. -/
def op : PolicyCall β ε α σ → Act σ (Except ε α)
  | call op => op
  | apply input op => op input

/-- The call comes to this, watched or not, and leaves the handler and the world as `left'` says. -/
structure Comes (w : RetryWorld κ ε σ) (p : Policy κ) (c : PolicyCall β ε α σ) (t : CallTrace ε α)
    (left left' : Handler κ × σ) : Prop where
  follows : t.ending.Follows w p.maxAttempts.toNat t.errors left'
  performed : c.perform w (p.withHandler left.1, left.2) =
    ofExcept t.result (p.withHandler left'.1, left'.2)
  watched : ∀ calls notes, c.watch w (p.withHandler (.leaf left.1), ⟨left.2, calls, notes⟩) =
    ofExcept t.result (p.withHandler (.leaf left'.1),
      ⟨left'.2, t.attempts, notes ++ t.notes p.maxAttempts.toNat c.input⟩)

variable {w : RetryWorld κ ε σ}

theorem perform_eq (c : PolicyCall β ε α σ) :
    c.perform w = Policy.apply w c.input fun _ => c.op := by cases c <;> rfl

theorem watch_eq (c : PolicyCall β ε α σ) (p : Policy (Handler κ))
    (v : Watched (Option β) ε α σ) : c.watch w (p, v) =
      Policy.apply (Watched.ofWorld w) c.input (Watched.attempt fun _ => c.op)
        (p, { v with calls := 0 }) := by cases c <;> rfl

@[simp] theorem input_onFst (c : PolicyCall β ε α σ) : (c.onFst (τ := τ)).input = c.input := by
  cases c <;> rfl

@[simp] theorem op_onFst (c : PolicyCall β ε α σ) : (c.onFst (τ := τ)).op = Act.onFst c.op := by
  cases c <;> rfl

/-- Every call comes to something, whatever was called before. -/
theorem exists_comes (w : RetryWorld κ ε σ) (p : Policy κ) (c : PolicyCall β ε α σ)
    (left : Handler κ × σ) : ∃ t left', c.Comes w p t left left' := by
  obtain ⟨errors, ending, h', s', hends, hrun, hwatched⟩ :=
    Policy.exists_ending_after w (fun _ => c.op) c.input p left.1 left.2
  refine ⟨⟨errors, ending⟩, (h', s'), hends, ?_, fun calls notes => ?_⟩
  · rw [perform_eq]
    exact hrun
  · rw [watch_eq]
    exact hwatched notes

end PolicyCall

namespace RetryEnding

/-- No call makes more attempts than the policy allows. -/
theorem Follows.calls_le {w : RetryWorld κ ε σ} {n : Nat} {errors : List ε}
    {left : Handler κ × σ} {ending : RetryEnding ε α} (h : ending.Follows w n errors left) :
    errors.length + ending.calls ≤ n := by
  cases ending with
  | succeeded a => exact h
  | operationFault f => exact h
  | exhausted e => exact Nat.le_of_eq h.1
  | handlerFault e f => exact h.1

end RetryEnding

/-! ## Runs -/

/-- A run of calls, one after the other, whatever they come to. -/
inductive Policy.Run (w : RetryWorld κ ε σ) (p : Policy κ) :
    Handler κ × σ → List (PolicyCall β ε α σ) → List (CallTrace ε α) → Handler κ × σ → Prop
  | nil (left : Handler κ × σ) : Run w p left [] [] left
  | cons {c : PolicyCall β ε α σ} {t : CallTrace ε α} {left left₁ left' : Handler κ × σ}
    {calls : List (PolicyCall β ε α σ)} {traces : List (CallTrace ε α)}
    (hcomes : c.Comes w p t left left₁) (hrun : Run w p left₁ calls traces left') :
    Run w p left (c :: calls) (t :: traces) left'

/-- What is noted of a run. -/
def runNotes (n : Nat) (calls : List (PolicyCall β ε α σ)) (traces : List (CallTrace ε α)) :
    List (RetryNote (Option β) ε α) :=
  (List.zipWith (fun c t => t.notes n c.input) calls traces).flatten

namespace RetryNote

/-- The error that the handler was shown. -/
def handledError : RetryNote β ε α → Option ε
  | handled e => some e
  | attempted _ _ _ | failed _ _ | exhausted _ => none

/-- The error that an attempt ended in. -/
def failure : RetryNote β ε α → Option ε
  | attempted _ _ (.ok (.error e)) => some e
  | attempted _ _ (.ok (.ok _)) | attempted _ _ (.error _) | failed _ _ | handled _ | exhausted _ =>
    none

end RetryNote

/-- The notes on one failed attempt. -/
def failedRound (n : Nat) (input : β) (attempt : Nat) (e : ε) : List (RetryNote β ε α) :=
  [.attempted attempt input (.ok (.error e)), .failed attempt n, .handled e]

theorem failedRounds_cons (n : Nat) (input : β) (attempt : Nat) (e : ε) (errors : List ε) :
    (failedRounds n input attempt (e :: errors) : List (RetryNote β ε α)) =
      failedRound n input attempt e ++ failedRounds n input (attempt + 1) errors := rfl

/-- A reading of the notes that finds the error of a round once finds the errors of all rounds. -/
theorem filterMap_failedRounds (f : RetryNote β ε α → Option ε) (n : Nat) (input : β)
    (hround : ∀ attempt e, (failedRound n input attempt e).filterMap f = [e]) (errors : List ε) :
    ∀ attempt, (failedRounds n input attempt errors).filterMap f = errors := by
  induction errors with
  | nil => exact fun _ => rfl
  | cons e errors ih =>
    intro attempt
    rw [failedRounds_cons, List.filterMap_append, hround, ih]
    rfl

namespace CallTrace

theorem filterMap_notes (f : RetryNote β ε α → Option ε) (n : Nat) (input : β) (t : CallTrace ε α)
    (hround : ∀ attempt e, (failedRound n input attempt e).filterMap f = [e])
    (hending : ∀ attempt, (t.ending.notes n input attempt).filterMap f = []) :
    (t.notes n input).filterMap f = t.errors := by
  rw [notes, List.filterMap_append, filterMap_failedRounds f n input hround, hending,
    List.append_nil]

/-- The handler is shown the error of each failed attempt once. -/
theorem handledErrors_notes (n : Nat) (input : β) (t : CallTrace ε α) :
    (t.notes n input).filterMap RetryNote.handledError = t.errors :=
  t.filterMap_notes _ n input (fun _ _ => rfl) fun _ => by cases t.ending <;> rfl

theorem failures_notes (n : Nat) (input : β) (t : CallTrace ε α) :
    (t.notes n input).filterMap RetryNote.failure = t.errors :=
  t.filterMap_notes _ n input (fun _ _ => rfl) fun _ => by cases t.ending <;> rfl

end CallTrace

namespace Policy

variable {w : RetryWorld κ ε σ} {p : Policy κ} {left left' : Handler κ × σ}
  {calls : List (PolicyCall β ε α σ)} {traces : List (CallTrace ε α)}

theorem exists_run (w : RetryWorld κ ε σ) (p : Policy κ) (calls : List (PolicyCall β ε α σ)) :
    ∀ left, ∃ traces left', p.Run w left calls traces left' := by
  induction calls with
  | nil => exact fun left => ⟨[], left, .nil left⟩
  | cons c calls ih =>
    intro left
    obtain ⟨t, left₁, hcomes⟩ := c.exists_comes w p left
    obtain ⟨traces, left', hrun⟩ := ih left₁
    exact ⟨t :: traces, left', .cons hcomes hrun⟩

theorem Run.performed (hrun : p.Run w left calls traces left') :
    attemptAll (calls.map (PolicyCall.perform w)) (p.withHandler left.1, left.2) =
      (traces.map CallTrace.result, (p.withHandler left'.1, left'.2)) := by
  induction hrun with
  | nil => rfl
  | cons hcomes _ ih =>
    simp only [List.map_cons, attemptAll, attempt_of_ofExcept hcomes.performed, ih]

theorem Run.watched (hrun : p.Run w left calls traces left') (k : Nat)
    (notes : List (RetryNote (Option β) ε α)) : ∃ k',
    attemptAll (calls.map (PolicyCall.watch w)) (p.withHandler (.leaf left.1), ⟨left.2, k, notes⟩) =
      (traces.map CallTrace.result, (p.withHandler (.leaf left'.1),
        ⟨left'.2, k', notes ++ runNotes p.maxAttempts.toNat calls traces⟩)) := by
  induction hrun generalizing k notes with
  | nil => exact ⟨k, by simp [attemptAll, runNotes]⟩
  | @cons c t _ _ _ _ _ hcomes _ ih =>
    obtain ⟨k', hrest⟩ := ih t.attempts (notes ++ t.notes p.maxAttempts.toNat c.input)
    refine ⟨k', ?_⟩
    simp only [List.map_cons, attemptAll, attempt_of_ofExcept (hcomes.watched k notes), hrest]
    simp only [runNotes, List.zipWith_cons_cons, List.flatten_cons, List.append_assoc]

theorem Run.attempts_le (hrun : p.Run w left calls traces left') :
    ∀ t ∈ traces, t.attempts ≤ p.maxAttempts.toNat := by
  induction hrun with
  | nil => exact fun _ h => absurd h List.not_mem_nil
  | cons hcomes _ ih => exact List.forall_mem_cons.2 ⟨hcomes.follows.calls_le, ih⟩

/-- The errors found in the notes of a run are those found in the notes of its calls. -/
theorem Run.filterMap_notes (hrun : p.Run w left calls traces left')
    (f : RetryNote (Option β) ε α → Option ε)
    (hf : ∀ n input (t : CallTrace ε α), (t.notes n input).filterMap f = t.errors) (n : Nat) :
    (runNotes n calls traces).filterMap f = traces.flatMap CallTrace.errors := by
  induction hrun with
  | nil => rfl
  | cons _ _ ih =>
    rw [runNotes] at ih ⊢
    rw [List.zipWith_cons_cons, List.flatten_cons, List.filterMap_append, hf, ih, List.flatMap_cons]

end Policy

/-! ## Invariants of calls -/

namespace Policy

/-- What a call does to the handler and the world keeps an invariant. -/
structure Preserves (w : RetryWorld κ ε σ) (op : Act σ (Except ε α)) (inv : Handler κ × σ → Prop) :
    Prop where
  op : ∀ h s, inv (h, s) → Leaves (fun _ s' => inv (h, s')) (fun _ s' => inv (h, s')) (op s)
  failed : ∀ h s attempt n, inv (h, s) → inv (h, w.emit (.attemptFailed attempt n) s)
  exhausted : ∀ h s attempts, inv (h, s) → inv (h, w.emit (.attemptsExhausted attempts) s)
  handled : ∀ h s e, inv (h, s) → Leaves (fun _ => inv) (fun _ => inv) (h.onFailure w e s)

variable {w : RetryWorld κ ε σ} {op : Act σ (Except ε α)} {inv : Handler κ × σ → Prop}

/-- A failed attempt is reported and handled. -/
theorem Preserves.failure (hinv : Preserves w op inv) {h : Handler κ} {s s' : σ} {e : ε}
    (hs : inv (h, s)) (hop : op s = .ok (.error e) s') (attempt n : UInt32) :
    Leaves (fun _ => inv) (fun _ => inv)
      (h.onFailure w e (w.emit (.attemptFailed attempt n) s')) := by
  have hleft := hinv.op h s hs
  rw [hop] at hleft
  exact hinv.handled h _ e (hinv.failed h s' attempt n hleft)

theorem Preserves.attemptFrom (hinv : Preserves w op inv) (n attempt : UInt32) (h : Handler κ)
    (s : σ) : inv (h, s) →
      Leaves (fun _ => inv) (fun _ => inv) (attemptFrom w op n attempt h s) := by
  fun_induction Policy.attemptFrom w op n attempt h s with
  | case1 attempt h s f s' hop =>
    intro hs
    have hleft := hinv.op h s hs
    rwa [hop] at hleft
  | case2 attempt h s a s' hop =>
    intro hs
    have hleft := hinv.op h s hs
    rwa [hop] at hleft
  | case3 attempt h s e s' hop f h' s'' hhandler =>
    intro hs
    have hleft := hinv.failure hs hop attempt n
    rwa [hhandler] at hleft
  | case4 attempt h s e s' hop h' s'' hhandler hlt ih =>
    intro hs
    have hleft := hinv.failure hs hop attempt n
    rw [hhandler] at hleft
    exact ih hleft
  | case5 attempt h s e s' hop h' s'' hhandler hlt =>
    intro hs
    have hleft := hinv.failure hs hop attempt n
    rw [hhandler] at hleft
    exact hinv.exhausted h' s'' attempt hleft

theorem Preserves.call (hinv : Preserves w op inv) {p : Policy κ} {s : σ}
    (hs : inv (p.handler, s)) :
    Leaves (fun _ x => inv (x.1.handler, x.2)) (fun _ x => inv (x.1.handler, x.2))
      (Policy.call w op (p, s)) := by
  simp only [Policy.call]
  exact (hinv.attemptFrom p.maxAttempts 1 p.handler s hs).elim (fun _ _ h => h) (fun _ _ h => h)

end Policy

/-! ## Handlers that log -/

/-- The world with its events kept, in order. -/
def RetryWorld.recorded (w : RetryWorld κ ε σ) : RetryWorld κ ε (σ × List (RetryEvent ε)) where
  observe e := fun (k, s, events) =>
    match w.observe e (k, s) with
    | .ok () (k, s) => .ok () (k, s, events)
    | .error f (k, s) => .error f (k, s, events)
  emit event := fun (s, events) => (w.emit event s, events ++ [event])

/-- An error that was logged, with the number it has in the log. -/
def RetryEvent.logged : RetryEvent ε → Option (ε × Nat)
  | failureLogged _ attempt e => some (e, attempt.toNat)
  | attemptFailed _ _ | attemptsExhausted _ => none

/-- The events of failed attempts, the first of which is attempt `attempt` of `n`; the handler has
logged `before` failures before the call. -/
def loggedRounds (operation : String) (n : UInt32) (before : Nat) :
    (attempt : Nat) → List ε → List (RetryEvent ε)
  | _, [] => []
  | attempt, e :: errors =>
    .attemptFailed (.ofNat attempt) n :: .failureLogged operation (.ofNat (before + attempt)) e ::
      loggedRounds operation n before (attempt + 1) errors

/-- The events of the ending, after those of the failed attempts. -/
def RetryEnding.events (n : UInt32) : RetryEnding ε α → List (RetryEvent ε)
  | exhausted _ => [.attemptsExhausted n]
  | succeeded _ | operationFault _ | handlerFault _ _ => []

/-- The events of a call, when the handler has logged `before` failures before it. -/
def CallTrace.events (operation : String) (n : UInt32) (before : Nat) (t : CallTrace ε α) :
    List (RetryEvent ε) :=
  loggedRounds operation n before 1 t.errors ++ t.ending.events n

/-- The events of a run, when the handler has logged `before` failures before it. -/
def runEvents (operation : String) (n : UInt32) :
    (before : Nat) → List (CallTrace ε α) → List (RetryEvent ε)
  | _, [] => []
  | before, t :: traces =>
    t.events operation n before ++ runEvents operation n (before + t.errors.length) traces

/-- The events of what was noted, when the handler has logged `before` failures before that. -/
def eventsOf (operation : String) : (before : Nat) → List (RetryNote β ε α) → List (RetryEvent ε)
  | _, [] => []
  | before, .attempted _ _ _ :: notes => eventsOf operation before notes
  | before, .failed attempt n :: notes =>
    .attemptFailed (.ofNat attempt) (.ofNat n) :: eventsOf operation before notes
  | before, .handled e :: notes =>
    .failureLogged operation (.ofNat (before + 1)) e :: eventsOf operation (before + 1) notes
  | before, .exhausted attempts :: notes =>
    .attemptsExhausted (.ofNat attempts) :: eventsOf operation before notes

section Events

variable (operation : String)

theorem eventsOf_append (notes more : List (RetryNote β ε α)) (before : Nat) :
    eventsOf operation before (notes ++ more) = eventsOf operation before notes ++
      eventsOf operation (before + (notes.filterMap RetryNote.handledError).length) more := by
  induction notes generalizing before with
  | nil => rfl
  | cons note notes ih =>
    cases note with
    | attempted call input outcome => exact ih before
    | failed attempt n => exact congrArg (_ :: ·) (ih before)
    | exhausted attempts => exact congrArg (_ :: ·) (ih before)
    | handled e =>
      have hcount : before + 1 + (notes.filterMap RetryNote.handledError).length =
          before + ((RetryNote.handled e :: notes).filterMap RetryNote.handledError).length := by
        rw [Nat.add_assoc, Nat.add_comm 1]
        rfl
      exact congrArg (_ :: ·) (hcount ▸ ih (before + 1))

/-- A handler that logs adds the number of an attempt to the failures before the call. -/
theorem eventsOf_failedRounds (n : UInt32) (input : β) (before : Nat) (errors : List ε) :
    ∀ attempt, eventsOf operation (before + attempt)
        (failedRounds (α := α) n.toNat input (attempt + 1) errors) =
      loggedRounds operation n before (attempt + 1) errors := by
  induction errors with
  | nil => exact fun _ => rfl
  | cons e errors ih =>
    intro attempt
    simp only [failedRounds, eventsOf, loggedRounds, UInt32.ofNat_toNat, Nat.add_assoc, ih]

theorem eventsOf_notes (n : UInt32) (input : β) (before : Nat) (t : CallTrace ε α) :
    eventsOf operation before (t.notes n.toNat input) = t.events operation n before := by
  have hending : ∀ b, eventsOf operation b
      (t.ending.notes n.toNat input (t.errors.length + 1)) = t.ending.events n := by
    intro b
    cases t.ending with
    | exhausted e => simp only [RetryEnding.notes, eventsOf, RetryEnding.events, UInt32.ofNat_toNat]
    | succeeded | operationFault | handlerFault => rfl
  rw [CallTrace.notes, eventsOf_append, hending, CallTrace.events]
  exact congrArg (· ++ _) (eventsOf_failedRounds operation n input before t.errors 0)

theorem logged_loggedRounds (n : UInt32) (before : Nat) (errors : List ε) :
    ∀ attempt, before + attempt + errors.length ≤ UInt32.size →
      (loggedRounds operation n before attempt errors).filterMap RetryEvent.logged =
        errors.zipIdx (before + attempt) := by
  induction errors with
  | nil => exact fun _ _ => rfl
  | cons e errors ih =>
    intro attempt hle
    rw [List.length_cons] at hle
    have hnumber : (UInt32.ofNat (before + attempt)).toNat = before + attempt :=
      UInt32.toNat_ofNat_of_lt' (show before + attempt < UInt32.size by omega)
    have hrest := ih (attempt + 1) (by omega)
    simp only [loggedRounds, List.filterMap_cons, RetryEvent.logged, hnumber, hrest,
      List.zipIdx_cons, Nat.add_assoc]

theorem logged_events (n : UInt32) (before : Nat) (t : CallTrace ε α)
    (hle : before + t.errors.length < UInt32.size) :
    (t.events operation n before).filterMap RetryEvent.logged = t.errors.zipIdx (before + 1) := by
  have hending : (t.ending.events n).filterMap RetryEvent.logged = [] := by
    cases t.ending <;> rfl
  rw [CallTrace.events, List.filterMap_append, hending, List.append_nil]
  exact logged_loggedRounds operation n before t.errors 1 (by omega)

/-- The log numbers the failures of all calls one after the other. -/
theorem logged_runEvents (n : UInt32) (traces : List (CallTrace ε α)) :
    ∀ before, before + (traces.flatMap CallTrace.errors).length < UInt32.size →
      (runEvents operation n before traces).filterMap RetryEvent.logged =
        (traces.flatMap CallTrace.errors).zipIdx (before + 1) := by
  induction traces with
  | nil => exact fun _ _ => rfl
  | cons t traces ih =>
    intro before hlt
    rw [List.flatMap_cons, List.length_append] at hlt
    rw [runEvents, List.filterMap_append, logged_events operation n before t (by omega),
      ih _ (by omega), List.flatMap_cons, List.zipIdx_append, Nat.add_right_comm]

end Events

section Recorded

variable {w : RetryWorld κ ε σ} {p : Policy κ} {operation : String} {before : Nat}
  {events : List (RetryEvent ε)}

/-- A watched handler that logs has counted what it was shown, and the events are those noted. -/
def Logged (operation : String) (before : Nat) (events : List (RetryEvent ε))
    (left : Handler (Handler κ) × Watched β ε α (σ × List (RetryEvent ε))) : Prop :=
  left.1 = .leaf (.logging operation
    (.ofNat (before + (left.2.notes.filterMap RetryNote.handledError).length))) ∧
  left.2.world.2 = events ++ eventsOf operation before left.2.notes

theorem Logged.note {h : Handler (Handler κ)} {s s' : σ} {calls calls' : Nat}
    {events' more : List (RetryEvent ε)} {notes : List (RetryNote β ε α)} {note : RetryNote β ε α}
    (hleft : Logged operation before events (h, ⟨(s, events'), calls, notes⟩))
    (hnote : note.handledError = none) (hmore : ∀ b, eventsOf operation b [note] = more) :
    Logged operation before events (h, ⟨(s', events' ++ more), calls', notes ++ [note]⟩) := by
  obtain ⟨hcount, hevents⟩ := hleft
  refine ⟨?_, ?_⟩
  · have hsame : (notes ++ [note]).filterMap RetryNote.handledError =
        notes.filterMap RetryNote.handledError := by
      rw [List.filterMap_append, List.filterMap_cons_none hnote, List.filterMap_nil,
        List.append_nil]
    simp only [hsame]
    exact hcount
  · simp only [eventsOf_append, hmore]
    rw [← List.append_assoc]
    exact congrArg (· ++ more) hevents

theorem Logged.preserves (w : RetryWorld κ ε σ) (op : Act σ (Except ε α)) (input : β) :
    Policy.Preserves (Watched.ofWorld w.recorded) (Watched.attempt (fun _ => Act.onFst op) input)
      (Logged operation before events) where
  op := by
    rintro h ⟨⟨s, events'⟩, calls, notes⟩ hleft
    simp only [Watched.attempt, Act.onFst]
    cases op s with
    | ok r s' => exact events'.append_nil ▸ hleft.note rfl fun _ => rfl
    | error f s' => exact events'.append_nil ▸ hleft.note rfl fun _ => rfl
  failed := by
    rintro h ⟨⟨s, events'⟩, calls, notes⟩ attempt n hleft
    refine hleft.note rfl fun _ => ?_
    simp only [eventsOf, UInt32.ofNat_toNat]
  exhausted := by
    rintro h ⟨⟨s, events'⟩, calls, notes⟩ attempts hleft
    refine hleft.note rfl fun _ => ?_
    simp only [eventsOf, UInt32.ofNat_toNat]
  handled := by
    rintro h ⟨⟨s, events'⟩, calls, notes⟩ e ⟨hcount, hevents⟩
    simp only at hcount hevents
    subst hcount
    have hnext : UInt32.ofNat (before + (notes.filterMap RetryNote.handledError).length) + 1 =
        .ofNat (before + ((notes ++ [RetryNote.handled e]).filterMap
          RetryNote.handledError).length) := by
      rw [List.filterMap_append, List.length_append]
      exact (UInt32.ofNat_add _ 1).symm
    refine ⟨?_, ?_⟩
    · exact congrArg (fun m => Handler.leaf (Handler.logging operation m)) hnext
    · have hevent : eventsOf operation (before + (notes.filterMap RetryNote.handledError).length)
          [RetryNote.handled (β := β) (α := α) e] = [.failureLogged operation (.ofNat _ + 1) e] :=
        congrArg (fun m => [RetryEvent.failureLogged operation m e]) (UInt32.ofNat_add _ 1)
      show events' ++ [RetryEvent.failureLogged operation (.ofNat _ + 1) e] = _
      rw [eventsOf_append, hevents, List.append_assoc, hevent]

theorem Logged.start (s : σ) (calls : Nat) :
    Logged operation before events (.leaf (.logging operation (.ofNat before) : Handler κ),
      (⟨(s, events), calls, []⟩ : Watched β ε α (σ × List (RetryEvent ε)))) :=
  ⟨rfl, (List.append_nil events).symm⟩

/-- What a call leaves of a handler that logs, and of the events. -/
theorem PolicyCall.Comes.recorded {c : PolicyCall β ε α σ} {t : CallTrace ε α} {s : σ}
    {left' : Handler κ × σ × List (RetryEvent ε)}
    (h : c.onFst.Comes w.recorded p t (.logging operation (.ofNat before), s, events) left') :
    left'.1 = .logging operation (.ofNat (before + t.errors.length)) ∧
      left'.2.2 = events ++ t.events operation p.maxAttempts before := by
  have hkept : Leaves (fun _ x => Logged operation before events (x.1.handler, x.2))
      (fun _ x => Logged operation before events (x.1.handler, x.2))
      (c.onFst.watch w.recorded (p.withHandler (.leaf (.logging operation (.ofNat before))),
        ⟨(s, events), 0, []⟩)) := by
    rw [watch_eq, op_onFst, input_onFst]
    exact (Logged.preserves w c.op c.input).call (Logged.start s 0)
  rw [h.watched 0 []] at hkept
  obtain ⟨hcount, hevents⟩ := Leaves.of_ofExcept hkept
  rw [List.nil_append, CallTrace.handledErrors_notes] at hcount
  refine ⟨Handler.leaf.inj hcount, hevents.trans ?_⟩
  rw [List.nil_append, input_onFst, eventsOf_notes]

/-- A handler that logs counts through the whole run. -/
theorem Policy.Run.recorded {calls : List (PolicyCall β ε α σ)} {traces : List (CallTrace ε α)}
    {s : σ} {left' : Handler κ × σ × List (RetryEvent ε)}
    (hrun : p.Run w.recorded (.logging operation (.ofNat before), s, events)
      (calls.map PolicyCall.onFst) traces left') :
    left'.1 = .logging operation (.ofNat (before + (traces.flatMap CallTrace.errors).length)) ∧
      left'.2.2 = events ++ runEvents operation p.maxAttempts before traces := by
  induction calls generalizing before s events traces with
  | nil =>
    cases hrun
    exact ⟨rfl, (List.append_nil events).symm⟩
  | cons c calls ih =>
    rw [List.map_cons] at hrun
    cases hrun with
    | @cons _ t _ left₁ _ _ traces hcomes hrest =>
      obtain ⟨h₁, s₁, events₁⟩ := left₁
      obtain ⟨hhandler, hevents⟩ := hcomes.recorded
      simp only at hhandler hevents
      subst hhandler hevents
      obtain ⟨hhandler', hevents'⟩ := ih hrest
      rw [List.flatMap_cons, List.length_append, runEvents, ← Nat.add_assoc, ← List.append_assoc]
      exact ⟨hhandler', hevents'⟩

end Recorded

/-- What a run of calls comes to: every call has the same bound and attempts counted from one, and
the handler is shown the errors of all attempts that failed, in order and each once. -/
structure Policy.Reused (w : RetryWorld κ ε σ) (p : Policy κ) (left : Handler κ × σ)
    (calls : List (PolicyCall β ε α σ)) (traces : List (CallTrace ε α)) (left' : Handler κ × σ) :
    Prop where
  run : p.Run w left calls traces left'
  performed : attemptAll (calls.map (PolicyCall.perform w)) (p.withHandler left.1, left.2) =
    (traces.map CallTrace.result, (p.withHandler left'.1, left'.2))
  watched : ∃ k,
    attemptAll (calls.map (PolicyCall.watch w)) (p.withHandler (.leaf left.1), .start left.2) =
      (traces.map CallTrace.result, (p.withHandler (.leaf left'.1),
        ⟨left'.2, k, runNotes p.maxAttempts.toNat calls traces⟩))
  attempts_le : ∀ t ∈ traces, t.attempts ≤ p.maxAttempts.toNat
  handled : (runNotes p.maxAttempts.toNat calls traces).filterMap RetryNote.handledError =
    traces.flatMap CallTrace.errors
  failures : (runNotes p.maxAttempts.toNat calls traces).filterMap RetryNote.failure =
    traces.flatMap CallTrace.errors

theorem Policy.Run.reused {w : RetryWorld κ ε σ} {p : Policy κ} {left left' : Handler κ × σ}
    {calls : List (PolicyCall β ε α σ)} {traces : List (CallTrace ε α)}
    (hrun : p.Run w left calls traces left') : p.Reused w left calls traces left' where
  run := hrun
  performed := hrun.performed
  watched := hrun.watched 0 []
  attempts_le := hrun.attempts_le
  handled := hrun.filterMap_notes _ CallTrace.handledErrors_notes _
  failures := hrun.filterMap_notes _ CallTrace.failures_notes _

/-- A policy is used again as it was used first, whatever its calls come to, and its handler goes on
where it was left: one that logs numbers the failures of all calls one after the other. -/
theorem policy_reusable (w : RetryWorld κ ε σ) (p : Policy κ) (calls : List (PolicyCall β ε α σ))
    (s : σ) :
    (∀ h : Handler κ, ∃ traces left', p.Reused w (h, s) calls traces left') ∧
    ∀ (operation : String) (failures : UInt32), ∃ traces m s',
      p.Reused w.recorded (.logging operation failures, s, []) (calls.map PolicyCall.onFst) traces
        (.logging operation m, s', runEvents operation p.maxAttempts failures.toNat traces) ∧
      (failures.toNat + (traces.flatMap CallTrace.errors).length < UInt32.size →
        m.toNat = failures.toNat + (traces.flatMap CallTrace.errors).length ∧
        (runEvents operation p.maxAttempts failures.toNat traces).filterMap RetryEvent.logged =
          (traces.flatMap CallTrace.errors).zipIdx (failures.toNat + 1)) := by
  refine ⟨fun h => ?_, fun operation failures => ?_⟩
  · obtain ⟨traces, left', hrun⟩ := Policy.exists_run w p calls (h, s)
    exact ⟨traces, left', hrun.reused⟩
  · obtain ⟨traces, ⟨h', s', events⟩, hrun⟩ := Policy.exists_run w.recorded p
      (calls.map PolicyCall.onFst) (.logging operation (.ofNat failures.toNat), s, [])
    obtain ⟨hhandler, hevents⟩ := hrun.recorded
    rw [UInt32.ofNat_toNat] at hrun
    simp only [List.nil_append] at hhandler hevents
    subst hhandler hevents
    exact ⟨traces, _, s', hrun.reused, fun hlt =>
      ⟨UInt32.toNat_ofNat_of_lt' hlt, logged_runEvents operation p.maxAttempts traces _ hlt⟩⟩

theorem policy_reusable_after_fault :
    let w : RetryWorld Empty String Nat := ⟨fun _ (k, _) => k.elim, fun _ s => s⟩
    let p : Policy Empty := ⟨2, .ignore, by decide⟩
    let calls : List (PolicyCall Nat String Nat Nat) := [.call fun s => .ok (.error "a") (s + 1),
      .call fun s => .error (.raised "down") s, .apply 7 fun i s => .ok (.error "b") (s + i)]
    ∃ traces m s',
      p.Reused w.recorded (.logging "load" 0, 0, []) (calls.map PolicyCall.onFst) traces
        (.logging "load" m, s', runEvents "load" 2 0 traces) ∧
      0 + (traces.flatMap CallTrace.errors).length < UInt32.size ∧ m.toNat = 4 ∧
      (runEvents "load" 2 0 traces).filterMap RetryEvent.logged =
        [("a", 1), ("a", 2), ("b", 3), ("b", 4)] := by
  intro w p calls
  obtain ⟨traces, m, s', hreused, hlogged⟩ := (policy_reusable w p calls 0).2 "load" 0
  obtain ⟨k, hwatched⟩ := hreused.watched
  have herrors : traces.flatMap CallTrace.errors = ["a", "a", "b", "b"] := by
    have hnotes := congrArg (fun x => x.2.2.notes.filterMap RetryNote.handledError) hwatched
    rw [hreused.handled] at hnotes
    rw [← hnotes]
    with_unfolding_all rfl
  rw [herrors] at hlogged
  obtain ⟨hcount, hlog⟩ := hlogged (by decide)
  exact ⟨traces, m, s', hreused, herrors ▸ by decide, hcount, hlog⟩

end Streamkit
