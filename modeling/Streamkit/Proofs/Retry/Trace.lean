import Mathlib.Tactic.Common
import Streamkit.Retry.Policy

/-!
# What a call of a policy does

A call is watched by noting what happens in it: the calls of the operation with their outcomes, the
events of the policy and the calls of its handler (`Watched`). Watching changes nothing, and what it
notes is a round for each failed attempt, in order, and then the ending of the call, of which there
are four: `Policy.exists_ending`. Attempts are counted by natural numbers in the notes, so the
counter of the policy, which is a machine word, never starts over. Without any attempt there is no
policy and nothing happens: `call_traced`.
-/

namespace Streamkit

variable {κ ε σ α β : Type}

/-- What can be observed of a call. -/
inductive RetryNote (β ε α : Type) where
  /-- The operation was called, which had this outcome. -/
  | attempted (call : Nat) (input : β) (outcome : Except Fault (Except ε α))
  /-- The policy reported a failed attempt. -/
  | failed (attempt maxAttempts : Nat)
  /-- The handler was shown an error. -/
  | handled (e : ε)
  /-- The policy reported that the attempts are used up. -/
  | exhausted (attempts : Nat)

/-- A world in which a call is watched: the calls of its operation so far, and what was noted. -/
structure Watched (β ε α σ : Type) where
  world : σ
  calls : Nat
  /-- What was noted, in order. -/
  notes : List (RetryNote β ε α)

/-- What is noted of an event; the events of handlers are left to the handlers. -/
def RetryEvent.notes : RetryEvent ε → List (RetryNote β ε α)
  | attemptFailed attempt maxAttempts => [.failed attempt.toNat maxAttempts.toNat]
  | attemptsExhausted attempts => [.exhausted attempts.toNat]
  | failureLogged _ _ _ => []

namespace Watched

/-- Nothing was noted yet. -/
def start (s : σ) : Watched β ε α σ := ⟨s, 0, []⟩

/-- The operation, with its calls noted. -/
def attempt (op : β → Act σ (Except ε α)) (input : β) : Act (Watched β ε α σ) (Except ε α) :=
  fun v =>
    match op input v.world with
    | .ok o s => .ok o ⟨s, v.calls + 1, v.notes ++ [.attempted (v.calls + 1) input (.ok o)]⟩
    | .error f s =>
      .error f ⟨s, v.calls + 1, v.notes ++ [.attempted (v.calls + 1) input (.error f)]⟩

/-- The world of a policy with a handler of `w` as its only leaf, whose calls are noted. -/
def ofWorld (w : RetryWorld κ ε σ) : RetryWorld (Handler κ) ε (Watched β ε α σ) where
  observe e := fun (h, v) =>
    match h.onFailure w e v.world with
    | .ok () (h, s) => .ok () (h, { v with world := s, notes := v.notes ++ [.handled e] })
    | .error f (h, s) => .error f (h, { v with world := s, notes := v.notes ++ [.handled e] })
  emit e v := { v with world := w.emit e v.world, notes := v.notes ++ e.notes }

end Watched

/-- The notes on failed attempts, the first of which is attempt `attempt` of `n`. -/
def failedRounds (n : Nat) (input : β) : (attempt : Nat) → List ε → List (RetryNote β ε α)
  | _, [] => []
  | attempt, e :: errors =>
    .attempted attempt input (.ok (.error e)) :: .failed attempt n :: .handled e ::
      failedRounds n input (attempt + 1) errors

/-- How a call ends. -/
inductive RetryEnding (ε α : Type) where
  | succeeded (a : α)
  /-- All attempts have failed, the last one with this error. -/
  | exhausted (e : ε)
  | operationFault (f : Fault)
  /-- The handler gave up on this error. -/
  | handlerFault (e : ε) (f : Fault)

namespace RetryEnding

/-- What the caller is given. -/
def result : RetryEnding ε α → Except Fault (Except ε α)
  | succeeded a => .ok (.ok a)
  | exhausted e => .ok (.error e)
  | operationFault f | handlerFault _ f => .error f

/-- The calls of the operation, after those that have failed. -/
def calls : RetryEnding ε α → Nat
  | succeeded _ | operationFault _ => 1
  | exhausted _ | handlerFault _ _ => 0

/-- The notes on the ending, after those on the failed attempts. -/
def notes (n : Nat) (input : β) (attempt : Nat) : RetryEnding ε α → List (RetryNote β ε α)
  | succeeded a => [.attempted attempt input (.ok (.ok a))]
  | exhausted _ => [.exhausted n]
  | operationFault f => [.attempted attempt input (.error f)]
  | handlerFault _ _ => []

/-- When the ending comes, given the errors of the failed attempts among those up to `n`; a handler
that gives up leaves itself and the world as `left` says. -/
def Follows (w : RetryWorld κ ε σ) (n : Nat) (errors : List ε) (left : Handler κ × σ) :
    RetryEnding ε α → Prop
  | succeeded _ | operationFault _ => errors.length < n
  | exhausted e => errors.length = n ∧ errors.getLast? = some e
  | handlerFault e f => errors.length ≤ n ∧ errors.getLast? = some e ∧
      ∃ (h : Handler κ) (s : σ), h.onFailure w e s = .error f left

end RetryEnding

/-- What was noted of a call of `n` attempts at most, with the errors of those that have failed and
the ending. -/
def Watched.ofCall (n : Nat) (input : β) (errors : List ε) (ending : RetryEnding ε α) (s : σ) :
    Watched β ε α σ :=
  ⟨s, errors.length + ending.calls,
    failedRounds n input 1 errors ++ ending.notes n input (errors.length + 1)⟩

namespace RetryEnding

variable {w : RetryWorld κ ε σ} {n : Nat} {errors : List ε} {left : Handler κ × σ}

/-- One more failed attempt before the others. -/
theorem Follows.cons {ending : RetryEnding ε α} (h : ending.Follows w n errors left) (e : ε) :
    ending.Follows w (n + 1) (e :: errors) left := by
  have hlast : ∀ {e' : ε}, errors.getLast? = some e' → (e :: errors).getLast? = some e' :=
    fun h => by rw [List.getLast?_cons, h]; rfl
  cases ending with
  | succeeded a => exact Nat.add_lt_add_right h 1
  | operationFault f => exact Nat.add_lt_add_right h 1
  | exhausted e' => exact ⟨congrArg (· + 1) h.1, hlast h.2⟩
  | handlerFault e' f => exact ⟨Nat.add_le_add_right h.1 1, hlast h.2.1, h.2.2⟩

end RetryEnding

namespace Watched

variable {w : RetryWorld κ ε σ} {h h' : Handler κ} {e : ε} {s s' : σ} {calls : Nat}
  {notes : List (RetryNote β ε α)}

theorem emit_ofWorld (event : RetryEvent ε) : (ofWorld w).emit event ⟨s, calls, notes⟩ =
    ⟨w.emit event s, calls, notes ++ event.notes⟩ := rfl

theorem onFailure_ok (hrun : h.onFailure w e s = .ok () (h', s')) :
    (Handler.leaf h).onFailure (ofWorld w) e ⟨s, calls, notes⟩ =
      .ok () (.leaf h', ⟨s', calls, notes ++ [.handled e]⟩) := by
  simp only [Handler.onFailure, ofWorld, hrun]

theorem onFailure_error {f : Fault} (hrun : h.onFailure w e s = .error f (h', s')) :
    (Handler.leaf h).onFailure (ofWorld w) e ⟨s, calls, notes⟩ =
      .error f (.leaf h', ⟨s', calls, notes ++ [.handled e]⟩) := by
  simp only [Handler.onFailure, ofWorld, hrun]

end Watched

namespace Policy

variable {w : RetryWorld κ ε σ} {op : β → Act σ (Except ε α)} {input : β}

theorem toNat_succ_of_lt {attempt n : UInt32} (h : attempt < n) :
    (attempt + 1).toNat = attempt.toNat + 1 := by
  have hlt := UInt32.lt_iff_toNat_lt.1 h
  have hmax := n.toNat_lt
  rw [UInt32.toNat_add]
  exact Nat.mod_eq_of_lt (show attempt.toNat + 1 < 2 ^ 32 by omega)

/-- The watched attempts from `attempt` on end as the attempts do that are not watched. -/
theorem exists_ending_from (w : RetryWorld κ ε σ) (op : β → Act σ (Except ε α)) (input : β)
    (n attempt : UInt32) (h : Handler κ) (s : σ) :
    ∀ calls : Nat, attempt ≤ n → attempt.toNat = calls + 1 →
      ∃ (errors : List ε) (ending : RetryEnding ε α) (h' : Handler κ) (s' : σ),
        ending.Follows w (n.toNat - calls) errors (h', s') ∧
        attemptFrom w (op input) n attempt h s = Act.ofExcept ending.result (h', s') ∧
        ∀ notes : List (RetryNote β ε α),
          attemptFrom (Watched.ofWorld w) (Watched.attempt op input) n attempt (.leaf h)
            ⟨s, calls, notes⟩ =
          Act.ofExcept ending.result (.leaf h', ⟨s', calls + errors.length + ending.calls,
            notes ++ (failedRounds n.toNat input (calls + 1) errors ++
              ending.notes n.toNat input (calls + 1 + errors.length))⟩) := by
  fun_induction attemptFrom w (op input) n attempt h s with
  | case1 attempt h s f s' hop =>
    intro calls hle hcalls
    have hle := UInt32.le_iff_toNat_le.1 hle
    refine ⟨[], .operationFault f, h, s', show 0 < n.toNat - calls by omega, rfl, fun notes => ?_⟩
    rw [attemptFrom]
    simp only [Watched.attempt, hop]
    rfl
  | case2 attempt h s a s' hop =>
    intro calls hle hcalls
    have hle := UInt32.le_iff_toNat_le.1 hle
    refine ⟨[], .succeeded a, h, s', show 0 < n.toNat - calls by omega, rfl, fun notes => ?_⟩
    rw [attemptFrom]
    simp only [Watched.attempt, hop]
    rfl
  | case3 attempt h s e s' hop f h' s'' hhandler =>
    intro calls hle hcalls
    have hle := UInt32.le_iff_toNat_le.1 hle
    refine ⟨[e], .handlerFault e f, h', s'',
      ⟨show 1 ≤ n.toNat - calls by omega, rfl, h, _, hhandler⟩, rfl, fun notes => ?_⟩
    rw [attemptFrom]
    simp only [Watched.attempt, hop, Watched.emit_ofWorld, Watched.onFailure_error hhandler,
      RetryEvent.notes, hcalls, List.append_assoc]
    rfl
  | case4 attempt h s e s' hop h' s'' hhandler hlt ih =>
    intro calls hle hcalls
    have hsucc := toNat_succ_of_lt hlt
    have hmore := UInt32.lt_iff_toNat_lt.1 hlt
    obtain ⟨errors, ending, h₁, s₁, hends, hrun, hwatched⟩ :=
      ih (calls + 1) (UInt32.le_iff_toNat_le.2 (by omega)) (by omega)
    have hleft : n.toNat - calls = n.toNat - (calls + 1) + 1 := by omega
    have hcount : ∀ c, c + (e :: errors).length = c + 1 + errors.length := fun c => by
      rw [List.length_cons, Nat.add_right_comm, Nat.add_assoc]
    refine ⟨e :: errors, ending, h₁, s₁, hleft ▸ hends.cons e, hrun, fun notes => ?_⟩
    rw [attemptFrom, hcount, hcount]
    simp only [Watched.attempt, hop, Watched.emit_ofWorld, Watched.onFailure_ok hhandler,
      RetryEvent.notes, hcalls, List.append_assoc, if_pos hlt]
    have hrest := hwatched (notes ++ [.attempted (calls + 1) input (.ok (.error e)),
      .failed (calls + 1) n.toNat, .handled e])
    rw [List.append_assoc] at hrest
    exact hrest
  | case5 attempt h s e s' hop h' s'' hhandler hlt =>
    intro calls hle hcalls
    have hle := UInt32.le_iff_toNat_le.1 hle
    have hge : ¬ attempt.toNat < n.toNat := fun h => hlt (UInt32.lt_iff_toNat_lt.2 h)
    have hlast : n.toNat = calls + 1 := by omega
    refine ⟨[e], .exhausted e, h', _, ⟨show 1 = n.toNat - calls by omega, rfl⟩, rfl,
      fun notes => ?_⟩
    rw [attemptFrom]
    simp only [Watched.attempt, hop, Watched.emit_ofWorld, Watched.onFailure_ok hhandler,
      RetryEvent.notes, hcalls, hlast, List.append_assoc, if_neg hlt]
    rfl

/-- A call ends in one of four ways, watched or not, whatever was noted before. -/
theorem exists_ending_after (w : RetryWorld κ ε σ) (op : β → Act σ (Except ε α)) (input : β)
    (p : Policy κ) (h : Handler κ) (s : σ) :
    ∃ (errors : List ε) (ending : RetryEnding ε α) (h' : Handler κ) (s' : σ),
      ending.Follows w p.maxAttempts.toNat errors (h', s') ∧
      apply w input op (p.withHandler h, s) =
        Act.ofExcept ending.result (p.withHandler h', s') ∧
      ∀ notes : List (RetryNote β ε α),
        apply (Watched.ofWorld w) input (Watched.attempt op)
          (p.withHandler (.leaf h), ⟨s, 0, notes⟩) =
        Act.ofExcept ending.result (p.withHandler (.leaf h'), ⟨s', errors.length + ending.calls,
          notes ++ (failedRounds p.maxAttempts.toNat input 1 errors ++
            ending.notes p.maxAttempts.toNat input (errors.length + 1))⟩) := by
  have hpos := UInt32.lt_iff_toNat_lt.1 p.maxAttempts_pos
  obtain ⟨errors, ending, h', s', hends, hrun, hwatched⟩ :=
    exists_ending_from w op input p.maxAttempts 1 h s 0 (UInt32.le_iff_toNat_le.2 hpos) rfl
  refine ⟨errors, ending, h', s', hends, ?_, fun notes => ?_⟩
  · simp only [apply, call, withHandler, hrun]
    cases ending.result <;> rfl
  · simp only [apply, call, withHandler, hwatched, Nat.zero_add, Nat.add_comm 1]
    cases ending.result <;> rfl

/-- A call ends in one of four ways, watched or not. -/
theorem exists_ending (w : RetryWorld κ ε σ) (op : β → Act σ (Except ε α)) (input : β)
    (p : Policy κ) (h : Handler κ) (s : σ) :
    ∃ (errors : List ε) (ending : RetryEnding ε α) (h' : Handler κ) (s' : σ),
      ending.Follows w p.maxAttempts.toNat errors (h', s') ∧
      apply w input op (p.withHandler h, s) =
        Act.ofExcept ending.result (p.withHandler h', s') ∧
      apply (Watched.ofWorld w) input (Watched.attempt op) (p.withHandler (.leaf h), .start s) =
        Act.ofExcept ending.result
          (p.withHandler (.leaf h'), .ofCall p.maxAttempts.toNat input errors ending s') := by
  obtain ⟨errors, ending, h', s', hends, hrun, hwatched⟩ := exists_ending_after w op input p h s
  exact ⟨errors, ending, h', s', hends, hrun, hwatched []⟩

/-- A policy is made for the call and given up after it. -/
theorem retryWith_eq {p : Policy κ} {n : UInt32}
    (hp : (ofBound n : Except Fault (Policy κ)) = .ok p) {op : Act σ (Except ε α)}
    {h h' : Handler κ} {s s' : σ} {r : Except Fault (Except ε α)}
    (hcall : call w op (p.withHandler h, s) = Act.ofExcept r (p.withHandler h', s')) :
    retryWith w op n h s = Act.ofExcept r s' := by
  simp only [retryWith, hp, hcall]
  cases r <;> rfl

end Policy

open Policy in
/-- Without any attempt a policy is refused, and nothing is done. With at least one, a call makes
its attempts in order, reports and handles each that fails, and ends with the first that succeeds
or, once the last has been handled, with a report and the error of the last; a fault ends it at
once. -/
theorem call_traced (w : RetryWorld κ ε σ) (op : β → Act σ (Except ε α)) (n : UInt32) :
    (n = 0 → (checked n : Except PolicyError (Policy κ)) = .error .zeroAttempts ∧
      (ofBound n : Except Fault (Policy κ)) = .error .zeroAttempts ∧
      ∀ (input : β) (h : Handler κ) (s : σ),
        retry w (op input) n s = .error .zeroAttempts s ∧
        retryWith w (op input) n h s = .error .zeroAttempts s) ∧
    (n ≠ 0 → ∃ p : Policy κ, (checked n : Except PolicyError (Policy κ)) = .ok p ∧
      (ofBound n : Except Fault (Policy κ)) = .ok p ∧ p.maxAttempts = n ∧ p.handler = .ignore ∧
      ∀ (input : β) (h : Handler κ) (s : σ), ∃ errors ending h' s',
        ending.Follows w n.toNat errors (h', s') ∧
        -- what is noted of a call, …
        apply (Watched.ofWorld w) input (Watched.attempt op) (p.withHandler (.leaf h), .start s) =
          Act.ofExcept ending.result
            (p.withHandler (.leaf h'), .ofCall n.toNat input errors ending s') ∧
        retryWith (Watched.ofWorld w) (Watched.attempt op input) n (.leaf h) (.start s) =
          Act.ofExcept ending.result (.ofCall n.toNat input errors ending s') ∧
        -- … and what a call comes to that is not watched
        apply w input op (p.withHandler h, s) =
          Act.ofExcept ending.result (p.withHandler h', s') ∧
        call w (op input) (p.withHandler h, s) =
          Act.ofExcept ending.result (p.withHandler h', s') ∧
        retryWith w (op input) n h s = Act.ofExcept ending.result s' ∧
        (h = .ignore → retry w (op input) n s = Act.ofExcept ending.result s')) := by
  refine ⟨?_, fun hn => ?_⟩
  · rintro rfl
    exact ⟨rfl, rfl, fun input h s => ⟨rfl, rfl⟩⟩
  · have hpos : 0 < n := UInt32.pos_iff_ne_zero.2 hn
    have hchecked : ∀ {κ : Type}, (checked n : Except PolicyError (Policy κ)) =
        .ok ⟨n, .ignore, hpos⟩ := dif_pos hpos
    have hbound : ∀ {κ : Type}, (ofBound n : Except Fault (Policy κ)) =
        .ok ⟨n, .ignore, hpos⟩ := congrArg (Except.mapError PolicyError.toFault) hchecked
    refine ⟨⟨n, .ignore, hpos⟩, hchecked, hbound, rfl, rfl, fun input h s => ?_⟩
    obtain ⟨errors, ending, h', s', hends, hrun, hwatched⟩ :=
      exists_ending w op input ⟨n, .ignore, hpos⟩ h s
    refine ⟨errors, ending, h', s', hends, hwatched, retryWith_eq hbound hwatched, hrun, hrun,
      retryWith_eq hbound hrun, ?_⟩
    rintro rfl
    exact retryWith_eq hbound hrun

theorem call_traced_of_third :
    let w : RetryWorld Empty String Nat := ⟨fun _ (k, _) => k.elim, fun _ s => s⟩
    let op : Unit → Act Nat (Except String Nat) := fun _ calls =>
      .ok (if calls < 2 then .error "down" else .ok calls) (calls + 1)
    (0 : UInt32) = 0 ∧ Policy.retry w (op ()) 0 5 = .error .zeroAttempts 5 ∧
    (3 : UInt32) ≠ 0 ∧ ∃ errors ending h' s', ending.Follows w 3 errors (h', s') ∧
      Policy.retryWith (Watched.ofWorld w) (Watched.attempt op ()) 3 (.leaf .ignore) (.start 0) =
        Act.ofExcept ending.result (.ofCall 3 () errors ending s') ∧
      ending = .succeeded 2 ∧ s' = 3 := by
  intro w op
  obtain ⟨-, -, hzero⟩ := (call_traced w op 0).1 rfl
  obtain ⟨p, -, -, -, -, hcalls⟩ := (call_traced w op 3).2 (by decide)
  obtain ⟨errors, ending, h', s', hends, -, hwatched, -⟩ := hcalls () .ignore 0
  have hrun : Policy.retryWith (Watched.ofWorld w) (Watched.attempt op ()) 3 (.leaf .ignore)
      (.start 0) = .ok (.ok 2) (.ofCall 3 () ["down", "down"] (.succeeded 2) 3) := by
    simp [Policy.retryWith, Policy.ofBound, Policy.checked, Except.mapError, Policy.call,
      Policy.withHandler, Policy.attemptFrom, Watched.attempt, Watched.start, Watched.ofWorld,
      Handler.onFailure, RetryEvent.notes, Watched.ofCall, failedRounds, RetryEnding.calls,
      RetryEnding.notes, op, w]
  refine ⟨rfl, (hzero () .ignore 5).1, by decide, errors, ending, h', s', hends, hwatched, ?_⟩
  rw [hrun] at hwatched
  cases ending with
  | succeeded a =>
    injection hwatched with ha hleft
    injection ha with ha
    injection hleft with hs
    exact ⟨ha ▸ rfl, hs.symm⟩
  | exhausted e => injection hwatched with he; injection he
  | operationFault f => injection hwatched
  | handlerFault e f => injection hwatched

end Streamkit
