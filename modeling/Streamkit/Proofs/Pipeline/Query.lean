import Streamkit.Pipeline

/-!
# What a method asks its callbacks

A `Query` is a callback with what it is given. `Method.query` tells the query of a method on a
value: the callback for the variant that the value has, given the payload if it takes one, and no
query where the method has no callback for that variant. `Method.accessFault` tells the fault of an
accessor that finds no payload. Running a method is running its query, if there is one, and then
finishing without callbacks: `Method.asks_run`.
-/

namespace Streamkit

variable {φ π σ α β : Type}

/-! ## Queries -/

/-- A callback to run, with what it is given. -/
inductive Query (φ π : Type) where
  | apply (position : Nat) (f : φ) (v : Value)
  | produce (position : Nat) (f : φ)
  | test (position : Nat) (p : π) (v : Value)
  | visit (v : Value)
  | word (position : Nat) (message : String)

namespace Query

/-- What the callback answers with. -/
def Answer : Query φ π → Type
  | apply .. | produce .. => Value
  | test .. => Bool
  | visit .. => Unit
  | word .. => String

/-- The call that running the callback counts as. -/
def call : Query φ π → Call
  | apply position _ v | test position _ v => ⟨position, some v⟩
  | produce position _ | word position _ => ⟨position, none⟩
  | visit v => ⟨0, some v⟩

/-- Runs the callback. -/
def run (cb : Callbacks φ π σ) : (q : Query φ π) → Act σ q.Answer
  | apply position f v => cb.apply position f v
  | produce position f => cb.produce position f
  | test position p v => cb.test position p v
  | visit v => cb.visit v
  | word position message => cb.word position message

/-- The fault that is raised once the callback has answered: only the wording of a message is asked
for in order to raise it. -/
def fault : (q : Query φ π) → q.Answer → Option Fault
  | word .., message => some (.raised message)
  | apply .., _ | produce .., _ | test .., _ | visit .., _ => none

end Query

/-- The fault that a result is. -/
def Fault.of? : Except Fault α → Option Fault
  | .ok _ => none
  | .error e => some e

/-! ## Computations that ask at most once -/

/-- The computation runs the query, if there is one, and then finishes without callbacks. It
finishes with a fault as the query says, and without a query with the fault that is given. -/
def Asks (cb : Callbacks φ π σ) (x : Act σ α) (fault? : Option Fault) : Option (Query φ π) → Prop
  | none => ∃ r : Except Fault α, Fault.of? r = fault? ∧ x = Act.ofExcept r
  | some q => ∃ finish : q.Answer → Except Fault α, (∀ a, Fault.of? (finish a) = q.fault a) ∧
      x = do Act.ofExcept (finish (← q.run cb))

section Rules

variable {cb : Callbacks φ π σ} {x : Act σ α} {fault? : Option Fault} {q? : Option (Query φ π)}

theorem asks_pure (a : α) : Asks cb (pure a) none none := ⟨.ok a, rfl, rfl⟩

theorem asks_throw (e : Fault) : Asks cb (throw e : Act σ α) (some e) none := ⟨.error e, rfl, rfl⟩

theorem asks_apply (position : Nat) (f : φ) (v : Value) :
    Asks cb (cb.apply position f v) fault? (some (.apply position f v)) :=
  ⟨.ok, fun _ => rfl, (bind_pure _).symm⟩

theorem asks_produce (position : Nat) (f : φ) :
    Asks cb (cb.produce position f) fault? (some (.produce position f)) :=
  ⟨.ok, fun _ => rfl, (bind_pure _).symm⟩

theorem asks_test (position : Nat) (p : π) (v : Value) :
    Asks cb (cb.test position p v) fault? (some (.test position p v)) :=
  ⟨.ok, fun _ => rfl, (bind_pure _).symm⟩

theorem asks_visit (v : Value) : Asks cb (cb.visit v) fault? (some (.visit v)) :=
  ⟨.ok, fun _ => rfl, (bind_pure _).symm⟩

theorem asks_word (position : Nat) (message : String) :
    Asks cb (do throw (Fault.raised (← cb.word position message)) : Act σ α) fault?
      (some (.word position message)) :=
  ⟨fun text => .error (.raised text), fun _ => rfl, rfl⟩

theorem Fault.of?_map (r : Except Fault α) (f : α → β) : of? (r.map f) = of? r := by
  cases r <;> rfl

theorem Act.ofExcept_map (r : Except Fault α) (f : α → β) :
    (ofExcept (r.map f) : Act σ β) = do return f (← ofExcept r) := by
  cases r <;> rfl

theorem Asks.map (h : Asks cb x fault? q?) (f : α → β) :
    Asks cb (do return f (← x)) fault? q? := by
  cases q? with
  | none =>
    obtain ⟨r, hr, rfl⟩ := h
    exact ⟨r.map f, (Fault.of?_map r f).trans hr, (Act.ofExcept_map r f).symm⟩
  | some q =>
    obtain ⟨finish, hfinish, rfl⟩ := h
    refine ⟨fun a => (finish a).map f, fun a => (Fault.of?_map _ f).trans (hfinish a), ?_⟩
    simp only [bind_assoc, Act.ofExcept_map]

/-- A choice by the answer is a map. -/
theorem Asks.cond {x : Act σ Bool} (h : Asks cb x fault? q?) (a b : α) :
    Asks cb (do if ← x then return a else return b) fault? q? := by
  have heq : (do if ← x then return a else return b : Act σ α) =
      do return if ← x then a else b :=
    bind_congr fun passes => by cases passes <;> rfl
  exact heq ▸ h.map _

end Rules

/-! ## The query of a method -/

/-- Of the methods that apply to any value, two have a predicate, which they always ask. -/
def ValueMethod.query (x : Value) : ValueMethod π → Option (Query φ π)
  | checked missing | orNothing missing => some (.test 1 missing x)
  | _ => none

/-- Functions, predicates and the visitor are for a payload; what makes up for a payload is for its
absence. -/
def MaybeMethod.query (x : Maybe Value) : MaybeMethod φ π → Option (Query φ π)
  | any p | all p | filter p => x.toOption.map (.test 1 p)
  | map f | bind f => x.toOption.map (.apply 1 f)
  | each => x.toOption.map .visit
  | toResult f | getDWith f | orElseWith f | toLeft f | toRight f =>
    if x.isAbsent then some (.produce 1 f) else none
  | getOrRaise message => if x.isAbsent then some (.word 1 message) else none
  | elim onAbsent onPresent => match x with
    | .absent => some (.produce 1 onAbsent)
    | .present v => some (.apply 2 onPresent v)
  | _ => none

/-- The plain callbacks are for a right payload; those that make up for one, and those that are
named for the left, are for a left payload. -/
def EitherMethod.query (x : Either Value Value) : EitherMethod φ π → Option (Query φ π)
  | any p | all p | filter p => x.right?.toOption.map (.test 1 p)
  | map f | bind f | checkedMapRight f | leftOrElse f => x.right?.toOption.map (.apply 1 f)
  | each => x.right?.toOption.map .visit
  | leftMap f | orElse f | checkedMapLeft f | rightOrElse f => x.left?.toOption.map (.apply 1 f)
  | getDWith f => if x.isLeft then some (.produce 1 f) else none
  | bimap f g | elim f g => match x with
    | .left v => some (.apply 1 f v)
    | .right v => some (.apply 2 g v)
  | _ => none

/-- The callbacks of a view are for the payload on its side. -/
def ProjectionMethod.query (payload : Maybe Value) : ProjectionMethod φ π → Option (Query φ π)
  | any p | all p | filter p => payload.toOption.map (.test 1 p)
  | map f | bind f => payload.toOption.map (.apply 1 f)
  | each => payload.toOption.map .visit
  | _ => none

/-- The callback that a method is to run on a value. -/
def Method.query (x : Value) : Method φ π → Option (Query φ π)
  | value method => method.query x
  | maybe method => method.query x.toMaybe
  | either method => method.query x.toEither
  | left method => method.query x.toEither.left?
  | right method => method.query x.toEither.right?

/-! ## The fault of an accessor -/

/-- Of the accessors of a maybe, one gives up. -/
def MaybeMethod.accessFault (x : Maybe Value) : MaybeMethod φ π → Option Fault
  | get => if x.isAbsent then some .absentPayload else none
  | _ => none

def EitherMethod.accessFault (x : Either Value Value) : EitherMethod φ π → Option Fault
  | getLeft => if x.isRight then some (.otherSide .left) else none
  | getRight => if x.isLeft then some (.otherSide .right) else none
  | _ => none

def ProjectionMethod.accessFault (side : Side) (payload : Maybe Value) :
    ProjectionMethod φ π → Option Fault
  | get => if payload.isAbsent then some (.projectionOtherSide side) else none
  | _ => none

/-- The fault of a method that is an accessor, on a value without the payload that it is for. -/
def Method.accessFault (x : Value) : Method φ π → Option Fault
  | value _ => none
  | maybe method => method.accessFault x.toMaybe
  | either method => method.accessFault x.toEither
  | left method => method.accessFault .left x.toEither.left?
  | right method => method.accessFault .right x.toEither.right?

/-! ## Methods ask their queries -/

section Methods

variable (cb : Callbacks φ π σ)

theorem ValueMethod.asks_run (x : Value) (method : ValueMethod π) :
    Asks cb (ValueMethod.run cb x method) none (method.query x) := by
  cases method with
  | checked missing => exact ((asks_test 1 missing x).cond _ _).map _
  | orNothing missing => exact ((asks_test 1 missing x).cond _ _).map _
  | _ => exact asks_pure _

theorem MaybeMethod.asks_run (x : Maybe Value) (method : MaybeMethod φ π) :
    Asks cb (MaybeMethod.run cb x method) (method.accessFault x) (method.query x) := by
  cases x with
  | absent =>
    cases method with
    | get => exact asks_throw _
    | getDWith default => exact (asks_produce 1 default).map _
    | getOrRaise message => exact (asks_word 1 message).map _
    | orElseWith other => exact ((asks_produce 1 other).map _).map _
    | elim onAbsent onPresent => exact (asks_produce 1 onAbsent).map _
    | toResult error => exact ((asks_produce 1 error).map _).map _
    | toLeft right => exact ((asks_produce 1 right).map _).map _
    | toRight left => exact ((asks_produce 1 left).map _).map _
    | _ => exact asks_pure _
  | present v =>
    cases method with
    | any p => exact (asks_test 1 p v).map _
    | all p => exact (asks_test 1 p v).map _
    | each => exact (asks_visit v).map _
    | map f => exact ((asks_apply 1 f v).map _).map _
    | bind f => exact ((asks_apply 1 f v).map _).map _
    | filter p => exact ((asks_test 1 p v).cond _ _).map _
    | elim onAbsent onPresent => exact (asks_apply 2 onPresent v).map _
    | _ => exact asks_pure _

theorem EitherMethod.asks_run (x : Either Value Value) (method : EitherMethod φ π) :
    Asks cb (EitherMethod.run cb x method) (method.accessFault x) (method.query x) := by
  cases x with
  | left v =>
    cases method with
    | getRight => exact asks_throw _
    | getDWith default => exact (asks_produce 1 default).map _
    | rightOrElse f => exact (asks_apply 1 f v).map _
    | leftMap f => exact ((asks_apply 1 f v).map _).map _
    | bimap f g => exact ((asks_apply 1 f v).map _).map _
    | checkedMapLeft f => exact ((asks_apply 1 f v).map _).map _
    | elim f g => exact (asks_apply 1 f v).map _
    | orElse f => exact ((asks_apply 1 f v).map _).map _
    | _ => exact asks_pure _
  | right v =>
    cases method with
    | getLeft => exact asks_throw _
    | any p => exact (asks_test 1 p v).map _
    | all p => exact (asks_test 1 p v).map _
    | each => exact (asks_visit v).map _
    | leftOrElse f => exact (asks_apply 1 f v).map _
    | map f => exact ((asks_apply 1 f v).map _).map _
    | bimap f g => exact ((asks_apply 2 g v).map _).map _
    | filter p => exact ((asks_test 1 p v).cond _ _).map _
    | checkedMapRight f => exact ((asks_apply 1 f v).map _).map _
    | elim f g => exact (asks_apply 2 g v).map _
    | bind f => exact ((asks_apply 1 f v).map _).map _
    | _ => exact asks_pure _

theorem ProjectionMethod.asks_runLeft (x : Either Value Value) (method : ProjectionMethod φ π) :
    Asks cb (ProjectionMethod.runLeft cb x.projectLeft method) (method.accessFault .left x.left?)
      (method.query x.left?) := by
  cases x with
  | left v =>
    cases method with
    | any p => exact (asks_test 1 p v).map _
    | all p => exact (asks_test 1 p v).map _
    | each => exact (asks_visit v).map _
    | map f => exact ((asks_apply 1 f v).map _).map _
    | bind f => exact ((asks_apply 1 f v).map _).map _
    | filter p => exact ((asks_test 1 p v).cond _ _).map _
    | _ => exact asks_pure _
  | right v =>
    cases method with
    | get => exact asks_throw _
    | _ => exact asks_pure _

theorem ProjectionMethod.asks_runRight (x : Either Value Value) (method : ProjectionMethod φ π) :
    Asks cb (ProjectionMethod.runRight cb x.projectRight method)
      (method.accessFault .right x.right?) (method.query x.right?) := by
  cases x with
  | left v =>
    cases method with
    | get => exact asks_throw _
    | _ => exact asks_pure _
  | right v =>
    cases method with
    | any p => exact (asks_test 1 p v).map _
    | all p => exact (asks_test 1 p v).map _
    | each => exact (asks_visit v).map _
    | map f => exact ((asks_apply 1 f v).map _).map _
    | bind f => exact ((asks_apply 1 f v).map _).map _
    | filter p => exact ((asks_test 1 p v).cond _ _).map _
    | _ => exact asks_pure _

/-- A method runs the callback that it is to run on the value, and no other. -/
theorem Method.asks_run (x : Value) (method : Method φ π) :
    Asks cb (Method.run cb x method) (method.accessFault x) (method.query x) := by
  cases method with
  | value method => exact method.asks_run cb x
  | maybe method => exact method.asks_run cb x.toMaybe
  | either method => exact method.asks_run cb x.toEither
  | left method => exact method.asks_runLeft cb x.toEither
  | right method => exact method.asks_runRight cb x.toEither

end Methods

end Streamkit
