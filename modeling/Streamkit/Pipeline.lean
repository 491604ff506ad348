import Streamkit.Either.Projection
import Streamkit.Closure

/-!
# Pipelines of container methods

A pipeline takes a value through methods of `Maybe`, of `Either` and of its projections, one after
the other. `Method.run` performs one method: it either yields the next value or observes something
about the current one. Callbacks are reached through `Callbacks`, which is told the position of the
callback among the method's arguments, so that a pipeline can be run with any closures and with any
record of their calls; `Pipeline.run` runs a whole pipeline and keeps the calls of each step.
-/

namespace Streamkit

/-! ## Callbacks -/

/-- How the callbacks of a method are run. Functions are drawn from `φ`, predicates from `π`; the
number is the position among the arguments of the method, counted from 1. -/
structure Callbacks (φ π σ : Type) where
  /-- Applies a function to a value. -/
  apply : Nat → φ → Value → Act σ Value
  /-- Runs a function that takes no value. -/
  produce : Nat → φ → Act σ Value
  /-- Asks a predicate about a value. -/
  test : Nat → π → Value → Act σ Bool
  /-- Shows a value to the visitor. -/
  visit : Value → Act σ Unit
  /-- Words the message of a fault. -/
  word : Nat → String → Act σ String

/-- A callback that was run: its position among the arguments and what it was given. -/
structure Call where
  /-- The position among the arguments, from 1; 0 for a visitor. -/
  position : Nat
  /-- What the callback was given, if it takes a value. -/
  argument : Option Value

/-! ## Methods -/

/-- Methods that apply to any value. -/
inductive ValueMethod (π : Type) where
  | set (v : Value)
  | present
  | absent
  /-- A payload, refused if the predicate holds. -/
  | checked (missing : π)
  /-- A payload, or nothing if the predicate holds. -/
  | orNothing (missing : π)
  /-- A payload, or nothing for the unit. -/
  | ofOption
  | left
  | right
  | maybeDefault
  | eitherDefault
  | ofResult (result : Except Value Value)
  | display
  | debug

/-- Methods of a value that may be missing. -/
inductive MaybeMethod (φ π : Type) where
  | isPresent
  | isAbsent
  | any (p : π)
  | all (p : π)
  | toList
  | each
  | display
  | debug
  | eq (other : Value)
  | cmp (other : Value)
  | toResult (error : φ)
  | get
  | checkedGet
  | getD (default : Value)
  | getDWith (default : φ)
  | getOrRaise (message : String)
  | copy
  | map (f : φ)
  | bind (f : φ)
  | filter (p : π)
  | orElse (other : Value)
  | orElseWith (other : φ)
  | elim (onAbsent onPresent : φ)
  | toLeft (right : φ)
  | toRight (left : φ)
  | flatten

/-- Methods of a value on one of two sides. -/
inductive EitherMethod (φ π : Type) where
  | isLeft
  | isRight
  | any (p : π)
  | all (p : π)
  | side
  | each
  | toResult
  | toList
  | display
  | debug
  | eq (other : Value)
  | cmp (other : Value)
  | left?
  | right?
  | checkedLeft
  | checkedRight
  | getLeft
  | getRight
  | getD (default : Value)
  | getDWith (default : φ)
  | rightOrElse (f : φ)
  | leftOrElse (f : φ)
  | map (f : φ)
  | leftMap (f : φ)
  | bimap (f g : φ)
  | swap
  | filter (p : π)
  | checkedMapLeft (f : φ)
  | checkedMapRight (f : φ)
  | elim (f g : φ)
  | bind (f : φ)
  | orElse (f : φ)
  | flatten

/-- Methods of a one-sided view. -/
inductive ProjectionMethod (φ π : Type) where
  | isDefined
  | any (p : π)
  | all (p : π)
  | each
  | toList
  | debug
  | eq (other : Value)
  | get
  | checkedGet
  | getD (default : Value)
  | map (f : φ)
  | bind (f : φ)
  | filter (p : π)
  | toMaybe
  | whole

/-- One step of a pipeline. -/
inductive Method (φ π : Type) where
  | value (method : ValueMethod π)
  | maybe (method : MaybeMethod φ π)
  | either (method : EitherMethod φ π)
  | left (method : ProjectionMethod φ π)
  | right (method : ProjectionMethod φ π)

/-! ## Outcomes -/

/-- What a method tells about a value. -/
inductive Observation where
  | truth (b : Bool)
  | nothing
  | items (vs : List Value)
  | text (s : String)
  | order (o : Ordering)
  | result (r : Except Value Value)
  | side (e : Either Value Value)
  | refused (e : AccessError)

/-- How a method ends. -/
inductive Outcome where
  /-- With the next value. -/
  | next (v : Value)
  /-- With an observation; the value stays. -/
  | observed (o : Observation)

namespace Outcome

/-- The next value, a `Maybe`. -/
def maybe (v : Maybe Value) : Outcome := next (.ofMaybe v)

/-- The next value, an `Either`. -/
def either (v : Either Value Value) : Outcome := next (.ofEither v)

/-- The next value, an `Either` that may be missing. -/
def maybeEither (v : Maybe (Either Value Value)) : Outcome := maybe (v.map .ofEither)

/-- The next value, unless it was refused. -/
def checked : Except AccessError Value → Outcome
  | .ok v => next v
  | .error e => observed (.refused e)

/-- An observed truth value. -/
def truth (b : Bool) : Outcome := observed (.truth b)

end Outcome

/-! ## Running a method -/

section Run

variable {φ π σ : Type} (cb : Callbacks φ π σ)

/-- A function whose result is read as a `Maybe`. -/
def Callbacks.applyMaybe (position : Nat) (f : φ) (v : Value) : Act σ (Maybe Value) := do
  return (← cb.apply position f v).toMaybe

/-- A function whose result is read as an `Either`. -/
def Callbacks.applyEither (position : Nat) (f : φ) (v : Value) : Act σ (Either Value Value) := do
  return (← cb.apply position f v).toEither

/-- Performs a method of any value. -/
def ValueMethod.run (x : Value) : ValueMethod π → Act σ Outcome
  | set v => return .next v
  | present => return .maybe (.present x)
  | absent => return .maybe .absent
  | checked missing => do
    return .checked ((← Maybe.checkedM (cb.test 1 missing) x).map .ofMaybe)
  | orNothing missing => do return .maybe (← Maybe.unlessM (cb.test 1 missing) x)
  | ofOption => return .maybe (.ofOption (if x = .unit then none else some x))
  | left => return .either (.left x)
  | right => return .either (.right x)
  | maybeDefault => return .maybe .absent
  | eitherDefault => return .either (.right (.int 0))
  | ofResult result => return .either (.ofExcept result)
  | display => return .observed (.text x.display)
  | debug => return .observed (.text x.debug)

/-- Performs a method of a value that may be missing. -/
def MaybeMethod.run (x : Maybe Value) : MaybeMethod φ π → Act σ Outcome
  | isPresent => return .truth x.isPresent
  | isAbsent => return .truth x.isAbsent
  | any p => do return .truth (← x.anyM (cb.test 1 p))
  | all p => do return .truth (← x.allM (cb.test 1 p))
  | toList => return .observed (.items x.toList)
  | each => do
    x.eachM cb.visit
    return .observed .nothing
  | display => return .observed (.text (x.displayWith Value.display))
  | debug => return .observed (.text (x.debugWith Value.debug))
  | eq other => return .truth (x == other.toMaybe)
  | cmp other => return .observed (.order (x.compareBy Value.compare other.toMaybe))
  | toResult error => do return .observed (.result (← x.toExceptM (cb.produce 1 error)))
  | get => do return .next (← Act.ofExcept x.get)
  | checkedGet => return .checked x.checkedGet
  | getD default => return .next (x.getD default)
  | getDWith default => do return .next (← x.getDM (cb.produce 1 default))
  | getOrRaise message => do return .next (← x.getOrRaiseM (cb.word 1 message))
  | copy => return .maybe x
  | map f => do return .maybe (← x.mapM (cb.apply 1 f))
  | bind f => do return .maybe (← x.bindM (cb.applyMaybe 1 f))
  | filter p => do return .maybe (← x.filterM (cb.test 1 p))
  | orElse other => return .maybe (x.orElse other.toMaybe)
  | orElseWith other => do return .maybe (← x.orElseM (do return (← cb.produce 1 other).toMaybe))
  | elim onAbsent onPresent => do
    return .next (← x.elimM (cb.produce 1 onAbsent) (cb.apply 2 onPresent))
  | toLeft right => do return .either (← x.toLeftM (cb.produce 1 right))
  | toRight left => do return .either (← x.toRightM (cb.produce 1 left))
  | flatten => return .maybe (x.map Value.toMaybe).flatten

/-- Performs a method of a value on one of two sides. -/
def EitherMethod.run (x : Either Value Value) : EitherMethod φ π → Act σ Outcome
  | isLeft => return .truth x.isLeft
  | isRight => return .truth x.isRight
  | any p => do return .truth (← x.anyM (cb.test 1 p))
  | all p => do return .truth (← x.allM (cb.test 1 p))
  | side => return .observed (.side x)
  | each => do
    x.eachM cb.visit
    return .observed .nothing
  | toResult => return .observed (.result x.toExcept)
  | toList => return .observed (.items x.toList)
  | display => return .observed (.text (x.displayWith Value.display Value.display))
  | debug => return .observed (.text (x.debugWith Value.debug Value.debug))
  | eq other => return .truth (x == other.toEither)
  | cmp other =>
    return .observed (.order (x.compareBy Value.compare Value.compare other.toEither))
  | left? => return .maybe x.left?
  | right? => return .maybe x.right?
  | checkedLeft => return .checked x.checkedLeft
  | checkedRight => return .checked x.checkedRight
  | getLeft => do return .next (← Act.ofExcept x.getLeft)
  | getRight => do return .next (← Act.ofExcept x.getRight)
  | getD default => return .next (x.getD default)
  | getDWith default => do return .next (← x.getDM (cb.produce 1 default))
  | rightOrElse f => do return .next (← x.rightOrElseM (cb.apply 1 f))
  | leftOrElse f => do return .next (← x.leftOrElseM (cb.apply 1 f))
  | map f => do return .either (← x.mapM (cb.apply 1 f))
  | leftMap f => do return .either (← x.leftMapM (cb.apply 1 f))
  | bimap f g => do return .either (← x.bimapM (cb.apply 1 f) (cb.apply 2 g))
  | swap => return .either x.swap
  | filter p => do return .maybeEither (← x.filterM (cb.test 1 p))
  | checkedMapLeft f => do return .checked (← x.checkedMapLeftM (cb.apply 1 f))
  | checkedMapRight f => do return .checked (← x.checkedMapRightM (cb.apply 1 f))
  | elim f g => do return .next (← x.elimM (cb.apply 1 f) (cb.apply 2 g))
  | bind f => do return .either (← x.bindM (cb.applyEither 1 f))
  | orElse f => do return .either (← x.orElseM (cb.applyEither 1 f))
  | flatten => return .either (x.map Value.toEither).flatten

/-- Performs a method of a view of the left side. -/
def ProjectionMethod.runLeft (x : LeftProjection Value Value) :
    ProjectionMethod φ π → Act σ Outcome
  | isDefined => return .truth x.isDefined
  | any p => do return .truth (← x.anyM (cb.test 1 p))
  | all p => do return .truth (← x.allM (cb.test 1 p))
  | each => do
    x.eachM cb.visit
    return .observed .nothing
  | toList => return .observed (.items x.toList)
  | debug => return .observed (.text (x.debugWith Value.debug Value.debug))
  | eq other => return .truth (x == other.toEither.projectLeft)
  | get => do return .next (← Act.ofExcept x.get)
  | checkedGet => return .checked x.checkedGet
  | getD default => return .next (x.getD default)
  | map f => do return .either (← x.mapM (cb.apply 1 f))
  | bind f => do return .either (← x.bindM (cb.applyEither 1 f))
  | filter p => do return .maybeEither (← x.filterM (cb.test 1 p))
  | toMaybe => return .maybe x.toMaybe
  | whole => return .either x.either

/-- Performs a method of a view of the right side. -/
def ProjectionMethod.runRight (x : RightProjection Value Value) :
    ProjectionMethod φ π → Act σ Outcome
  | isDefined => return .truth x.isDefined
  | any p => do return .truth (← x.anyM (cb.test 1 p))
  | all p => do return .truth (← x.allM (cb.test 1 p))
  | each => do
    x.eachM cb.visit
    return .observed .nothing
  | toList => return .observed (.items x.toList)
  | debug => return .observed (.text (x.debugWith Value.debug Value.debug))
  | eq other => return .truth (x == other.toEither.projectRight)
  | get => do return .next (← Act.ofExcept x.get)
  | checkedGet => return .checked x.checkedGet
  | getD default => return .next (x.getD default)
  | map f => do return .either (← x.mapM (cb.apply 1 f))
  | bind f => do return .either (← x.bindM (cb.applyEither 1 f))
  | filter p => do return .maybeEither (← x.filterM (cb.test 1 p))
  | toMaybe => return .maybe x.toMaybe
  | whole => return .either x.either

/-- Performs one step on a value. -/
def Method.run (x : Value) : Method φ π → Act σ Outcome
  | value method => ValueMethod.run cb x method
  | maybe method => MaybeMethod.run cb x.toMaybe method
  | either method => EitherMethod.run cb x.toEither method
  | left method => ProjectionMethod.runLeft cb x.toEither.projectLeft method
  | right method => ProjectionMethod.runRight cb x.toEither.projectRight method

end Run

/-! ## Running a pipeline -/

namespace Pipeline

/-- How a step of a pipeline ended, and the calls made in it, in order. -/
structure Step where
  /-- How the step ended. -/
  result : Except Fault Outcome
  /-- The calls made by the step. -/
  calls : Array Call

/-- The value after a step: only a step that yields a value changes it. -/
def Step.after (x : Value) (s : Step) : Value :=
  match s.result with
  | .ok (.next v) => v
  | _ => x

section

variable {φ π τ : Type}

/-- Callbacks over a state of their own, each of which notes its call before it runs. -/
def recorded (apply : φ → Value → Act τ Value) (test : π → Value → Act τ Bool) :
    Callbacks φ π (Array Call × τ) where
  apply position f v := do
    Act.onFst (modify (·.push ⟨position, some v⟩))
    Act.onSnd (apply f v)
  produce position f := do
    Act.onFst (modify (·.push ⟨position, none⟩))
    Act.onSnd (apply f .unit)
  test position p v := do
    Act.onFst (modify (·.push ⟨position, some v⟩))
    Act.onSnd (test p v)
  visit v := Act.onFst (modify (·.push ⟨0, some v⟩))
  word position message := do
    Act.onFst (modify (·.push ⟨position, none⟩))
    return message

/-- One step of a pipeline from the callbacks' state `t`. -/
def step (cb : Callbacks φ π (Array Call × τ)) (x : Value) (method : Method φ π) (t : τ) :
    Step × τ :=
  let (result, calls, t') := (Method.run cb x method).attempt (#[], t)
  (⟨result, calls⟩, t')

/-- Takes a value through the methods and tells how each step ended. -/
def run (cb : Callbacks φ π (Array Call × τ)) : Value → List (Method φ π) → τ → List Step
  | _, [], _ => []
  | x, method :: methods, t =>
    let (s, t') := step cb x method t
    s :: run cb (s.after x) methods t'

end

/-- The callbacks of the closure language. -/
def closures : Callbacks Fn Pred (Array Call × Unit) :=
  recorded (fun f v => Act.ofExcept (f.eval v)) (fun p v => Act.ofExcept (p.eval v))

end Pipeline

end Streamkit
