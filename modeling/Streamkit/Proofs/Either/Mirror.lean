import Streamkit.Either.Projection

/-!
# The sides of a value mirror each other

What is done to the left side of a value is what is done to the right side of the value with its
sides exchanged, up to exchanging the sides of the result: `mirrored_swap`. The callbacks run in any
lawful monad, so that the two agree in what they run, on which payload and in which order, and in
whether and how they give up. A fault or an error names the accessor that was used; apart from this
the two have the same.
-/

namespace Streamkit

variable {α β : Type}

/-- The fault of the accessor of the other side. -/
def Fault.mirror : Fault → Fault
  | otherSide side => otherSide side.other
  | projectionOtherSide side => projectionOtherSide side.other
  | fault => fault

/-- The outcome of a checked access, of an error only its kind. -/
def AccessError.outcome {γ : Type} : Except AccessError γ → Except String γ := Except.mapError kind

/-- What the left-hand operations do to the value, the right-hand ones do to its mirror image. -/
structure Either.Mirrored (m : Type → Type) [Monad m] (e : Either α β) (e' : Either β α) :
    Prop where
  leftMapM {γ : Type} (f : α → m γ) : e.leftMapM f = swap <$> e'.mapM f
  orElseM {γ : Type} (f : α → m (Either γ β)) :
    e.orElseM f = swap <$> e'.bindM fun a => swap <$> f a
  leftOrElseM (f : β → m α) : e.leftOrElseM f = e'.rightOrElseM f
  left? : e.left? = e'.right?
  checkedLeft : AccessError.outcome e.checkedLeft = AccessError.outcome e'.checkedRight
  getLeft : e.getLeft = e'.getRight.mapError Fault.mirror
  checkedMapLeftM {γ : Type} (f : α → m γ) :
    AccessError.outcome <$> e.checkedMapLeftM f = AccessError.outcome <$> e'.checkedMapRightM f
  bimapM {γ δ : Type} (f : α → m γ) (g : β → m δ) : e.bimapM f g = swap <$> e'.bimapM g f

/-- What the left view does, the right view of the mirror image does. -/
structure LeftProjection.Mirrored (m : Type → Type) [Monad m] (v : LeftProjection α β)
    (v' : RightProjection β α) : Prop where
  isDefined : v.isDefined = v'.isDefined
  get : v.get = v'.get.mapError Fault.mirror
  checkedGet : AccessError.outcome v.checkedGet = AccessError.outcome v'.checkedGet
  getD (default : α) : v.getD default = v'.getD default
  anyM (p : α → m Bool) : v.anyM p = v'.anyM p
  allM (p : α → m Bool) : v.allM p = v'.allM p
  eachM (visit : α → m Unit) : v.eachM visit = v'.eachM visit
  mapM {γ : Type} (f : α → m γ) : v.mapM f = Either.swap <$> v'.mapM f
  bindM {γ : Type} (f : α → m (Either γ β)) :
    v.bindM f = Either.swap <$> v'.bindM fun a => Either.swap <$> f a
  filterM (p : α → m Bool) : v.filterM p = Maybe.map Either.swap <$> v'.filterM p
  toMaybe : v.toMaybe = v'.toMaybe
  toList : v.toList = v'.toList
  /-- A right view is traversed as the value that it is of. -/
  toList_either : v.toList = v'.either.toList
  either : v.either = v'.either.swap

section Lawful

variable {m : Type → Type} [Monad m] [LawfulMonad m]

namespace Either

@[simp] theorem swap_left (a : α) : swap (left a : Either α β) = right a := rfl

@[simp] theorem swap_right (b : β) : swap (right b : Either α β) = left b := rfl

theorem mirrored (e : Either α β) : e.Mirrored m e.swap where
  leftMapM f := by cases e <;> simp [leftMapM, mapM]
  orElseM f := by cases e <;> simp [orElseM, bindM]
  leftOrElseM f := by cases e <;> rfl
  left? := by cases e <;> rfl
  checkedLeft := by cases e <;> rfl
  getLeft := by cases e <;> rfl
  checkedMapLeftM f := by
    cases e with
    | left a => rfl
    | right b =>
      -- the two errors name different operations
      simp only [swap_right, checkedMapLeftM, checkedMapRightM, map_pure]
      rfl
  bimapM f g := by cases e <;> simp [bimapM]

end Either

theorem LeftProjection.mirrored (e : Either α β) :
    e.projectLeft.Mirrored m e.swap.projectRight where
  isDefined := by cases e <;> rfl
  get := by cases e <;> rfl
  checkedGet := by cases e <;> rfl
  getD default := by cases e <;> rfl
  anyM p := by cases e <;> rfl
  allM p := by cases e <;> rfl
  eachM visit := by cases e <;> rfl
  -- these two pass to the whole value
  mapM f := e.mirrored.leftMapM f
  bindM f := e.mirrored.orElseM f
  filterM p := by
    have hall : e.projectLeft.allM p = e.swap.projectRight.allM p := by cases e <;> rfl
    rw [filterM, RightProjection.filterM, map_bind, hall]
    refine bind_congr fun passes => ?_
    cases passes <;> simp [Maybe.map, Either.projectLeft, Either.projectRight]
  toMaybe := by cases e <;> rfl
  toList := by cases e <;> rfl
  toList_either := by cases e <;> rfl
  either := e.swap_swap.symm

/-- Every left-hand operation agrees with the right-hand one on the mirror image. -/
theorem mirrored_swap (e : Either α β) :
    e.Mirrored m e.swap ∧ e.projectLeft.Mirrored m e.swap.projectRight :=
  ⟨e.mirrored, LeftProjection.mirrored e⟩

/-- A callback that notes its argument and gives up on zero. -/
theorem mirrored_swap_of_raising :
    let f : Nat → Act (List Nat) Nat := fun a log =>
      if a = 0 then .error (.raised "zero") (log ++ [a]) else .ok (a - 1) (log ++ [a])
    LawfulMonad (Act (List Nat)) ∧
      (.left 0 : Either Nat Nat).leftMapM f [] = .error (.raised "zero") [0] ∧
      (.left 0 : Either Nat Nat).leftMapM f [] =
        (Either.swap <$> (.right 0 : Either Nat Nat).mapM f) [] :=
  ⟨inferInstance, rfl, congrFun ((mirrored_swap (.left 0 : Either Nat Nat)).1.leftMapM _) []⟩

end Lawful

end Streamkit
