import Streamkit.Either.Projection
import Streamkit.Proofs.Either.Chaining

/-!
# Views of a side answer as maybes

A maybe, the view of either side of a value and, for its right side, the value itself have a
`Vocabulary` in common, and give the same answers by the same callbacks. What is done to the payload
through a view is done to the maybe of its side, and a payload on the other side stays as it is
(`View.AnswersAs`). Only filtering tells the view of the right side from the value: the view keeps
what is on the left and the value drops it. `views_answer_as_maybes`.
-/

namespace Streamkit

variable {α β γ δ : Type} {c : Type → Type} {m : Type → Type} [Monad m]

/-! ## Vocabularies -/

/-- What can be asked of anything with at most one payload. -/
structure Vocabulary (m : Type → Type) (γ : Type) where
  isDefined : Bool
  anyM : (γ → m Bool) → m Bool
  allM : (γ → m Bool) → m Bool
  eachM : (γ → m Unit) → m Unit
  getD : γ → γ
  toList : List γ

/-- The operations of the view of one side of a container. -/
structure View (m : Type → Type) (c : Type → Type) (γ : Type) extends Vocabulary m γ where
  /-- The container that is viewed. -/
  whole : c γ
  get : Except Fault γ
  checkedGet : Except AccessError γ
  mapM : {γ' : Type} → (γ → m γ') → m (c γ')
  bindM : {γ' : Type} → (γ → m (c γ')) → m (c γ')
  filterM : (γ → m Bool) → m (Maybe (c γ))

/-- One side of the containers `c`, which may hold a `δ` on the other side instead. -/
structure SideOf (c : Type → Type) (δ : Type) where
  here : {γ : Type} → γ → c γ
  there : {γ : Type} → δ → c γ
  /-- The payload on this side. -/
  payload : {γ : Type} → c γ → Maybe γ
  payload_here {γ : Type} (a : γ) : payload (here a) = .present a
  payload_there {γ : Type} (d : δ) : payload (there d : c γ) = .absent

/-- The left side, with the payload that the view of it gives. -/
def Either.leftSide : SideOf (Either · β) β where
  here := left
  there := right
  payload e := e.projectLeft.toMaybe
  payload_here _ := rfl
  payload_there _ := rfl

/-- The right side, with the payload that the view of it gives. -/
def Either.rightSide : SideOf (Either α) α where
  here := right
  there := left
  payload e := e.projectRight.toMaybe
  payload_here _ := rfl
  payload_there _ := rfl

section

variable (m)

/-- What a maybe answers. -/
def Maybe.vocabulary (x : Maybe γ) : Vocabulary m γ where
  isDefined := x.isPresent
  anyM p := x.anyM p
  allM p := x.allM p
  eachM visit := x.eachM visit
  getD default := x.getD default
  toList := x.toList

/-- What a value answers, which is asked for its right payload. -/
def Either.vocabulary (e : Either α β) : Vocabulary m β where
  isDefined := e.isRight
  anyM p := e.anyM p
  allM p := e.allM p
  eachM visit := e.eachM visit
  getD default := e.getD default
  toList := e.toList

/-- The view of the left side, by its operations. -/
def LeftProjection.view (v : LeftProjection α β) : View m (Either · β) α where
  isDefined := v.isDefined
  anyM p := v.anyM p
  allM p := v.allM p
  eachM visit := v.eachM visit
  getD default := v.getD default
  toList := v.toList
  whole := v.either
  get := v.get
  checkedGet := v.checkedGet
  mapM f := v.mapM f
  bindM f := v.bindM f
  filterM p := v.filterM p

/-- The view of the right side, by its operations. -/
def RightProjection.view (v : RightProjection α β) : View m (Either α) β where
  isDefined := v.isDefined
  anyM p := v.anyM p
  allM p := v.allM p
  eachM visit := v.eachM visit
  getD default := v.getD default
  toList := v.toList
  whole := v.either
  get := v.get
  checkedGet := v.checkedGet
  mapM f := v.mapM f
  bindM f := v.bindM f
  filterM p := v.filterM p

end

/-- The side has a payload, which the view reaches. -/
structure View.Reaches (side : SideOf c δ) (v : View m c γ) (a : γ) : Prop where
  whole : v.whole = side.here a
  get : v.get = .ok a
  checkedGet : v.checkedGet = .ok a
  mapM {γ' : Type} (f : γ → m γ') : v.mapM f = side.here <$> f a
  bindM {γ' : Type} (f : γ → m (c γ')) : v.bindM f = f a

/-- The other side has the payload, which stays there; no function is run. -/
structure View.PassesBy (side : SideOf c δ) (v : View m c γ) (d : δ) : Prop where
  whole : v.whole = side.there d
  get : ∃ fault, v.get = .error fault
  checkedGet : ∃ refusal, v.checkedGet = .error refusal
  mapM {γ' : Type} (f : γ → m γ') : v.mapM f = pure (side.there d)
  bindM {γ' : Type} (f : γ → m (c γ')) : v.bindM f = pure (side.there d)

/-- The view of a side answers as the maybe `x`. -/
structure View.AnswersAs (side : SideOf c δ) (v : View m c γ) (x : Maybe γ) : Prop where
  vocabulary : v.toVocabulary = x.vocabulary m
  present (a : γ) : x = .present a → v.Reaches side a
  absent : x = .absent → ∃ d, v.PassesBy side d
  get_fails : (∃ fault, v.get = .error fault) ↔ x = .absent
  checkedGet_fails : (∃ refusal, v.checkedGet = .error refusal) ↔ x = .absent
  mapM {γ' : Type} (f : γ → m γ') : side.payload <$> v.mapM f = x.mapM f
  bindM {γ' : Type} (f : γ → m (c γ')) :
    side.payload <$> v.bindM f = x.bindM fun a => side.payload <$> f a
  filterM (p : γ → m Bool) : v.filterM p = Maybe.ofTest v.whole <$> x.allM p

section Lawful

variable [LawfulMonad m]

theorem Maybe.map_ofTest (a : α) (test : m Bool) :
    ofTest a <$> test = do if ← test then return present a else return absent := by
  rw [map_eq_pure_bind]
  exact bind_congr fun passes => by cases passes <;> rfl

/-! ## Views of either side -/

section

variable {side : SideOf c δ} {v : View m c γ}

theorem View.Reaches.answersAs {a : γ} (h : v.Reaches side a)
    (hvocabulary : v.toVocabulary = (Maybe.present a).vocabulary m)
    (hfilter : ∀ p, v.filterM p = Maybe.ofTest v.whole <$> p a) :
    v.AnswersAs side (.present a) where
  vocabulary := hvocabulary
  present a' ha := Maybe.present.inj ha ▸ h
  absent := nofun
  get_fails := by simp [h.get]
  checkedGet_fails := by simp [h.checkedGet]
  mapM f := by simp [h.mapM, side.payload_here, Maybe.mapM]
  bindM f := by rw [h.bindM, Maybe.bindM]
  filterM := hfilter

theorem View.PassesBy.answersAs {d : δ} (h : v.PassesBy side d)
    (hvocabulary : v.toVocabulary = (Maybe.absent : Maybe γ).vocabulary m)
    (hfilter : ∀ p, v.filterM p = pure (.present v.whole)) :
    v.AnswersAs side .absent where
  vocabulary := hvocabulary
  present := nofun
  absent _ := ⟨d, h⟩
  get_fails := by simp [h.get]
  checkedGet_fails := by simp [h.checkedGet]
  mapM f := by simp [h.mapM, side.payload_there, Maybe.mapM]
  bindM f := by simp [h.bindM, side.payload_there, Maybe.bindM]
  filterM p := by
    rw [hfilter, Maybe.allM, map_pure]
    rfl

end

theorem LeftProjection.answersAs (e : Either α β) :
    (e.projectLeft.view m).AnswersAs Either.leftSide e.projectLeft.toMaybe := by
  cases e with
  | left a =>
    have h : ((Either.left a : Either α β).projectLeft.view m).Reaches Either.leftSide a :=
      ⟨rfl, rfl, rfl, fun _ => bind_pure_comp _ _, fun _ => rfl⟩
    exact h.answersAs rfl fun p => (Maybe.map_ofTest _ _).symm
  | right b =>
    have h : ((Either.right b : Either α β).projectLeft.view m).PassesBy Either.leftSide b :=
      ⟨rfl, ⟨_, rfl⟩, ⟨_, rfl⟩, fun _ => rfl, fun _ => rfl⟩
    exact h.answersAs rfl fun p => pure_bind _ _

theorem RightProjection.answersAs (e : Either α β) :
    (e.projectRight.view m).AnswersAs Either.rightSide e.projectRight.toMaybe := by
  cases e with
  | left a =>
    have h : ((Either.left a : Either α β).projectRight.view m).PassesBy Either.rightSide a :=
      ⟨rfl, ⟨_, rfl⟩, ⟨_, rfl⟩, fun _ => rfl, fun _ => rfl⟩
    exact h.answersAs rfl fun p => pure_bind _ _
  | right b =>
    have h : ((Either.right b : Either α β).projectRight.view m).Reaches Either.rightSide b :=
      ⟨rfl, rfl, rfl, fun _ => bind_pure_comp _ _, fun _ => rfl⟩
    exact h.answersAs rfl fun p => (Maybe.map_ofTest _ _).symm

/-! ## The value itself -/

namespace Either

theorem filterM_eq_anyM (e : Either α β) (p : β → m Bool) :
    e.filterM p = Maybe.ofTest e <$> e.right?.anyM p := by
  cases e with
  | left a =>
    rw [right?, Maybe.anyM, map_pure]
    rfl
  | right b => exact (Maybe.map_ofTest _ _).symm

omit [LawfulMonad m] in
theorem vocabulary_eq (e : Either α β) : e.vocabulary m = e.right?.vocabulary m := by
  cases e <;> rfl

/-- The view of the right side and the value filter alike when the payload is on the right, and
only then. -/
theorem filterM_projectRight_iff {σ : Type} (e : Either α β) (p : β → Act σ Bool) (s : σ) :
    e.projectRight.filterM p s = e.filterM p s ↔ e.isRight = true := by
  cases e with
  | left a => exact ⟨nofun, nofun⟩
  | right b => exact ⟨fun _ => rfl, fun _ => rfl⟩

end Either

/-! ## From maybes to eithers -/

namespace Maybe

theorem right?_toRightM (x : Maybe γ) (other : m δ) :
    Either.right? <$> x.toRightM other = x.elimM ((fun _ => x) <$> other) fun _ => pure x := by
  cases x <;> simp [toRightM, elimM, Either.right?]

theorem left?_toLeftM (x : Maybe γ) (other : m δ) :
    Either.left? <$> x.toLeftM other = x.elimM ((fun _ => x) <$> other) fun _ => pure x := by
  cases x <;> simp [toLeftM, elimM, Either.left?]

theorem toLeftM_eq_swap (x : Maybe γ) (other : m δ) :
    x.toLeftM other = Either.swap <$> x.toRightM other := by
  cases x <;> simp [toLeftM, toRightM, Either.swap]

end Maybe

/-- The views of both sides answer as the maybes of those sides; the value itself answers as the
maybe of its right side and filters by `anyM` where the view filters by `allM`; and a maybe that was
put on a side is got back from it, the computation of the other side having run if there was no
payload. -/
theorem views_answer_as_maybes (e : Either α β) :
    ((e.projectLeft.view m).AnswersAs Either.leftSide e.projectLeft.toMaybe ∧
      (e.projectRight.view m).AnswersAs Either.rightSide e.projectRight.toMaybe) ∧
    (e.vocabulary m = e.right?.vocabulary m ∧
      (∀ p : β → m Bool, e.filterM p = Maybe.ofTest e <$> e.right?.anyM p) ∧
      ∀ {σ : Type} (p : β → Act σ Bool) (s : σ),
        e.projectRight.filterM p s = e.filterM p s ↔ e.isRight = true) ∧
    ∀ {γ δ : Type} (x : Maybe γ) (other : m δ),
      Either.right? <$> x.toRightM other = (x.elimM ((fun _ => x) <$> other) fun _ => pure x) ∧
      Either.left? <$> x.toLeftM other = (x.elimM ((fun _ => x) <$> other) fun _ => pure x) ∧
      x.toLeftM other = Either.swap <$> x.toRightM other :=
  ⟨⟨LeftProjection.answersAs e, RightProjection.answersAs e⟩,
    ⟨e.vocabulary_eq, e.filterM_eq_anyM, e.filterM_projectRight_iff⟩,
    fun x other => ⟨x.right?_toRightM other, x.left?_toLeftM other, x.toLeftM_eq_swap other⟩⟩

/-- A predicate that notes its argument and gives up on zero, asked through the view of the left
side. -/
theorem views_answer_as_maybes_of_raising :
    let p : Nat → Act (List Nat) Bool := fun a log =>
      if a = 0 then .error (.raised "zero") (log ++ [a]) else .ok (a % 2 == 0) (log ++ [a])
    let e : Either Nat Nat := .left 0
    LawfulMonad (Act (List Nat)) ∧
      e.projectLeft.filterM p [] = .error (.raised "zero") [0] ∧
      e.projectLeft.filterM p [] =
        (Maybe.ofTest e <$> e.projectLeft.toMaybe.allM p : Act (List Nat) _) [] :=
  ⟨inferInstance, rfl,
    congrFun ((views_answer_as_maybes (.left 0 : Either Nat Nat)).1.1.filterM _) []⟩

end Lawful

end Streamkit
