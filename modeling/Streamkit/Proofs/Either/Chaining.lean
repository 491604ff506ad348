import Streamkit.Either

/-!
# Chaining callbacks

`Maybe.bindM`, `Either.bindM` and, from the left, `Either.orElseM` chain callbacks that run in a
monad of their own, where they may log, keep state or give up. Each of the three obeys the laws of
a monad (`Chains`), as equations between computations: both sides run the same callbacks on the same
payloads in the same order, and give up at the same point. Mapping, filtering and flattening are
cases of chaining, and mapping both sides is mapping one side after the other: `chaining_laws`.
-/

namespace Streamkit

variable {α β γ δ : Type}

/-- Chaining obeys the laws of a monad on the containers `t`, with `wrap` for a container of a
payload and with `map` for its map. -/
structure Chains (m : Type → Type) [Monad m] (t : Type → Type) (wrap : {α : Type} → α → t α)
    (bind : {α β : Type} → (α → m (t β)) → t α → m (t β))
    (map : {α β : Type} → (α → m β) → t α → m (t β)) : Prop where
  bind_wrap {α β : Type} (a : α) (f : α → m (t β)) : bind f (wrap a) = f a
  bind_pure_wrap {α : Type} (x : t α) : bind (fun a => pure (wrap a)) x = pure x
  bind_bind {α β γ : Type} (x : t α) (f : α → m (t β)) (g : β → m (t γ)) :
    bind f x >>= bind g = bind (fun a => f a >>= bind g) x
  map_eq_bind {α β : Type} (x : t α) (f : α → m β) : map f x = bind (fun a => wrap <$> f a) x

/-- Removing a level of nesting is chaining with the callback that only returns what it is given. -/
structure Flattens (m : Type → Type) [Monad m] (t : Type → Type)
    (bind : {α β : Type} → (α → m (t β)) → t α → m (t β))
    (map : {α β : Type} → (α → m β) → t α → m (t β))
    (flatten : {α : Type} → t (t α) → t α) : Prop where
  flatten_eq_bind {α : Type} (x : t (t α)) : pure (flatten x) = bind pure x
  /-- Of three levels, the inner two may be made one first, or the outer two. -/
  flatten_flatten {α : Type} (x : t (t (t α))) :
    flatten <$> map (fun y => pure (flatten y)) x = pure (flatten (flatten x))

/-- The payload, if it passed a test. -/
def Maybe.ofTest (a : α) (passes : Bool) : Maybe α := if passes then present a else absent

section Lawful

variable {m : Type → Type} [Monad m] [LawfulMonad m]

namespace Maybe

theorem chains : Chains m Maybe present bindM mapM where
  bind_wrap a f := rfl
  bind_pure_wrap x := by cases x <;> rfl
  bind_bind x f g := by cases x <;> simp [bindM]
  map_eq_bind x f := by cases x <;> simp [bindM, mapM]

theorem flattens : Flattens m Maybe bindM mapM flatten where
  flatten_eq_bind x := by cases x <;> rfl
  flatten_flatten x := by cases x <;> simp [mapM, flatten]

theorem filterM_eq_bindM (x : Maybe α) (p : α → m Bool) :
    x.filterM p = x.bindM fun a => ofTest a <$> p a := by
  cases x with
  | absent => rfl
  | present a =>
    rw [filterM, bindM, map_eq_pure_bind]
    exact bind_congr fun passes => by cases passes <;> rfl

end Maybe

namespace Either

theorem chains : Chains m (Either α) right bindM mapM where
  bind_wrap a f := rfl
  bind_pure_wrap x := by cases x <;> rfl
  bind_bind x f g := by cases x <;> simp [bindM]
  map_eq_bind x f := by cases x <;> simp [bindM, mapM]

theorem flattens : Flattens m (Either α) bindM mapM flatten where
  flatten_eq_bind x := by cases x <;> rfl
  flatten_flatten x := by cases x <;> simp [mapM, flatten]

theorem chains_left : Chains m (Either · β) left orElseM leftMapM where
  bind_wrap a f := rfl
  bind_pure_wrap x := by cases x <;> rfl
  bind_bind x f g := by cases x <;> simp [orElseM]
  map_eq_bind x f := by cases x <;> simp [orElseM, leftMapM]

theorem bimapM_eq_leftMapM_mapM (e : Either α β) (f : α → m γ) (g : β → m δ) :
    e.bimapM f g = e.mapM g >>= leftMapM f := by
  cases e <;> simp [bimapM, mapM, leftMapM]

theorem bimapM_eq_mapM_leftMapM (e : Either α β) (f : α → m γ) (g : β → m δ) :
    e.bimapM f g = e.leftMapM f >>= mapM g := by
  cases e <;> simp [bimapM, mapM, leftMapM]

end Either

/-- Chaining on a maybe and on either side of an either is a monad over the effects of the
callbacks, and the other combinators are given by it. -/
theorem chaining_laws :
    (Chains m Maybe .present Maybe.bindM Maybe.mapM ∧
      Flattens m Maybe Maybe.bindM Maybe.mapM Maybe.flatten ∧
      ∀ {α : Type} (x : Maybe α) (p : α → m Bool),
        x.filterM p = x.bindM fun a => Maybe.ofTest a <$> p a) ∧
    (∀ α : Type, Chains m (Either α) .right Either.bindM Either.mapM ∧
      Flattens m (Either α) Either.bindM Either.mapM Either.flatten) ∧
    (∀ β : Type, Chains m (Either · β) .left Either.orElseM Either.leftMapM) ∧
    ∀ {α β γ δ : Type} (e : Either α β) (f : α → m γ) (g : β → m δ) (h : β → m (Either α δ)),
      e.bimapM f g = e.mapM g >>= Either.leftMapM f ∧
      e.bimapM f g = e.leftMapM f >>= Either.mapM g ∧
      e.andThenM h = e.bindM h ∧ e.mapRightM g = e.mapM g ∧ e.mapLeftM f = e.leftMapM f :=
  ⟨⟨Maybe.chains, Maybe.flattens, Maybe.filterM_eq_bindM⟩,
    fun _ => ⟨Either.chains, Either.flattens⟩, fun _ => Either.chains_left,
    fun e f g _ =>
      ⟨e.bimapM_eq_leftMapM_mapM f g, e.bimapM_eq_mapM_leftMapM f g, rfl, rfl, rfl⟩⟩

/-- Two callbacks that note their arguments, of which the second gives up. -/
theorem chaining_laws_of_raising :
    let f : Nat → Act (List Nat) (Maybe Nat) := fun a log => .ok (.present (a + 1)) (log ++ [a])
    let g : Nat → Act (List Nat) (Maybe Nat) := fun a log => .error (.raised "no") (log ++ [a])
    LawfulMonad (Act (List Nat)) ∧
      ((Maybe.present 3).bindM f >>= Maybe.bindM g) [] = .error (.raised "no") [3, 4] ∧
      ((Maybe.present 3).bindM f >>= Maybe.bindM g) [] =
        (Maybe.present 3).bindM (fun a => f a >>= Maybe.bindM g) [] :=
  ⟨inferInstance, rfl, congrFun (chaining_laws.1.1.bind_bind (Maybe.present 3) _ _) []⟩

end Lawful

end Streamkit
