import Streamkit.Proofs.Merge.StableSort
import Streamkit.Proofs.Value.Order

/-!
# Orders of containers

An order of payloads gives an order of maybes, of eithers and of lists, and the order of values is
what these give from units, truth values, integers and texts up. If the order of payloads is total
and tells payloads apart (`IsTotalOrder`), so do the orders of containers, and mapping a function
that keeps the order of payloads keeps the order of containers. A merge by such an order gives the
stable sort of the items, which is the same however the items are spread over the sources, as items
in a tie are equal. `natural_order_total`.
-/

open Std

namespace Streamkit

variable {α β α' β' : Type}

/-- The comparison is a total order, in which only equal items compare as equal. -/
structure IsTotalOrder (order : α → α → Ordering) : Prop where
  reversed (a b : α) : order b a = (order a b).swap
  trans {a b c : α} : (order a b).isLE → (order b c).isLE → (order a c).isLE
  eq_iff {a b : α} : order a b = .eq ↔ a = b

/-- The function takes items in ascending order to items in ascending order. -/
def KeepsOrder (order : α → α → Ordering) (order' : β → β → Ordering) (f : α → β) : Prop :=
  ∀ a b, (order a b).isLE → (order' (f a) (f b)).isLE

/-! ## Total orders -/

namespace IsTotalOrder

variable {order : α → α → Ordering} {order' : β → β → Ordering}

theorem of_lawful [TransCmp order] [LawfulEqCmp order] : IsTotalOrder order where
  reversed _ _ := OrientedCmp.eq_swap
  trans := TransCmp.isLE_trans
  eq_iff := LawfulEqCmp.compare_eq_iff_eq

theorem transCmp (h : IsTotalOrder order) : TransCmp order where
  eq_swap := h.reversed _ _
  isLE_trans := h.trans

theorem lawfulEqCmp (h : IsTotalOrder order) : LawfulEqCmp order where
  compare_self := h.eq_iff.2 rfl
  eq_of_compare := h.eq_iff.1

theorem value : IsTotalOrder Value.compare where
  reversed v w := (Value.swap_compare v w).symm
  trans := TransCmp.isLE_trans
  eq_iff := Value.compare_eq_iff

theorem maybe (h : IsTotalOrder order) : IsTotalOrder (Maybe.compareBy order) where
  reversed x y := by cases x <;> cases y <;> simp [Maybe.compareBy, ← h.reversed]
  trans {x y z} hxy hyz := by
    cases x <;> cases y <;> cases z <;> simp_all [Maybe.compareBy]
    exact h.trans hxy hyz
  eq_iff {x y} := by cases x <;> cases y <;> simp [Maybe.compareBy, h.eq_iff]

theorem either (h : IsTotalOrder order) (h' : IsTotalOrder order') :
    IsTotalOrder (Either.compareBy order order') where
  reversed x y := by
    cases x <;> cases y <;> simp [Either.compareBy, ← h.reversed, ← h'.reversed]
  trans {x y z} hxy hyz := by
    cases x <;> cases y <;> cases z <;> simp_all [Either.compareBy]
    · exact h.trans hxy hyz
    · exact h'.trans hxy hyz
  eq_iff {x y} := by cases x <;> cases y <;> simp [Either.compareBy, h.eq_iff, h'.eq_iff]

theorem list (h : IsTotalOrder order) : IsTotalOrder (List.compareLex order) :=
  have := h.transCmp
  have := h.lawfulEqCmp
  of_lawful

end IsTotalOrder

theorem Value.compareAll_eq_compareLex (vs ws : List Value) :
    compareAll vs ws = List.compareLex compare vs ws := by
  induction vs generalizing ws with
  | nil => cases ws <;> rw [compareAll] <;> rfl
  | cons v vs ih =>
    cases ws with
    | nil => rw [compareAll, List.compareLex_cons_nil]
    | cons w ws => rw [compareAll, List.compareLex_cons_cons, ih]

theorem Value.compare_list (vs ws : List Value) :
    compare (.list vs) (.list ws) = List.compareLex compare vs ws := by
  rw [compare, compareAll_eq_compareLex]

/-! ## Maps that keep the order -/

namespace KeepsOrder

variable {order : α → α → Ordering} {order' : α' → α' → Ordering} {other : β → β → Ordering}
  {f : α → α'}

theorem maybe (h : KeepsOrder order order' f) :
    KeepsOrder (Maybe.compareBy order) (Maybe.compareBy order')
      fun x => Id.run (x.mapM fun a => pure (f a)) := by
  intro x y hxy
  cases x <;> cases y
  case present.present a b => exact h a b hxy
  all_goals exact hxy

theorem either_right (h : KeepsOrder order order' f) :
    KeepsOrder (Either.compareBy other order) (Either.compareBy other order')
      fun e => Id.run (e.mapM fun a => pure (f a)) := by
  intro x y hxy
  cases x <;> cases y
  case right.right a b => exact h a b hxy
  all_goals exact hxy

theorem either_left (h : KeepsOrder order order' f) :
    KeepsOrder (Either.compareBy order other) (Either.compareBy order' other)
      fun e => Id.run (e.leftMapM fun a => pure (f a)) := by
  intro x y hxy
  cases x <;> cases y
  case left.left a b => exact h a b hxy
  all_goals exact hxy

end KeepsOrder

/-! ## Merges -/

/-- With a total order, a stable sort depends only on which items there are. -/
theorem IsStableSort.eq_of_perm {order : α → α → Ordering} (h : IsTotalOrder order)
    {lists lists' : List (List α)} {out out' : List α} (hout : IsStableSort order lists out)
    (hout' : IsStableSort order lists' out') (hperm : lists.flatten.Perm lists'.flatten) :
    out = out' := by
  refine (hout.perm.trans (hperm.trans hout'.perm.symm)).eq_of_pairwise ?_ hout.sorted hout'.sorted
  intro a b _ _ hab hba
  refine h.eq_iff.1 ?_
  rw [h.reversed b a] at hab ⊢
  cases hba' : order b a <;> simp_all

/-- The order of values is total, as are the orders it is made of; maps keep these orders; and they
are orders to merge by, whose ties are between equal items. -/
theorem natural_order_total :
    (IsTotalOrder Value.compare ∧
      (∀ x y, Value.compare (.ofMaybe x) (.ofMaybe y) = x.compareBy Value.compare y) ∧
      (∀ x y, Value.compare (.ofEither x) (.ofEither y) =
        x.compareBy Value.compare Value.compare y) ∧
      (∀ vs ws, Value.compare (.list vs) (.list ws) = List.compareLex Value.compare vs ws) ∧
      MergesStably Value.compare (MergeSession.inputs Ranking.natural.eval)) ∧
    (∀ {α : Type} {order : α → α → Ordering}, IsTotalOrder order →
      IsTotalOrder (Maybe.compareBy order) ∧ IsTotalOrder (List.compareLex order) ∧
      (∀ {β : Type} {order' : β → β → Ordering}, IsTotalOrder order' →
        IsTotalOrder (Either.compareBy order order')) ∧
      (∀ {τ : Type} {comparator : Comparator α τ}, comparator.Answers order →
        MergesStably order (.ofCounted comparator)) ∧
      ∀ {lists lists' : List (List α)} {out out' : List α},
        IsStableSort order lists out → IsStableSort order lists' out' →
        lists.flatten.Perm lists'.flatten → out = out') ∧
    ∀ {α α' : Type} {order : α → α → Ordering} {order' : α' → α' → Ordering} {f : α → α'},
      KeepsOrder order order' f →
      KeepsOrder (Maybe.compareBy order) (Maybe.compareBy order')
        (fun x => Id.run (x.mapM fun a => pure (f a))) ∧
      ∀ {β : Type} {other : β → β → Ordering},
        KeepsOrder (Either.compareBy other order) (Either.compareBy other order')
          (fun e => Id.run (e.mapM fun a => pure (f a))) ∧
        KeepsOrder (Either.compareBy order other) (Either.compareBy order' other)
          (fun e => Id.run (e.leftMapM fun a => pure (f a))) := by
  refine ⟨⟨.value, Value.compare_ofMaybe, Value.compare_ofEither, Value.compare_list, ?_⟩,
    fun h => ?_, fun h => ⟨h.maybe, h.either_right, h.either_left⟩⟩
  · exact mergesStably_ofCounted (MergeSession.answers_noted Value.compare)
  · have := h.transCmp
    exact ⟨h.maybe, h.list, h.either, mergesStably_ofCounted, IsStableSort.eq_of_perm h⟩

/-- Numbers, which are halved, and the same numbers in two arrangements. -/
theorem natural_order_total_of_halves :
    let order : Nat → Nat → Ordering := compare
    let comparator : Comparator Nat (Array (Nat × Nat)) :=
      MergeSession.noted fun a b => .ok (order a b)
    let half : Nat → Nat := (· / 2)
    IsTotalOrder order ∧ comparator.Answers order ∧ KeepsOrder order order half ∧
      (Maybe.compareBy order (Id.run ((Maybe.present 3).mapM fun a => pure (half a)))
        (Id.run ((Maybe.present 4).mapM fun a => pure (half a)))).isLE ∧
      ∃ out out', IsStableSort order [[1, 3], [2]] out ∧ IsStableSort order [[2, 3], [1]] out' ∧
        out = out' := by
  intro order comparator half
  have horder : IsTotalOrder order := .of_lawful
  have hcomparator : comparator.Answers order := MergeSession.answers_noted order
  have hhalf : KeepsOrder order order half := by
    intro a b hab
    simp only [order, half, Nat.isLE_compare] at hab ⊢
    omega
  have total := natural_order_total.2.1 horder
  have hmerges := total.2.2.2.1 hcomparator
  have hsorts : ∀ as bs : List Nat,
      (∀ items ∈ [as, bs], items.Pairwise fun a b => (order a b).isLE) →
      ∃ out, IsStableSort order [as, bs] out := by
    intro as bs hsorted
    obtain ⟨_, out, _, hout, _⟩ := hmerges [.ofList as, .ofList bs] [as, bs] #[]
      (.cons (Source.gives_ofList as) (.cons (Source.gives_ofList bs) .nil)) hsorted
    exact ⟨out, hout⟩
  obtain ⟨out, hout⟩ := hsorts [1, 3] [2] (by decide)
  obtain ⟨out', hout'⟩ := hsorts [2, 3] [1] (by decide)
  refine ⟨horder, hcomparator, hhalf, ?_, out, out', hout, hout', ?_⟩
  · exact (natural_order_total.2.2 hhalf).1 (.present 3) (.present 4) rfl
  · exact total.2.2.2.2 hout hout' (by decide)

end Streamkit
