import Streamkit.Value.Order

/-!
# The order of values is total

`Value.compare` is a linear order: it is oriented (`Value.swap_compare`), transitive
(`Value.compare_lt_trans`), and only equal values compare as equal (`Value.compare_eq_iff`).
-/

open Std

namespace Streamkit.Value

/-! ## Orientation -/

mutual

theorem swap_compare : (v w : Value) → (compare v w).swap = compare w v
  | unit, w | absent, w | bool _, w | int _, w | text _, w => by
    cases w <;> simp [compare, rank, ← OrientedCmp.eq_swap]
  | list vs, w => by
    cases w <;> simp [compare, rank, ← OrientedCmp.eq_swap, swap_compareAll vs]
  | present v, w | left v, w | right v, w => by
    cases w <;> simp [compare, rank, ← OrientedCmp.eq_swap, swap_compare v]

theorem swap_compareAll : (vs ws : List Value) → (compareAll vs ws).swap = compareAll ws vs
  | [], [] | [], _ :: _ | _ :: _, [] => by simp [compareAll]
  | v :: vs, w :: ws => by
    simp [compareAll, Ordering.swap_then, swap_compare v w, swap_compareAll vs ws]

end

/-! ## Transitivity -/

theorem compare_of_rank_lt {v w : Value} (h : v.rank < w.rank) : compare v w = .lt := by
  cases v <;> cases w <;> simp_all [compare, rank, Nat.compare_eq_lt]

theorem rank_le_of_compare_lt {v w : Value} (h : compare v w = .lt) : v.rank ≤ w.rank := by
  rcases Nat.lt_or_ge w.rank v.rank with hlt | hge
  · have hgt := compare_of_rank_lt hlt
    rw [← swap_compare, h] at hgt
    cases hgt
  · exact hge

/-- Along two steps up, either the kind changes or all three values are of one kind. -/
theorem compare_lt_or_rank_eq {u v w : Value} (huv : compare u v = .lt) (hvw : compare v w = .lt) :
    compare u w = .lt ∨ v.rank = u.rank ∧ w.rank = u.rank := by
  have huv' := rank_le_of_compare_lt huv
  have hvw' := rank_le_of_compare_lt hvw
  rcases Nat.lt_or_ge u.rank w.rank with hlt | hge
  · exact .inl (compare_of_rank_lt hlt)
  · exact .inr ⟨by omega, by omega⟩

mutual

theorem compare_lt_trans : (u v w : Value) → compare u v = .lt → compare v w = .lt →
    compare u w = .lt
  | unit, v, w, huv, hvw => by
    rcases compare_lt_or_rank_eq huv hvw with h | ⟨hv, hw⟩
    · exact h
    · cases v <;> simp_all [rank, compare]
  | bool a, v, w, huv, hvw => by
    rcases compare_lt_or_rank_eq huv hvw with h | ⟨hv, hw⟩
    · exact h
    · cases v <;> cases w <;> simp_all [rank, compare]
      exact TransCmp.lt_trans huv hvw
  | int a, v, w, huv, hvw => by
    rcases compare_lt_or_rank_eq huv hvw with h | ⟨hv, hw⟩
    · exact h
    · cases v <;> cases w <;> simp_all [rank, compare]
      exact TransCmp.lt_trans huv hvw
  | text a, v, w, huv, hvw => by
    rcases compare_lt_or_rank_eq huv hvw with h | ⟨hv, hw⟩
    · exact h
    · cases v <;> cases w <;> simp_all [rank, compare]
      exact TransCmp.lt_trans huv hvw
  | list us, v, w, huv, hvw => by
    rcases compare_lt_or_rank_eq huv hvw with h | ⟨hv, hw⟩
    · exact h
    · cases v <;> cases w <;> simp_all [rank, compare]
      exact compareAll_lt_trans _ _ _ huv hvw
  | absent, v, w, huv, hvw => by
    rcases compare_lt_or_rank_eq huv hvw with h | ⟨hv, hw⟩
    · exact h
    · cases v <;> cases w <;> simp_all [rank, compare]
  | present u, v, w, huv, hvw => by
    rcases compare_lt_or_rank_eq huv hvw with h | ⟨hv, hw⟩
    · exact h
    · cases v <;> cases w <;> simp_all [rank, compare]
      exact compare_lt_trans _ _ _ huv hvw
  | left u, v, w, huv, hvw => by
    rcases compare_lt_or_rank_eq huv hvw with h | ⟨hv, hw⟩
    · exact h
    · cases v <;> cases w <;> simp_all [rank, compare]
      exact compare_lt_trans _ _ _ huv hvw
  | right u, v, w, huv, hvw => by
    rcases compare_lt_or_rank_eq huv hvw with h | ⟨hv, hw⟩
    · exact h
    · cases v <;> cases w <;> simp_all [rank, compare]
      exact compare_lt_trans _ _ _ huv hvw

theorem compareAll_lt_trans : (us vs ws : List Value) → compareAll us vs = .lt →
    compareAll vs ws = .lt → compareAll us ws = .lt
  | [], _, _ :: _, _, _ => by simp [compareAll]
  | _, [], [], _, hvw | _, _ :: _, [], _, hvw => by simp [compareAll] at hvw
  | _ :: _, [], _, huv, _ => by simp [compareAll] at huv
  | u :: us, v :: vs, w :: ws, huv, hvw => by
    simp only [compareAll, Ordering.then_eq_lt] at huv hvw ⊢
    rcases huv with huv | ⟨huv, huvs⟩
    · rcases hvw with hvw | ⟨hvw, -⟩
      · exact .inl (compare_lt_trans u v w huv hvw)
      · obtain rfl := eq_of_compare v w hvw
        exact .inl huv
    · obtain rfl := eq_of_compare u v huv
      rcases hvw with hvw | ⟨hvw, hvws⟩
      · exact .inl hvw
      · exact .inr ⟨hvw, compareAll_lt_trans us vs ws huvs hvws⟩

end

instance : TransCmp compare where
  eq_swap := (swap_compare _ _).symm
  isLE_trans {u v w} huv hvw := by
    rcases Ordering.isLE_iff_eq_lt_or_eq_eq.1 huv with huv | huv
    · rcases Ordering.isLE_iff_eq_lt_or_eq_eq.1 hvw with hvw | hvw
      · exact Ordering.isLE_of_eq_lt (compare_lt_trans u v w huv hvw)
      · rw [← compare_eq_iff.1 hvw]
        exact Ordering.isLE_of_eq_lt huv
    · rw [compare_eq_iff.1 huv]
      exact hvw

end Streamkit.Value
