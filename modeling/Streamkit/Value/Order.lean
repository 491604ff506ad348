import Streamkit.Value

/-!
# The order of values

Values compare by kind first (unit, truth value, integer, text, list, maybe, either) and within a
kind by content: texts and lists lexicographically, nothing before a payload, left before right.
`compare_eq_iff` says that only equal values compare as equal, which decides equality.
-/

namespace Streamkit.Value

/-- The rank of a value's kind. -/
def rank : Value → Nat
  | unit => 0
  | bool _ => 1
  | int _ => 2
  | text _ => 3
  | list _ => 4
  | absent | present _ => 5
  | left _ | right _ => 6

mutual

/-- The order of values. -/
def compare : Value → Value → Ordering
  | bool a, bool b => Ord.compare a b
  | int a, int b => Ord.compare a.toInt b.toInt
  | text a, text b => Ord.compare a b
  | list as, list bs => compareAll as bs
  | absent, absent => .eq
  | absent, present _ => .lt
  | present _, absent => .gt
  | present a, present b => compare a b
  | left a, left b => compare a b
  | left _, right _ => .lt
  | right _, left _ => .gt
  | right a, right b => compare a b
  | a, b => Ord.compare a.rank b.rank

/-- Lists compare lexicographically; a proper initial part comes first. -/
def compareAll : List Value → List Value → Ordering
  | [], [] => .eq
  | [], _ :: _ => .lt
  | _ :: _, [] => .gt
  | a :: as, b :: bs => (compare a b).then (compareAll as bs)

end

/-! ## Equal values -/

mutual

theorem compare_self : (v : Value) → compare v v = .eq
  | unit | absent => by simp [compare]
  | bool b => by cases b <;> rfl
  | int i => by simp [compare]
  | text s => by simp [compare]
  | list vs => by simp [compare, compareAll_self vs]
  | present v | left v | right v => by simp [compare, compare_self v]

theorem compareAll_self : (vs : List Value) → compareAll vs vs = .eq
  | [] => by simp [compareAll]
  | v :: vs => by simp [compareAll, compare_self v, compareAll_self vs]

end

mutual

theorem eq_of_compare : (v w : Value) → compare v w = .eq → v = w
  | unit, w, h => by cases w <;> simp_all [compare, rank]
  | absent, w, h => by cases w <;> simp_all [compare, rank]
  | bool b, w, h => by cases w <;> simp_all [compare, rank]
  | int i, w, h => by cases w <;> simp_all [compare, rank, Int64.toInt_inj]
  | text s, w, h => by cases w <;> simp_all [compare, rank]
  | list vs, w, h => by
    cases w <;> simp_all [compare, rank]
    exact eq_of_compareAll _ _ h
  | present v, w, h => by
    cases w <;> simp_all [compare, rank]
    exact eq_of_compare _ _ h
  | left v, w, h => by
    cases w <;> simp_all [compare, rank]
    exact eq_of_compare _ _ h
  | right v, w, h => by
    cases w <;> simp_all [compare, rank]
    exact eq_of_compare _ _ h

theorem eq_of_compareAll : (vs ws : List Value) → compareAll vs ws = .eq → vs = ws
  | [], ws, h => by cases ws <;> simp_all [compareAll]
  | v :: vs, [], h => by simp_all [compareAll]
  | v :: vs, w :: ws, h => by
    simp [compareAll] at h
    simp [eq_of_compare v w h.1, eq_of_compareAll vs ws h.2]

end

/-- Only equal values compare as equal. -/
theorem compare_eq_iff {v w : Value} : compare v w = .eq ↔ v = w :=
  ⟨eq_of_compare v w, fun h => h ▸ compare_self v⟩

instance : DecidableEq Value := fun _ _ => decidable_of_iff _ compare_eq_iff

/-! ## Collections of values -/

/-- The values in ascending order. -/
def sort (vs : List Value) : List Value :=
  vs.mergeSort fun v w => compare v w != .gt

/-- The number of different values. -/
def countDistinct (vs : List Value) : Nat :=
  vs.eraseDups.length

/-- A `Maybe` among values compares as one. -/
theorem compare_ofMaybe (v w : Maybe Value) :
    compare (ofMaybe v) (ofMaybe w) = v.compareBy compare w := by
  cases v <;> cases w <;> simp [ofMaybe, compare, Maybe.compareBy]

/-- An `Either` among values compares as one. -/
theorem compare_ofEither (v w : Either Value Value) :
    compare (ofEither v) (ofEither w) = v.compareBy compare compare w := by
  cases v <;> cases w <;> simp [ofEither, compare, Either.compareBy]

end Streamkit.Value
