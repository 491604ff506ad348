import Streamkit.Json.Shape

/-!
# Reading back what was written

A `Maybe` is written as its payload or as null, so a payload that is itself written as null is lost
when it is read back. `Shape.collapse` says what is left of the data of a shape: every outermost
`Maybe` that is written as null becomes nothing, and all else stays. Reading what was written gives
the collapsed data, which is written as before, and it is the data itself exactly if no payload
inside is written as null: `decode_encode_collapses`. An `Either` is never written as null, so none
is lost, and each keeps its side.
-/

namespace Streamkit.Json

/-- The tree is the null. -/
def Tree.isNull : Tree → Bool
  | null => true
  | _ => false

@[simp] theorem Tree.isNull_iff {j : Tree} : j.isNull = true ↔ j = .null := by
  cases j <;> simp [isNull]

/-- What is written is read back. -/
def Codec.RoundTrips {α : Type} (c : Codec α) : Prop := ∀ a, c.decode (c.encode a) = some a

namespace Shape

variable {B : Type} {β : B → Type}

section Definitions

variable (codecs : (b : B) → Codec (β b))

/-- The data with every outermost `Maybe` that is written as null replaced by nothing. -/
def collapse : (s : Shape B) → s.Data β → s.Data β
  | base _, a => a
  | maybe s, v =>
    if (((maybe s).codec codecs).encode v).isNull then .absent else Maybe.map s.collapse v
  | either l _, .left a => .left (l.collapse a)
  | either _ r, .right b => .right (r.collapse b)
  | list s, as => List.map s.collapse as

/-- No payload of a `Maybe` inside the data is written as null. -/
def NoNullPayload : (s : Shape B) → s.Data β → Prop
  | base _, _ => True
  | maybe _, .absent => True
  | maybe s, .present a => (s.codec codecs).encode a ≠ .null ∧ s.NoNullPayload a
  | either l _, .left a => l.NoNullPayload a
  | either _ r, .right b => r.NoNullPayload b
  | list s, as => ∀ a : s.Data β, List.Mem a as → s.NoNullPayload a

end Definitions

/-- The side of each `Either` inside the data, in order. -/
def sides : (s : Shape B) → s.Data β → List Side
  | base _, _ => []
  | maybe _, .absent => []
  | maybe s, .present a => s.sides a
  | either l _, .left a => .left :: l.sides a
  | either _ r, .right b => .right :: r.sides b
  | list s, as => (List.map s.sides as).flatten

end Shape

/-! ## Codecs of structured values -/

namespace Codec

variable {α β : Type} {c : Codec α} {d : Codec β}

theorem decode_maybe_of_ne {j : Tree} (h : j ≠ .null) :
    (maybe c).decode j = (c.decode j).map .present := by
  cases j with
  | null => exact absurd rfl h
  | _ => rfl

theorem decode_encode_present_of_null {a : α} (h : c.encode a = .null) :
    (maybe c).decode ((maybe c).encode (.present a)) = some .absent :=
  congrArg (maybe c).decode h

theorem decode_encode_present_of_ne {a : α} (h : c.encode a ≠ .null) :
    (maybe c).decode ((maybe c).encode (.present a)) =
      (c.decode (c.encode a)).map .present :=
  decode_maybe_of_ne h

theorem encode_either_ne_null (e : Either α β) : (either c d).encode e ≠ .null := by
  cases e <;> nofun

theorem decode_encode_left (a : α) :
    (either c d).decode ((either c d).encode (.left a)) = (c.decode (c.encode a)).map .left := by
  simp only [either, if_true]

theorem decode_encode_right (b : β) :
    (either c d).decode ((either c d).encode (.right b)) = (d.decode (d.encode b)).map .right := by
  have hname : Side.right.name ≠ Side.left.name := by decide
  simp only [either, if_neg hname, if_true]

theorem encode_list_ne_null (as : List α) : (list c).encode as ≠ .null := nofun

theorem decode_encode_list {f : α → α} (h : ∀ a, c.decode (c.encode a) = some (f a))
    (as : List α) : (list c).decode ((list c).encode as) = some (as.map f) := by
  show (as.map c.encode).mapM c.decode = _
  induction as with
  | nil => rfl
  | cons a as ih => simp only [List.map_cons, List.mapM_cons, h, ih, bind, Option.bind, pure]

end Codec

/-! ## Data of a shape -/

namespace Shape

variable {B : Type} {β : B → Type} {codecs : (b : B) → Codec (β b)} {s : Shape B} {a : s.Data β}

theorem map_eq_self_iff {α : Type} (f : α → α) (as : List α) :
    as.map f = as ↔ ∀ a ∈ as, f a = a := by
  have hitems : as.map f = as.map id ↔ _ := List.map_inj_left
  rwa [List.map_id] at hitems

theorem collapse_present_of_null (h : (s.codec codecs).encode a = .null) :
    (maybe s).collapse codecs (.present a) = .absent :=
  if_pos (Tree.isNull_iff.2 h)

theorem collapse_present_of_ne (h : (s.codec codecs).encode a ≠ .null) :
    (maybe s).collapse codecs (.present a) = .present (s.collapse codecs a) :=
  if_neg fun hnull => h (Tree.isNull_iff.1 hnull)

/-- Reading what was written gives the collapsed data. -/
theorem decode_encode (hbase : ∀ b, (codecs b).RoundTrips) (s : Shape B) (v : s.Data β) :
    (s.codec codecs).decode ((s.codec codecs).encode v) = some (s.collapse codecs v) := by
  induction s with
  | base b => exact hbase b v
  | maybe s ih =>
    cases v with
    | absent => rfl
    | present a =>
      by_cases hnull : (s.codec codecs).encode a = .null
      · have hlost := collapse_present_of_null hnull
        exact (Codec.decode_encode_present_of_null hnull).trans (congrArg some hlost.symm)
      · have hkept := collapse_present_of_ne hnull
        have hread := congrArg (Option.map Maybe.present) (ih a)
        exact (Codec.decode_encode_present_of_ne hnull).trans
          (hread.trans (congrArg some hkept.symm))
  | either l r ihl ihr =>
    cases v with
    | left a => exact (Codec.decode_encode_left a).trans (congrArg (Option.map Either.left) (ihl a))
    | right b =>
      exact (Codec.decode_encode_right b).trans (congrArg (Option.map Either.right) (ihr b))
  | list s ih => exact Codec.decode_encode_list ih v

/-- The collapsed data is written as the data is. -/
theorem encode_collapse (s : Shape B) (v : s.Data β) :
    (s.codec codecs).encode (s.collapse codecs v) = (s.codec codecs).encode v := by
  induction s with
  | base b => rfl
  | maybe s ih =>
    cases v with
    | absent => rfl
    | present a =>
      by_cases hnull : (s.codec codecs).encode a = .null
      · exact (congrArg _ (collapse_present_of_null hnull)).trans hnull.symm
      · exact (congrArg _ (collapse_present_of_ne hnull)).trans (ih a)
  | either l r ihl ihr =>
    cases v with
    | left a => exact congrArg (fun j => Tree.object [(Side.left.name, j)]) (ihl a)
    | right b => exact congrArg (fun j => Tree.object [(Side.right.name, j)]) (ihr b)
  | list s ih =>
    refine congrArg Tree.array ((List.map_map).trans ?_)
    exact List.map_congr_left fun a _ => ih a

/-- The data stays as it is if no payload is written as null, and only then. -/
theorem collapse_eq_self_iff (s : Shape B) (v : s.Data β) :
    s.collapse codecs v = v ↔ s.NoNullPayload codecs v := by
  induction s with
  | base b => exact iff_true_intro rfl
  | maybe s ih =>
    cases v with
    | absent => exact iff_true_intro rfl
    | present a =>
      by_cases hnull : (s.codec codecs).encode a = .null
      · have hlost := collapse_present_of_null hnull
        exact iff_of_false (fun h => nomatch hlost.symm.trans h) fun h => h.1 hnull
      · have hkept := collapse_present_of_ne hnull
        have hpayload : (maybe s).collapse codecs (.present a) = .present a ↔
            s.collapse codecs a = a :=
          ⟨fun h => Maybe.present.inj (hkept.symm.trans h),
            fun h => hkept.trans (congrArg Maybe.present h)⟩
        exact hpayload.trans ((ih a).trans (and_iff_right hnull).symm)
  | either l r ihl ihr =>
    cases v with
    | left a => exact Iff.trans ⟨Either.left.inj, congrArg Either.left⟩ (ihl a)
    | right b => exact Iff.trans ⟨Either.right.inj, congrArg Either.right⟩ (ihr b)
  | list s ih =>
    exact (map_eq_self_iff (s.collapse codecs) v).trans (forall₂_congr fun a _ => ih a)

/-- Data that is written as null holds no `Either`. -/
theorem sides_of_null (s : Shape B) (v : s.Data β) (h : (s.codec codecs).encode v = .null) :
    s.sides v = [] := by
  induction s with
  | base b => rfl
  | maybe s ih =>
    cases v with
    | absent => rfl
    | present a => exact ih a h
  | either l r => exact absurd h (Codec.encode_either_ne_null v)
  | list s => exact absurd h (Codec.encode_list_ne_null v)

/-- Each `Either` stays, and on its side. -/
theorem sides_collapse (s : Shape B) (v : s.Data β) :
    s.sides (s.collapse codecs v) = s.sides v := by
  induction s with
  | base b => rfl
  | maybe s ih =>
    cases v with
    | absent => rfl
    | present a =>
      by_cases hnull : (s.codec codecs).encode a = .null
      · exact (congrArg _ (collapse_present_of_null hnull)).trans (sides_of_null s a hnull).symm
      · exact (congrArg _ (collapse_present_of_ne hnull)).trans (ih a)
  | either l r ihl ihr =>
    cases v with
    | left a => exact congrArg (Side.left :: ·) (ihl a)
    | right b => exact congrArg (Side.right :: ·) (ihr b)
  | list s ih =>
    refine congrArg List.flatten ((List.map_map).trans ?_)
    exact List.map_congr_left fun a _ => ih a

end Shape

/-! ## The base types of values -/

theorem Codec.int64_roundTrips : int64.RoundTrips := by
  intro i
  have hrange : Int64.minValue.toInt ≤ i.toInt ∧ i.toInt ≤ Int64.maxValue.toInt :=
    ⟨i.minValue_le_toInt, i.toInt_le⟩
  simp only [int64, if_pos hrange, Int64.ofInt_toInt]

theorem Codec.uint32_roundTrips : uint32.RoundTrips := by
  intro n
  have hrange : (0 : Int) ≤ n.toNat ∧ (n.toNat : Int) < UInt32.size :=
    ⟨Int.natCast_nonneg _, Int.ofNat_lt.2 n.toNat_lt⟩
  simp only [uint32, if_pos hrange, Int.toNat_natCast, UInt32.ofNat_toNat]

theorem Scalar.roundTrips (b : Scalar) : b.codec.RoundTrips := by
  cases b with
  | unit => exact fun _ => rfl
  | bool => exact fun _ => rfl
  | int64 => exact Codec.int64_roundTrips
  | uint32 => exact Codec.uint32_roundTrips
  | text => exact fun _ => rfl

/-- Reading back what was written of any data gives the collapsed data, which is written in the same
way and has every `Either` on its side; it is the data itself exactly if no payload is written as
null, as each that is counts as nothing. -/
theorem decode_encode_collapses {B : Type} {β : B → Type} {codecs : (b : B) → Codec (β b)}
    (hbase : ∀ b, (codecs b).RoundTrips) (s : Shape B) (v : s.Data β) :
    let c := s.codec codecs
    c.decode (c.encode v) = some (s.collapse codecs v) ∧
    (c.decode (c.encode v) = some v ↔ s.NoNullPayload codecs v) ∧
    c.encode (s.collapse codecs v) = c.encode v ∧
    s.sides (s.collapse codecs v) = s.sides v ∧
    -- a payload that is written as null is lost
    (c.encode v = .null →
      (Codec.maybe c).decode ((Codec.maybe c).encode (.present v)) = some .absent) := by
  intro c
  have hread : c.decode (c.encode v) = some (s.collapse codecs v) := s.decode_encode hbase v
  refine ⟨hread, ?_, s.encode_collapse v, s.sides_collapse v,
    Codec.decode_encode_present_of_null⟩
  rw [hread, Option.some_inj]
  exact s.collapse_eq_self_iff v

theorem decode_encode_collapses_of_list :
    let s : Shape Scalar :=
      .list (.either (.maybe (.maybe (.base .int64))) (.maybe (.base .unit)))
    let v : List (Either (Maybe (Maybe Int64)) (Maybe Unit)) :=
      [.left (.present .absent), .right (.present ()), .left (.present (.present 5))]
    let read : List (Either (Maybe (Maybe Int64)) (Maybe Unit)) :=
      [.left .absent, .right .absent, .left (.present (.present 5))]
    let c := s.codec Scalar.codec
    (∀ b : Scalar, b.codec.RoundTrips) ∧
    c.decode (c.encode v) = some read ∧ c.decode (c.encode v) ≠ some v := by
  intro s v read c
  obtain ⟨hread, hsame, -⟩ := decode_encode_collapses Scalar.roundTrips s v
  refine ⟨Scalar.roundTrips, hread, fun h => ?_⟩
  have hplain := hsame.1 h _ (.head _)
  exact hplain.1 rfl

end Streamkit.Json
