/-!
# JSON tokens

`tokens` splits a text into the tokens of the JSON grammar and drops the blanks between them; it
refuses a text with anything else in it. A number has no leading zeros, and its fraction and its
exponent have at least one digit; a text holds no control character, and only the escapes of the
grammar.
-/

namespace Streamkit.Json

/-- A token. -/
inductive Token where
  | openArray
  | closeArray
  | openObject
  | closeObject
  | colon
  | comma
  | null
  | bool (b : Bool)
  /-- A number, if it is an integer. -/
  | number (i : Option Int)
  /-- A text, if its escapes make whole characters. -/
  | text (s : Option String)

/-! ## Numbers -/

/-- The number that decimal digits spell. -/
def ofDigits (digits : List Char) : Nat :=
  digits.foldl (fun n c => 10 * n + (c.toNat - '0'.toNat)) 0

/-- The leading digits, at least one, and what follows them. -/
def someDigits (cs : List Char) : Option (List Char × List Char) :=
  match cs.takeWhile Char.isDigit with
  | [] => none
  | d :: ds => some (d :: ds, cs.dropWhile Char.isDigit)

/-- What follows a fraction, if there is one: whether there is, and the rest. -/
def skipFraction : List Char → Option (Bool × List Char)
  | '.' :: cs => do return (true, (← someDigits cs).2)
  | cs => some (false, cs)

/-- What follows a sign, if there is one. -/
def skipSign : List Char → List Char
  | '+' :: cs | '-' :: cs => cs
  | cs => cs

/-- What follows an exponent, if there is one: whether there is, and the rest. -/
def skipExponent : List Char → Option (Bool × List Char)
  | 'e' :: cs | 'E' :: cs => do return (true, (← someDigits (skipSign cs)).2)
  | cs => some (false, cs)

/-- A number without its sign: whether it is whole, and its digits before the fraction. -/
def unsigned (cs : List Char) : Option (Bool × List Char) := do
  let (digits, rest) ← someDigits cs
  let (fraction, rest) ← skipFraction rest
  let (exponent, rest) ← skipExponent rest
  if rest.isEmpty && (digits.length == 1 || digits.head? != some '0') then
    return (!fraction && !exponent, digits)
  else none

/-- The number that a text spells, if it is an integer; a zero with a minus sign is none. -/
def number? : List Char → Option (Option Int)
  | '-' :: cs => do
    let (whole, digits) ← unsigned cs
    return if whole && ofDigits digits != 0 then some (-ofDigits digits) else none
  | cs => do
    let (whole, digits) ← unsigned cs
    return if whole then some (ofDigits digits) else none

/-- A character of a number. -/
def isNumberChar (c : Char) : Bool :=
  c.isDigit || c == '-' || c == '+' || c == '.' || c == 'e' || c == 'E'

/-- Reads a number: all characters up to the first that belongs to none. -/
def readNumber (cs : List Char) : Option (Token × List Char) := do
  return (.number (← number? (cs.takeWhile isNumberChar)), cs.dropWhile isNumberChar)

/-! ## Texts -/

/-- The value of a hexadecimal digit. -/
def hexDigit? (c : Char) : Option Nat :=
  if c.isDigit then some (c.toNat - '0'.toNat)
  else if 'a' ≤ c ∧ c ≤ 'f' then some (c.toNat - 'a'.toNat + 10)
  else if 'A' ≤ c ∧ c ≤ 'F' then some (c.toNat - 'A'.toNat + 10)
  else none

/-- The 16-bit unit that four hexadecimal digits spell. -/
def hexUnit? (a b c d : Char) : Option Nat := do
  return (((← hexDigit? a) * 16 + (← hexDigit? b)) * 16 + (← hexDigit? c)) * 16 + (← hexDigit? d)

/-- The first unit of a surrogate pair. -/
def isHighSurrogate (u : Nat) : Bool := 0xd800 ≤ u && u ≤ 0xdbff

/-- The second unit of a surrogate pair. -/
def isLowSurrogate (u : Nat) : Bool := 0xdc00 ≤ u && u ≤ 0xdfff

/-- The character of a surrogate pair. -/
def ofSurrogates (high low : Nat) : Char :=
  Char.ofNat (0x10000 + (high - 0xd800) * 0x400 + (low - 0xdc00))

/-- The character of a short escape. -/
def shortEscape? : Char → Option Char
  | '"' => some '"'
  | '\\' => some '\\'
  | '/' => some '/'
  | 'b' => some '\x08'
  | 'f' => some '\x0c'
  | 'n' => some '\n'
  | 'r' => some '\r'
  | 't' => some '\t'
  | _ => none

/-- A piece of a text: a character, or half of a surrogate pair that an escape spells. -/
inductive Piece where
  | char (c : Char)
  | half (u : Nat)

/-- The piece that an escape of a 16-bit unit spells. -/
def Piece.ofUnit (u : Nat) : Piece :=
  if isHighSurrogate u || isLowSurrogate u then half u else char (Char.ofNat u)

/-- The characters of a text, if every half is part of a pair. -/
def joinPieces : List Piece → Option (List Char)
  | [] => some []
  | .char c :: rest => (joinPieces rest).map (c :: ·)
  | .half u :: .half v :: rest =>
    if isHighSurrogate u && isLowSurrogate v then
      (joinPieces rest).map (ofSurrogates u v :: ·)
    else none
  | .half _ :: _ => none

/-- Puts a piece in front of those that were read after it. -/
def withPiece (piece : Piece) : List Piece × List Char → List Piece × List Char
  | (pieces, rest) => (piece :: pieces, rest)

/-- Reads a text up to its closing quote: its pieces, and what follows. -/
def readPieces : List Char → Option (List Piece × List Char)
  | [] => none
  | '"' :: rest => some ([], rest)
  | '\\' :: 'u' :: a :: b :: c :: d :: rest =>
    match hexUnit? a b c d with
    | none => none
    | some u => (readPieces rest).map (withPiece (.ofUnit u))
  | '\\' :: e :: rest =>
    match shortEscape? e with
    | none => none
    | some c => (readPieces rest).map (withPiece (.char c))
  | c :: rest => if c < ' ' then none else (readPieces rest).map (withPiece (.char c))

/-- Reads a text up to its closing quote. -/
def readText (cs : List Char) : Option (Token × List Char) :=
  (readPieces cs).map fun (pieces, rest) => (.text ((joinPieces pieces).map String.ofList), rest)

/-! ## Tokens -/

/-- A blank of the grammar. -/
def isBlank (c : Char) : Bool := c == ' ' || c == '\t' || c == '\n' || c == '\r'

/-- Reads the token at the start of a text. -/
def readToken : List Char → Option (Token × List Char)
  | '[' :: cs => some (.openArray, cs)
  | ']' :: cs => some (.closeArray, cs)
  | '\x7b' :: cs => some (.openObject, cs)
  | '\x7d' :: cs => some (.closeObject, cs)
  | ':' :: cs => some (.colon, cs)
  | ',' :: cs => some (.comma, cs)
  | '"' :: cs => readText cs
  | 'n' :: 'u' :: 'l' :: 'l' :: cs => some (.null, cs)
  | 't' :: 'r' :: 'u' :: 'e' :: cs => some (.bool true, cs)
  | 'f' :: 'a' :: 'l' :: 's' :: 'e' :: cs => some (.bool false, cs)
  | cs => readNumber cs

/-! ## Tokens take characters -/

theorem length_readPieces {cs : List Char} {r : List Piece × List Char}
    (h : readPieces cs = some r) : r.2.length < cs.length := by
  fun_induction readPieces cs generalizing r with
  | case1 | case3 | case5 | case7 => simp at h
  | case2 => simp at h; simp [← h]
  | case4 _ _ _ _ _ _ _ ih | case6 _ _ _ _ _ ih | case8 _ _ _ _ _ _ ih =>
    obtain ⟨q, hq, rfl⟩ := Option.map_eq_some_iff.1 h
    have := ih hq
    simp only [withPiece, List.length_cons]
    omega

theorem number?_nil : number? [] = none := rfl

theorem length_readNumber {cs rest : List Char} {t : Token}
    (h : readNumber cs = some (t, rest)) : rest.length < cs.length := by
  cases cs with
  | nil => simp [readNumber, number?_nil] at h
  | cons c cs =>
    by_cases hc : isNumberChar c
    · simp [readNumber, hc, Option.bind_eq_some_iff] at h
      obtain ⟨_, _, _, rfl⟩ := h
      have := (List.dropWhile_suffix (l := cs) isNumberChar).length_le
      simp; omega
    · simp [readNumber, hc, number?_nil] at h

theorem length_readToken {cs rest : List Char} {t : Token}
    (h : readToken cs = some (t, rest)) : rest.length < cs.length := by
  unfold readToken at h
  split at h
  case h_7 cs =>
    obtain ⟨q, hq, h⟩ := Option.map_eq_some_iff.1 h
    have := length_readPieces hq
    simp only [Prod.mk.injEq] at h
    simp only [List.length_cons, ← h.2]
    omega
  case h_11 => exact length_readNumber h
  all_goals
    simp at h
    simp [← h.2]
  all_goals omega
/-! ## Texts as tokens -/

/-- The tokens of a text. -/
def tokens : List Char → Option (List Token)
  | [] => some []
  | c :: cs =>
    if isBlank c then tokens cs
    else
      match _h : readToken (c :: cs) with
      | none => none
      | some (t, rest) => (tokens rest).map (t :: ·)
termination_by cs => cs.length
decreasing_by
  · simp
  · exact length_readToken ‹_›

end Streamkit.Json
