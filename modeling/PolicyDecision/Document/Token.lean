import PolicyDecision.Document
import PolicyDecision.Document.Numeral
import PolicyDecision.Hex

/-!
# Tokens of a text

`tokenize` splits a text into punctuation and scalar values. Blanks are the space, the tab, the
line feed and the carriage return. At the first character that begins no token the list ends
with `Token.broken`.

A string may name a character by one or two escapes of four hexadecimal digits. `pairUp` puts
the two halves of such a pair together; a string with a half on its own has no value, but is a
token all the same.
-/

namespace PolicyDecision

inductive Token
  | openList
  | closeList
  | openObject
  | closeObject
  | comma
  | colon
  /-- A string, unless half of a pair stands alone in it. -/
  | string (value : Option String)
  /-- Null, a boolean or a number. -/
  | scalar (value : Document)
  | broken

namespace Token

/-- The characters that separate tokens. -/
def isBlank (c : Char) : Bool :=
  c = ' ' || c = '\t' || c = '\n' || c = '\r'

/-! ### Strings -/

/-- A part of a string: a character, or sixteen bits given by an escape. -/
inductive Piece
  | char (c : Char)
  | unit (n : Nat)

/-- The character of an escape by one letter. -/
def unescape? : Char → Option Char
  | '"' => some '"'
  | '\\' => some '\\'
  | '/' => some '/'
  | 'b' => some '\x08'
  | 'f' => some '\x0c'
  | 'n' => some '\n'
  | 'r' => some '\r'
  | 't' => some '\t'
  | _ => none

/-- The parts of a string up to its closing quotation mark, and the text after it. -/
def scanString : List Char → Option (List Piece) × List Char
  | [] => (none, [])
  | '"' :: rest => (some [], rest)
  | '\\' :: 'u' :: a :: b :: c :: d :: rest =>
    match Hex.read 0 [a, b, c, d] with
    | some n => let (pieces, rest) := scanString rest; (pieces.map (.unit n :: ·), rest)
    | none => (none, [])
  | '\\' :: e :: rest =>
    match unescape? e with
    | some c => let (pieces, rest) := scanString rest; (pieces.map (.char c :: ·), rest)
    | none => (none, [])
  | c :: rest =>
    if c.toNat < 0x20 ∨ c = '\\' then (none, [])
    else let (pieces, rest) := scanString rest; (pieces.map (.char c :: ·), rest)

theorem length_scanString_le (cs : List Char) : (scanString cs).2.length ≤ cs.length := by
  fun_induction scanString cs <;> simp_all <;> omega

/-- Whether sixteen bits are the first half of a pair. -/
def isHigh (n : Nat) : Bool := 0xD800 ≤ n && n < 0xDC00

/-- Whether sixteen bits are the second half of a pair. -/
def isLow (n : Nat) : Bool := 0xDC00 ≤ n && n < 0xE000

/-- The characters of a string, unless half of a pair stands alone. -/
def pairUp : List Piece → Option (List Char)
  | [] => some []
  | .char c :: rest => (pairUp rest).map (c :: ·)
  | .unit high :: .unit low :: rest =>
    if isHigh high then
      if isLow low then
        (pairUp rest).map (Char.ofNat (0x10000 + 0x400 * (high - 0xD800) + (low - 0xDC00)) :: ·)
      else none
    else if isLow high then none
    else (pairUp (.unit low :: rest)).map (Char.ofNat high :: ·)
  | .unit n :: rest =>
    if isHigh n || isLow n then none else (pairUp rest).map (Char.ofNat n :: ·)

/-- The token of a string's parts. -/
def ofPieces (pieces : List Piece) : Token :=
  .string ((pairUp pieces).map String.ofList)

/-! ### Numbers -/

/-- The decimal digits at the start of a text, and the text after them. -/
def scanDigits (cs : List Char) : List Nat × List Char :=
  ((cs.takeWhile Char.isDigit).map fun c => c.toNat - '0'.toNat, cs.dropWhile Char.isDigit)

theorem length_scanDigits_le (cs : List Char) : (scanDigits cs).2.length ≤ cs.length :=
  (List.dropWhile_sublist _).length_le

/-- The fraction after the integral digits, if there is one; `none` when a point stands without
digits. -/
def scanFraction : List Char → Option (List Nat) × List Char
  | '.' :: rest =>
    let (ds, rest) := scanDigits rest
    (if ds.isEmpty then none else some ds, rest)
  | cs => (some [], cs)

theorem length_scanFraction_le (cs : List Char) : (scanFraction cs).2.length ≤ cs.length := by
  unfold scanFraction
  split
  · next rest => exact Nat.le_succ_of_le (length_scanDigits_le rest)
  · exact Nat.le_refl _

/-- The sign and digits of an exponent. -/
def scanPower (negative : Bool) (cs : List Char) : Option (Option (Bool × List Nat)) × List Char :=
  let (ds, rest) := scanDigits cs
  (if ds.isEmpty then none else some (some (negative, ds)), rest)

theorem length_scanPower_le (negative : Bool) (cs : List Char) :
    (scanPower negative cs).2.length ≤ cs.length :=
  length_scanDigits_le cs

/-- The exponent at the end of a numeral, if there is one; `none` when its digits are missing. -/
def scanExponent : List Char → Option (Option (Bool × List Nat)) × List Char
  | c :: rest =>
    if c = 'e' ∨ c = 'E' then
      match rest with
      | '+' :: rest => scanPower false rest
      | '-' :: rest => scanPower true rest
      | rest => scanPower false rest
    else (some none, c :: rest)
  | [] => (some none, [])

theorem length_scanExponent_le (cs : List Char) : (scanExponent cs).2.length ≤ cs.length := by
  unfold scanExponent
  split
  · next c rest =>
    split
    · split
      · next rest => exact Nat.le_trans (length_scanPower_le false rest) (by simp; omega)
      · next rest => exact Nat.le_trans (length_scanPower_le true rest) (by simp; omega)
      · exact Nat.le_succ_of_le (length_scanPower_le false rest)
    · exact Nat.le_refl _
  · exact Nat.le_refl _

/-- A numeral after its sign and first digit. It begins with a zero only if that is its one
integral digit. -/
def scanNumeral (negative : Bool) (first : Char) (cs : List Char) : Token × List Char :=
  let (more, rest) := scanDigits cs
  let (fraction, rest') := scanFraction rest
  let (exponent, rest'') := scanExponent rest'
  if first = '0' ∧ more ≠ [] then (.broken, rest'')
  else match fraction, exponent with
    | some fraction, some exponent =>
      let numeral : Numeral :=
        { negative
          whole := (first.toNat - '0'.toNat) :: more
          fraction
          exponent
          fractional := !fraction.isEmpty || exponent.isSome }
      (.scalar (numeral.toNumber?.elim .unreadable .number), rest'')
    | _, _ => (.broken, rest'')

theorem length_scanNumeral_le (negative : Bool) (first : Char) (cs : List Char) :
    (scanNumeral negative first cs).2.length ≤ cs.length := by
  have h₁ := length_scanDigits_le cs
  have h₂ := length_scanFraction_le (scanDigits cs).2
  have h₃ := length_scanExponent_le (scanFraction (scanDigits cs).2).2
  unfold scanNumeral
  simp only
  split
  · simp only; omega
  · split <;> simp only <;> omega

/-! ### The tokenizer -/

/-- The rest of a literal name. -/
def scanName (name : List Char) (value : Document) (cs : List Char) : Token × List Char :=
  if cs.take name.length = name then (.scalar value, cs.drop name.length) else (.broken, [])

theorem length_scanName_le (name : List Char) (value : Document) (cs : List Char) :
    (scanName name value cs).2.length ≤ cs.length := by
  unfold scanName
  split <;> simp

/-- The token that begins with `c`, and the text after it. -/
def scan (c : Char) (cs : List Char) : Token × List Char :=
  match c with
  | '[' => (.openList, cs)
  | ']' => (.closeList, cs)
  | '\x7b' => (.openObject, cs)
  | '\x7d' => (.closeObject, cs)
  | ',' => (.comma, cs)
  | ':' => (.colon, cs)
  | '"' => ((scanString cs).1.elim .broken ofPieces, (scanString cs).2)
  | 'n' => scanName ['u', 'l', 'l'] .null cs
  | 't' => scanName ['r', 'u', 'e'] (.bool true) cs
  | 'f' => scanName ['a', 'l', 's', 'e'] (.bool false) cs
  | '-' =>
    match cs with
    | [] => (.broken, [])
    | first :: rest => if first.isDigit then scanNumeral true first rest else (.broken, rest)
  | first => if first.isDigit then scanNumeral false first cs else (.broken, cs)

theorem length_scan_le (c : Char) (cs : List Char) : (scan c cs).2.length ≤ cs.length := by
  unfold scan
  split
  case h_7 => exact length_scanString_le cs
  case h_8 => exact length_scanName_le _ _ cs
  case h_9 => exact length_scanName_le _ _ cs
  case h_10 => exact length_scanName_le _ _ cs
  case h_11 =>
    split
    · exact Nat.le_refl _
    · next first rest =>
      split
      · exact Nat.le_succ_of_le (length_scanNumeral_le true first rest)
      · simp
  case h_12 =>
    split
    · exact length_scanNumeral_le false _ cs
    · exact Nat.le_refl _
  all_goals exact Nat.le_refl _

/-- The tokens of a text. -/
def tokenize : List Char → List Token
  | [] => []
  | c :: cs =>
    if isBlank c then tokenize cs
    else match _h : scan c cs with
      | (.broken, _) => [.broken]
      | (token, rest) => token :: tokenize rest
termination_by cs => cs.length
decreasing_by
  · simp
  · have h := length_scan_le c cs
    rw [_h] at h
    exact Nat.lt_succ_of_le h

end Token
end PolicyDecision
