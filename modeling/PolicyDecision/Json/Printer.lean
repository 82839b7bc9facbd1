import PolicyDecision.Binary64.Shortest
import PolicyDecision.Json

/-!
# Printed values

`Json.compact` writes a value without blanks, which is how a value appears inside messages, in
files, and as the key under which a compiled condition is remembered. Two values share a key
exactly when they are printed alike.

Floating-point numbers are written with the fewest digits that read back and always with a
point or an exponent, so that they are never mistaken for integers.
-/

namespace PolicyDecision

namespace Number

/-- How a floating-point number is laid out: positional notation between two exponents of the
leading digit, and outside of them an exponent with a sign. -/
structure Layout where
  leastPositional : Int
  greatestPositional : Int

/-- Numbers from `0.00001` up to sixteen integral digits are written without an exponent. -/
def layout : Layout := ⟨-5, 15⟩

/-- The digits of a natural number without its trailing zeros. -/
def significant (n : Nat) : List Char :=
  ((Nat.toDigits 10 n).reverse.dropWhile (· == '0')).reverse

/-- Write digits whose first one stands for `10 ^ exponent`. -/
def Layout.write (l : Layout) (ds : List Char) (exponent : Int) : List Char :=
  if l.leastPositional ≤ exponent ∧ exponent ≤ l.greatestPositional then
    if 0 ≤ exponent then
      let whole := exponent.toNat + 1
      let fraction := ds.drop whole
      ds.take whole ++ List.replicate (whole - ds.length) '0' ++
        '.' :: (if fraction.isEmpty then ['0'] else fraction)
    else '0' :: '.' :: List.replicate ((-exponent).toNat - 1) '0' ++ ds
  else
    let mantissa := match ds with
      | d :: fraction@(_ :: _) => d :: '.' :: fraction
      | _ => ds
    let sign := if 0 ≤ exponent then '+' else '-'
    mantissa ++ 'e' :: sign :: Nat.toDigits 10 exponent.natAbs

/-- The text of a floating-point number. -/
def floatText (x : Binary64) : List Char :=
  let sign := if x.negative then ['-'] else []
  if x.mantissa = 0 then sign ++ ['0', '.', '0'] else
  let d := x.shortest
  let exponent : Int := d.exponent + (Nat.toDigits 10 d.digits).length - 1
  sign ++ layout.write (significant d.digits) exponent

/-- The text of a number. -/
def text : Number → String
  | .int n => toString n
  | .float x => String.ofList (floatText x)

end Number

namespace Json

/-- Write a character of a string: the quotation mark, the backslash and the control characters
are escaped, all else stands for itself. -/
def escape (c : Char) : List Char :=
  if c = '"' then ['\\', '"']
  else if c = '\\' then ['\\', '\\']
  else if c = '\x08' then ['\\', 'b']
  else if c = '\x0c' then ['\\', 'f']
  else if c = '\n' then ['\\', 'n']
  else if c = '\r' then ['\\', 'r']
  else if c = '\t' then ['\\', 't']
  else if c.toNat < 0x20 then
    ['\\', 'u', '0', '0', Nat.digitChar (c.toNat / 16), Nat.digitChar (c.toNat % 16)]
  else [c]

/-- A string in quotation marks. -/
def quote (s : String) : String :=
  "\"" ++ String.ofList (s.toList.flatMap escape) ++ "\""

/-- Texts with commas between them. -/
def commas (texts : List String) : String :=
  String.intercalate "," texts

mutual

/-- The value without blanks. -/
def compact : Json → String
  | .null => "null"
  | .bool true => "true"
  | .bool false => "false"
  | .number n => n.text
  | .string s => quote s
  | .array items => "[" ++ commas (compactItems items) ++ "]"
  | .object fields => "\x7b" ++ commas (compactFields fields) ++ "\x7d"

def compactItems : List Json → List String
  | [] => []
  | item :: items => item.compact :: compactItems items

def compactFields : List (String × Json) → List String
  | [] => []
  | (key, value) :: fields => (quote key ++ ":" ++ value.compact) :: compactFields fields

end

instance : ToString Json := ⟨compact⟩

end Json
end PolicyDecision
