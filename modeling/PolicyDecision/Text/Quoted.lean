import PolicyDecision.Text.Invisible

/-!
# Quoted names

Names in log lines stand in quotation marks. Quotation marks, backslashes and characters that
cannot be seen are escaped, the latter by their code point in braces.
-/

namespace PolicyDecision.Text

/-- A code point in lower-case hexadecimal. -/
def codePoint (c : Char) : List Char :=
  Nat.toDigits 16 c.toNat

/-- A character of a quoted name. -/
def quoteChar (c : Char) : List Char :=
  match c with
  | '\x00' => ['\\', '0']
  | '\t' => ['\\', 't']
  | '\n' => ['\\', 'n']
  | '\r' => ['\\', 'r']
  | '"' => ['\\', '"']
  | '\\' => ['\\', '\\']
  | c =>
    if isInvisible c then ['\\', 'u', '\x7b'] ++ codePoint c ++ ['\x7d'] else [c]

/-- A name in quotation marks. -/
def quoted (name : String) : String :=
  "\"" ++ String.ofList (name.toList.flatMap quoteChar) ++ "\""

/-- A list of quoted names in brackets. -/
def quotedList (names : List String) : String :=
  "[" ++ ", ".intercalate (names.map quoted) ++ "]"

end PolicyDecision.Text
