import PolicyDecision.Document.Decoding

/-!
# Files

A file that is not there, and one that does not hold UTF-8 text, is an input error; what its text
says is decoded as any other text.
-/

namespace PolicyDecision.File

/-- The text of a file, given its bytes if there is such a file. -/
def text (bytes : Option ByteArray) : Except Error String :=
  match bytes.bind String.fromUTF8? with
  | some text => .ok text
  | none => .error .io

/-- The document in a file. -/
def decode {α : Type} (decode : Source → Document → Decoded α) (bytes : Option ByteArray) :
    Except Error α := do
  (decodeText decode (← text bytes)).mapError .serialization

end PolicyDecision.File
