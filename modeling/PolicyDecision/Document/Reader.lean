import PolicyDecision.Document.Token

/-!
# Reading documents

A text is read token by token with the open lists and objects kept on a stack, innermost first.
A token that does not fit, or the end of the text, leaves the document read so far: every open
list and object is kept with the parts it has, marked as not closed.

Reading never fails. Whether the text was sound is found when the document is decoded, and what
stands after the document is reported beside it.
-/

namespace PolicyDecision.Document

/-- An open list or object, its parts in reverse; an open object waits for the value of a field. -/
inductive Frame
  | list (items : List Document)
  | object (fields : List (Option String × Document)) (key : Option String)

/-- What may come next. -/
inductive State
  /-- A value. -/
  | value (frames : List Frame)
  /-- The first item of a list, or its end. -/
  | firstItem (below : List Frame)
  /-- The first name in an object, or its end. -/
  | firstKey (below : List Frame)
  /-- Another name in an object. -/
  | nextKey (fields : List (Option String × Document)) (below : List Frame)
  /-- The colon after a name. -/
  | colon (fields : List (Option String × Document)) (key : Option String) (below : List Frame)
  /-- A comma or an end, after a value. -/
  | after (value : Document) (frames : List Frame)
  /-- Nothing: the document broke off. -/
  | stuck (document : Document)
  /-- Nothing: text stands after the document. -/
  | trailing (document : Document)

/-- The whole document when its innermost part breaks off. -/
def unwind (part : Document) : List Frame → Document
  | [] => part
  | .list items :: below => unwind (.list (part :: items).reverse false) below
  | .object fields key :: below => unwind (.object ((key, part) :: fields).reverse false) below

/-- A finished list or object above the given open ones, marked if it is too deep. -/
def enclosed (limit : Nat) (below : List Frame) (d : Document) : Document :=
  if below.length < limit then d else .deep d

/-- Read a token where a value is expected. -/
def State.onValue (frames : List Frame) : Token → State
  | .string s => .after (s.elim .unreadable .string) frames
  | .scalar d => .after d frames
  | .openList => .firstItem frames
  | .openObject => .firstKey frames
  | _ => .stuck (unwind .broken frames)

/-- Read a token where a name is expected. -/
def State.onKey (fields : List (Option String × Document)) (below : List Frame) : Token → State
  | .string key => .colon fields key below
  | _ => .stuck (unwind (.object fields.reverse false) below)

/-- Read one token. Lists and objects nested deeper than `limit` are marked. -/
def State.step (limit : Nat) : State → Token → State
  | .value frames, t => onValue frames t
  | .firstItem below, .closeList => .after (enclosed limit below (.list [] true)) below
  | .firstItem below, t => onValue (.list [] :: below) t
  | .firstKey below, .closeObject => .after (enclosed limit below (.object [] true)) below
  | .firstKey below, t => onKey [] below t
  | .nextKey fields below, t => onKey fields below t
  | .colon fields key below, .colon => .value (.object fields key :: below)
  | .colon fields key below, _ => .stuck (unwind .broken (.object fields key :: below))
  | .after d (.list items :: below), .comma => .value (.list (d :: items) :: below)
  | .after d (.list items :: below), .closeList =>
    .after (enclosed limit below (.list (d :: items).reverse true)) below
  | .after d (.object fields key :: below), .comma => .nextKey ((key, d) :: fields) below
  | .after d (.object fields key :: below), .closeObject =>
    .after (enclosed limit below (.object ((key, d) :: fields).reverse true)) below
  | .after d [], _ => .trailing d
  | .after d frames, _ => .stuck (unwind d frames)
  | .stuck d, _ => .stuck d
  | .trailing d, _ => .trailing d

/-- The document when the text ends, and whether it is the whole text. -/
def State.finish : State → Document × Bool
  | .value frames => (unwind .broken frames, true)
  | .firstItem below => (unwind (.list [] false) below, true)
  | .firstKey below => (unwind (.object [] false) below, true)
  | .nextKey fields below => (unwind (.object fields.reverse false) below, true)
  | .colon fields key below => (unwind .broken (.object fields key :: below), true)
  | .after d frames => (unwind d frames, true)
  | .stuck d => (d, true)
  | .trailing d => (d, false)

/-- The deepest nesting that is read. -/
def depthLimit : Nat := 127

/-- The document at the start of a text, and whether nothing but blanks follows it. -/
def read (limit : Nat) (text : String) : Document × Bool :=
  ((Token.tokenize text.toList).foldl (State.step limit) (.value [])).finish

end PolicyDecision.Document

namespace PolicyDecision.Json

/-- The value that a text spells, if it is JSON. -/
def parse? (limit : Nat) (text : String) : Option Json :=
  match Document.read limit text with
  | (d, true) => d.value?
  | (_, false) => none

end PolicyDecision.Json
