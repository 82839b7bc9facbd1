import PolicyDecision.Uuid

/-!
# Typed identifiers

Entities, resources and policies are named by identifiers of three distinct types, so that
an entity's identifier cannot be taken for a policy's.
-/

namespace PolicyDecision

/-- The three kinds of document. -/
inductive Kind
  | entity
  | resource
  | policy
  deriving DecidableEq

/-- The word for a kind of document in messages. -/
def Kind.name : Kind → String
  | .entity => "entity"
  | .resource => "resource"
  | .policy => "policy"

/-- The identifier of a document of one kind. -/
structure Id (kind : Kind) where
  uuid : Uuid
  deriving DecidableEq

abbrev EntityId := Id .entity
abbrev ResourceId := Id .resource
abbrev PolicyId := Id .policy

namespace Id

variable {kind : Kind}

instance : LT (Id kind) := ⟨fun a b => a.uuid < b.uuid⟩

instance (a b : Id kind) : Decidable (a < b) := inferInstanceAs (Decidable (a.uuid < b.uuid))

theorem lt_trans {a b c : Id kind} (hab : a < b) (hbc : b < c) : a < c :=
  Uuid.lt_trans hab hbc

theorem lt_irrefl (a : Id kind) : ¬a < a :=
  Uuid.lt_irrefl _

theorem eq_of_not_lt {a b : Id kind} (hab : ¬a < b) (hba : ¬b < a) : a = b := by
  cases a; cases b; simpa using Uuid.eq_of_not_lt hab hba

instance : ToString (Id kind) := ⟨fun id => id.uuid.toString⟩

/-- Read any written form of an identifier. -/
def parse? (kind : Kind) (text : String) : Option (Id kind) :=
  (Uuid.parse? text).map Id.mk

end Id
end PolicyDecision
