import PolicyDecision.Json

/-!
# Free-form attributes

Entities and resources carry attributes beside their own fields: named JSON values, each name
once, in increasing order.
-/

namespace PolicyDecision

/-- Named values in increasing order of the names. -/
structure Attributes where
  fields : List (String × Json)
  increasing : Fields.Increasing fields := by simp [Fields.Increasing]

namespace Attributes

def empty : Attributes := { fields := [] }

/-- Set an attribute, replacing one of the same name. -/
def insert (a : Attributes) (key : String) (value : Json) : Attributes :=
  ⟨Fields.insert key value a.fields, Fields.increasing_insert key value a.increasing⟩

def get? (a : Attributes) (key : String) : Option Json :=
  a.fields.lookup key

/-- The attributes given by a list of pairs; a later pair replaces an earlier one. -/
def ofList (pairs : List (String × Json)) : Attributes :=
  pairs.foldl (fun a pair => a.insert pair.1 pair.2) empty

instance : BEq Attributes := ⟨fun a b => Json.sameFields a.fields b.fields⟩

@[simp] theorem get?_empty (key : String) : empty.get? key = none := rfl

theorem get?_insert (a : Attributes) (key k : String) (value : Json) :
    (a.insert key value).get? k = if k = key then some value else a.get? k :=
  Fields.lookup_insert key k value a.fields

end Attributes
end PolicyDecision
