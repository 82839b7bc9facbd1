import PolicyDecision.Act

/-!
# Custom operators

Restrictors and condition trees may have keys beyond the built-in ones. Each such key is looked
up among the registered operators: a factory takes the value under the key and makes a test of
it. Built-in keys are reserved and cannot be registered.
-/

namespace PolicyDecision

/-- A test of a subject. It is a function of the subject alone: it keeps no state, so it answers alike
whenever the same subject is put to it. -/
abbrev Test (α : Type) := α → Except Error Bool

/-- Makes a test of the value under a key. What it makes, or the error with which it refuses the value,
is a function of that value, with no state either. -/
abbrev Factory (α : Type) := Json → Except Error (Test α)

/-- Factories by name, each name once. -/
structure Operators (α : Type) where
  reserved : List String
  entries : List (String × Factory α) := []

namespace Operators

variable {α : Type}

/-- The factory registered under a name. -/
def find? (ops : Operators α) (name : String) : Option (Factory α) :=
  ops.entries.lookup name

def contains (ops : Operators α) (name : String) : Bool :=
  (ops.find? name).isSome

def size (ops : Operators α) : Nat :=
  ops.entries.length

/-- Register a factory, replacing one of the same name. -/
def insert (ops : Operators α) (name : String) (factory : Factory α) :
    Except Error (Operators α) :=
  if name ∈ ops.reserved then .error (.invalidInput (.reserved name))
  else .ok { ops with
    entries := ops.entries.filter (fun entry => entry.1 ≠ name) ++ [(name, factory)] }

/-- Register several factories. The first reserved name ends this; what was registered before it
stays. -/
def extend : List (String × Factory α) → Act (Operators α) Unit
  | [] => return
  | (name, factory) :: rest => do
    set (← Act.ofExcept ((← get).insert name factory))
    extend rest

/-- Make a test of a value by the factory of a name. -/
def build (ops : Operators α) (name : String) (arg : Json) : Audited (Test α) :=
  match ops.find? name with
  | none => throw (.unknownOperator name)
  | some factory => do
    Act.record (.built name arg)
    Act.ofExcept (factory arg)

end Operators
end PolicyDecision
