import PolicyDecision.Proofs.Meaning

/-!
# Custom keys that are named like built-in ones

A custom key shadows a built-in one if it has the name of one that may stand in its place: among the clauses
of a restrictor `id` and `subof`, among the conditions of a tree the others. The search for such a key goes
through the custom keys in the order in which they are met, and finds the first (`Tree.shadowedBuiltin?_eq`).
So it misses none, however deep (`Tree.shadowedBuiltin?_eq_none_iff`).
-/

namespace PolicyDecision

namespace CustomKey

def name : CustomKey → String
  | .clause name _ | .condition name _ => name

/-- The built-in keys that may stand in the place of a custom key. -/
def builtins : CustomKey → List String
  | .clause _ _ => Clause.builtins
  | .condition _ _ => Condition.builtins

/-- The key is named like a built-in one. -/
def Shadows (key : CustomKey) : Prop :=
  key.name ∈ key.builtins

instance (key : CustomKey) : Decidable key.Shadows :=
  inferInstanceAs (Decidable (key.name ∈ key.builtins))

/-- The name of the key, if it is that of a built-in one. -/
def shadowed? (key : CustomKey) : Option String :=
  if key.Shadows then some key.name else none

theorem shadowed?_eq_none_iff {key : CustomKey} : key.shadowed? = none ↔ ¬key.Shadows := by
  rw [shadowed?, ite_eq_right_iff]
  simp

theorem shadowed?_eq_some_iff {key : CustomKey} {found : String} :
    key.shadowed? = some found ↔ key.Shadows ∧ key.name = found := by
  rw [shadowed?]
  split <;> simp [*]

end CustomKey

theorem Restrictor.shadowedBuiltin?_eq (restrictor : Restrictor) :
    restrictor.shadowedBuiltin? = restrictor.customKeys.findSome? CustomKey.shadowed? := by
  cases restrictor with
  | wildcard => rfl
  | noOwner => rfl
  | all clauses =>
    rw [shadowedBuiltin?, customKeys]
    induction clauses with
    | nil => rfl
    | cons clause clauses ih =>
      rw [List.findSome?_cons, List.flatMap_cons, List.findSome?_append, ih]
      cases clause with
      | id target => rfl
      | subOf target => rfl
      | custom name arg =>
        rw [Clause.customKeys, List.findSome?_singleton, CustomKey.shadowed?]
        by_cases hname : name ∈ Clause.builtins
        · simp [CustomKey.Shadows, CustomKey.name, CustomKey.builtins, hname]
        · simp [CustomKey.Shadows, CustomKey.name, CustomKey.builtins, hname]

mutual

theorem Condition.shadowedBuiltin?_eq : (condition : Condition) →
    condition.shadowedBuiltin? = condition.customKeys.findSome? CustomKey.shadowed?
  | .requester restrictor => by
    rw [Condition.shadowedBuiltin?, Condition.customKeys, Restrictor.shadowedBuiltin?_eq]
  | .resourceId id => by
    rw [Condition.shadowedBuiltin?, Condition.customKeys] <;> first | rfl | nofun
  | .access allowed => by
    rw [Condition.shadowedBuiltin?, Condition.customKeys] <;> first | rfl | nofun
  | .not tree => by
    rw [Condition.shadowedBuiltin?, Condition.customKeys, Tree.shadowedBuiltin?_eq tree]
  | .nor trees => by
    rw [Condition.shadowedBuiltin?, Condition.customKeys, Tree.shadowedBuiltinList?_eq trees]
  | .or trees => by
    rw [Condition.shadowedBuiltin?, Condition.customKeys, Tree.shadowedBuiltinList?_eq trees]
  | .and trees => by
    rw [Condition.shadowedBuiltin?, Condition.customKeys, Tree.shadowedBuiltinList?_eq trees]
  | .custom name arg => by
    rw [Condition.shadowedBuiltin?, Condition.customKeys, List.findSome?_singleton]
    rfl

/-- **The search goes through the custom keys in order.** -/
theorem Tree.shadowedBuiltin?_eq : (tree : Tree) →
    Tree.shadowedBuiltin? tree = (Tree.customKeys tree).findSome? CustomKey.shadowed?
  | [] => by rw [Tree.shadowedBuiltin?, Tree.customKeys]; rfl
  | condition :: conditions => by
    rw [Tree.shadowedBuiltin?, Tree.customKeys, List.findSome?_append,
      Condition.shadowedBuiltin?_eq condition, Tree.shadowedBuiltin?_eq conditions]

theorem Tree.shadowedBuiltinList?_eq : (trees : List Tree) →
    Tree.shadowedBuiltinList? trees = (Tree.customKeysOfEach trees).findSome? CustomKey.shadowed?
  | [] => by rw [Tree.shadowedBuiltinList?, Tree.customKeysOfEach]; rfl
  | tree :: trees => by
    rw [Tree.shadowedBuiltinList?, Tree.customKeysOfEach, List.findSome?_append,
      Tree.shadowedBuiltin?_eq tree, Tree.shadowedBuiltinList?_eq trees]

end

/-- **No key at any depth is missed.** -/
theorem Tree.shadowedBuiltin?_eq_none_iff {tree : Tree} :
    Tree.shadowedBuiltin? tree = none ↔ ∀ key ∈ Tree.customKeys tree, ¬key.Shadows := by
  rw [Tree.shadowedBuiltin?_eq, List.findSome?_eq_none_iff]
  simp only [CustomKey.shadowed?_eq_none_iff]

/-- What is found is the name of a key that shadows a built-in one. -/
theorem Tree.shadows_of_shadowedBuiltin? {tree : Tree} {name : String}
    (h : Tree.shadowedBuiltin? tree = some name) :
    ∃ key ∈ Tree.customKeys tree, key.Shadows ∧ key.name = name := by
  rw [Tree.shadowedBuiltin?_eq] at h
  obtain ⟨key, hkey, hname⟩ := List.exists_of_findSome?_eq_some h
  exact ⟨key, hkey, CustomKey.shadowed?_eq_some_iff.1 hname⟩

end PolicyDecision
