import PolicyDecision.Proofs.Operators
import PolicyDecision.Proofs.Shadowing
import PolicyDecision.Proofs.Valuation

/-!
# When no leaf fails

A leaf can fail because something is not stored or because a custom test fails. Where neither happens
(`Fair`), every leaf of a tree answers whose custom keys are not at fault (`Fair.sure`).

No reserved name is registered (`Registry.Lawful`), so a custom key that is named like a built-in one is
always at fault (`Tree.unshadowed_of_faultless`).
-/

namespace PolicyDecision

/-! ### Reserved names -/

/-- The names of built-in keys are reserved, and none of them is registered. -/
structure Registry.Lawful (registry : Registry) : Prop where
  entityNames : registry.entityOps.reserved = Clause.builtins
  contextNames : registry.contextOps.reserved = Condition.builtins
  entityOps : registry.entityOps.Lawful
  contextOps : registry.contextOps.Lawful

theorem Registry.lawful_empty : ({} : Registry).Lawful :=
  ⟨rfl, rfl, fun _ _ => rfl, fun _ _ => rfl⟩

/-- None of these keys is at fault. -/
def Registry.Faultless (registry : Registry) (keys : List CustomKey) : Prop :=
  ∀ key ∈ keys, registry.fault? key = none

theorem Operators.find?_of_faultless {α : Type} {ops : Operators α} {name : String} {arg : Json}
    (h : ops.fault? name arg = none) :
    ∃ factory test, ops.find? name = some factory ∧ factory arg = .ok test := by
  rw [fault?] at h
  cases hfind : ops.find? name with
  | none =>
    rw [hfind] at h
    cases h
  | some factory =>
    rw [hfind] at h
    cases hmade : factory arg with
    | error e =>
      simp only [hmade] at h
      cases h
    | ok test => exact ⟨factory, test, rfl, hmade⟩

/-- A key that shadows a built-in one is at fault: its name is not registered. -/
theorem Registry.Lawful.fault?_of_shadows {registry : Registry} (h : registry.Lawful) {key : CustomKey}
    (hkey : key.Shadows) : registry.fault? key = some (.unknownOperator key.name) := by
  cases key with
  | clause name arg =>
    have hfind : registry.entityOps.find? name = none :=
      h.entityOps name (h.entityNames ▸ hkey)
    rw [fault?, Operators.fault?, hfind]
    rfl
  | condition name arg =>
    have hfind : registry.contextOps.find? name = none :=
      h.contextOps name (h.contextNames ▸ hkey)
    rw [fault?, Operators.fault?, hfind]
    rfl

/-- **A tree without faults has no shadowed key.** -/
theorem Tree.unshadowed_of_faultless {registry : Registry} (hlawful : registry.Lawful) (tree : Tree)
    (h : registry.Faultless (Tree.customKeys tree)) : Tree.shadowedBuiltin? tree = none := by
  rw [Tree.shadowedBuiltin?_eq_none_iff]
  intro key hkey hshadows
  have hfault := hlawful.fault?_of_shadows hshadows
  rw [h key hkey] at hfault
  cases hfault

/-! ### Leaves that answer -/

/-- A test that a factory makes answers, whatever its subject. -/
def Operators.NeverFails {α : Type} (ops : Operators α) : Prop :=
  ∀ name factory arg test, ops.find? name = some factory → factory arg = .ok test →
    ∀ subject, ∃ b, test subject = .ok b

/-- The parents of stored entities are stored, and so is the requester; and no custom test fails. -/
structure Fair (registry : Registry) (entities : Table Entity) (requester : EntityId) : Prop where
  parents : ∀ x y, entities.Parent x y → entities.Stored y
  requester : entities.Stored requester
  entityOps : registry.entityOps.NeverFails
  contextOps : registry.contextOps.NeverFails

theorem Operators.ask_of_faultless {α : Type} {ops : Operators α} (h : ops.NeverFails) {name : String}
    {arg : Json} (hfault : ops.fault? name arg = none) (subject : α) :
    ∃ b, ops.ask name arg subject = .ok b := by
  obtain ⟨factory, test, hfind, hmade⟩ := find?_of_faultless hfault
  obtain ⟨b, hb⟩ := h name factory arg test hfind hmade subject
  refine ⟨b, ?_⟩
  rw [ask, hfind]
  simp only [hmade]
  exact hb

namespace Fair

variable {registry : Registry} {entities : Table Entity} {context : Context}
  (h : Fair registry entities context.requester)
include h

/-- A clause about the requester answers. -/
theorem clause_answers {requester : Entity} (hrequester : entities.find? requester.id = some requester)
    {clause : Clause} (hfaultless : registry.Faultless clause.customKeys) :
    ∃ b, (clause.holds registry.entityOps requester ⟨entities, none⟩).result = .ok b := by
  cases clause with
  | id target => exact ⟨_, rfl⟩
  | subOf target =>
    -- The walk starts from the entity at hand, which is the stored one.
    have hresolves := Table.resolves_of_parents h.parents ⟨requester, hrequester⟩
    rw [← Table.upsert_of_find? hrequester] at hresolves
    obtain ⟨b, hb⟩ := Graph.isSubOf_answers hresolves target
    rw [Clause.holds, Act.bind_ok (a := ()) rfl]
    exact ⟨b, hb⟩
  | custom name arg =>
    have hfault : registry.entityOps.fault? name arg = none :=
      hfaultless (.clause name arg) List.mem_cons_self
    obtain ⟨b, hb⟩ := Operators.ask_of_faultless h.entityOps hfault requester
    exact ⟨b, hb⟩

/-- **No leaf fails.** -/
theorem sure {leaves : List Leaf} (hfaultless : registry.Faultless (leaves.filterMap Leaf.customKey?)) :
    (registry.valuation entities context).Sure leaves := by
  intro leaf hleaf
  obtain ⟨requester, hrequester⟩ := h.requester
  cases leaf with
  | requester => exact ⟨true, by rw [Registry.valuation, hrequester]; rfl⟩
  | resourceId id => exact ⟨_, rfl⟩
  | access allowed => exact ⟨_, rfl⟩
  | custom name arg =>
    have hfault : registry.contextOps.fault? name arg = none :=
      hfaultless (.condition name arg) (List.mem_filterMap.2 ⟨_, hleaf, rfl⟩)
    obtain ⟨b, hb⟩ := Operators.ask_of_faultless h.contextOps hfault context
    exact ⟨b, by rw [Registry.valuation, hb]; rfl⟩
  | clause clause =>
    have hstored : entities.find? requester.id = some requester := by
      rwa [show requester.id = context.requester from Table.idOf_of_find? hrequester]
    have hclause : registry.Faultless clause.customKeys := by
      intro key hkey
      cases clause with
      | id target => cases hkey
      | subOf target => cases hkey
      | custom name arg =>
        rw [List.mem_singleton.1 hkey]
        exact hfaultless (.clause name arg) (List.mem_filterMap.2 ⟨_, hleaf, rfl⟩)
    obtain ⟨b, hb⟩ := h.clause_answers hstored hclause
    refine ⟨b, ?_⟩
    rw [Registry.valuation, hrequester, Option.bind_some, hb]
    rfl

theorem sure_tree {tree : Tree} (hfaultless : registry.Faultless (Tree.customKeys tree)) :
    (registry.valuation entities context).Sure (Tree.leaves tree) := by
  rw [Tree.customKeys_eq] at hfaultless
  exact h.sure hfaultless

end Fair
end PolicyDecision
