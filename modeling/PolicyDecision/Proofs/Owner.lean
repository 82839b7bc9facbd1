import PolicyDecision.Proofs.Relevance
import PolicyDecision.Proofs.Wording

/-!
# Restrictors on owners and on requesters

A restrictor is read in two ways. As the owner of a selector it is compared with the closure of the
owner, which includes the owner and is found before any policy is looked at. As a condition on an
entity it is a predicate, which recognises the parents of the entity without a walk and else looks for
the target in a closure that leaves the entity out, unless a cycle leads back to it.

What a restrictor without custom clauses accepts is `Restrictor.AcceptsOwner`, in terms of what can be
reached. Both readings are shown to say so, and therefore agree (`Restrictor.selects_iff_holds`).
-/

namespace PolicyDecision

variable {entities : Table Entity} {entity : Entity}

/-! ### Restrictors on an entity -/

section Holds

variable (hstored : entities.find? entity.id = some entity) (hresolves : entities.Resolves entity.id)
  (ops : Operators Entity)
include hstored

/-- A stored entity meets a clause if the clause accepts it as an owner. -/
theorem Clause.isMet_iff {clause : Clause} (hplain : clause.customKeys = []) :
    clause.IsMet entities ops entity ↔ clause.AcceptsOwner entities entity.id := by
  cases clause with
  | id target => exact eq_comm
  | subOf target => rw [IsMet, Table.upsert_of_find? hstored, AcceptsOwner]
  | custom name arg => cases hplain

include hresolves

theorem Clause.isTold_of_resolves {clause : Clause} (hplain : clause.customKeys = []) :
    clause.IsTold entities ops entity := by
  cases clause with
  | id target => exact ⟨_, rfl⟩
  | subOf target =>
    have hsame : entities.upsert entity = entities := Table.upsert_of_find? hstored
    exact Graph.isSubOf_answers (hsame.symm ▸ hresolves) target
  | custom name arg => cases hplain

/-- **A restrictor holds of a stored entity if it accepts the entity as an owner**, and asking for it
does not fail. -/
theorem Restrictor.holds_answers {restrictor : Restrictor} (hplain : restrictor.customKeys = []) :
    ∃ holds, (restrictor.holds ops entity ⟨entities, none⟩).result = .ok holds ∧
      (holds = true ↔ restrictor.AcceptsOwner entities (some entity.id)) := by
  cases restrictor with
  | wildcard => exact ⟨true, rfl, by simp [AcceptsOwner]⟩
  | noOwner => exact ⟨false, rfl, by simp [AcceptsOwner]⟩
  | all clauses =>
    have hclauses : ∀ clause ∈ clauses, clause.customKeys = [] := List.flatMap_eq_nil_iff.1 hplain
    obtain ⟨hsound, htold⟩ := Clause.allHold_told entities entity ops clauses
    obtain ⟨holds, hholds⟩ := htold fun clause hclause =>
      Clause.isTold_of_resolves hstored hresolves ops (hclauses clause hclause)
    refine ⟨holds, hholds, (hsound holds hholds).trans ?_⟩
    have hmet : (∀ clause ∈ clauses, clause.IsMet entities ops entity) ↔
        ∀ clause ∈ clauses, clause.AcceptsOwner entities entity.id :=
      forall₂_congr fun clause hclause => Clause.isMet_iff hstored ops (hclauses clause hclause)
    simpa [AcceptsOwner] using hmet

end Holds

/-! ### Both readings -/

/-- A policy that is not bound is relevant if its selector accepts the resource. -/
theorem Policy.relevant_iff_of_unbound {resource : Resource} {policy : Policy} {selector : Selector}
    (hunbound : policy.id ∉ resource.boundPolicies) (hselector : policy.selector = some selector) :
    policy.Relevant entities resource ↔ selector.AcceptsResource entities resource := by
  simp [Policy.Relevant, hunbound, hselector]

/-- **Both readings of a restrictor agree.** Without memos, let everything that a stored entity can reach
be stored, and let the entity own a resource. A restrictor without custom clauses selects the resource
for a policy that is not bound to it exactly if the predicate that is made of the restrictor holds of the
entity; and neither the search for the owner, nor the making of the predicate, nor its evaluation
fails. -/
theorem Restrictor.selects_iff_holds (hstored : entities.find? entity.id = some entity)
    (hresolves : entities.Resolves entity.id) {restrictor : Restrictor}
    (hplain : restrictor.customKeys = []) {resource : Resource}
    (howner : resource.owner = some entity.id) {policy : Policy}
    (hunbound : policy.id ∉ resource.boundPolicies)
    (hselector : policy.selector = some (.matching none (some restrictor)))
    (ops : Operators Entity) :
    ∃ relevance p holds,
      (Graph.relevance resource ⟨entities, none⟩).result = .ok relevance ∧
      (restrictor.compile ops ()).result = .ok p ∧
      (EntityPredicate.eval p entity ⟨entities, none⟩).result = .ok holds ∧
      (relevance.accepts policy = true ↔ holds = true) := by
  have howned : resource.OwnerResolves entities := by
    intro owner h
    cases howner.symm.trans h
    exact hresolves
  obtain ⟨closure, hclosure, hrelevance⟩ := Graph.relevance_found howned
  have hmakes := Restrictor.makes_compile { entityOps := ops } restrictor
  obtain ⟨p, hp⟩ := hmakes.ok_iff.2 (by simp [hplain])
  have heval := (hmakes.ok p hp).2 entity
  obtain ⟨holds, hresult, hholds⟩ := Restrictor.holds_answers hstored hresolves ops hplain
  refine ⟨_, p, holds, hrelevance, hp, ?_, ?_⟩
  · rw [heval]
    exact hresult
  · rw [hholds, Relevance.accepts_iff hclosure, Policy.relevant_iff_of_unbound hunbound hselector]
    simp [Selector.AcceptsResource, howner]

/-- A leader owns the resource and belongs to the group that it leads, so it inherits from itself. -/
theorem Restrictor.selects_iff_holds_cyclic :
    let leader : Entity := .withParents ⟨⟨1⟩⟩ [⟨⟨2⟩⟩]
    let entities : Table Entity := .ofList [leader, .withParents ⟨⟨2⟩⟩ [⟨⟨1⟩⟩]]
    let resource : Resource := { id := ⟨⟨4⟩⟩, owner := some ⟨⟨1⟩⟩ }
    let restrictor : Restrictor := .all [.subOf ⟨⟨2⟩⟩, .id ⟨⟨1⟩⟩, .subOf ⟨⟨1⟩⟩]
    let policy : Policy := { id := ⟨⟨5⟩⟩, selector := some (.matching none (some restrictor)) }
    entities.find? leader.id = some leader ∧ entities.Resolves leader.id ∧
      restrictor.customKeys = [] ∧ policy.id ∉ resource.boundPolicies ∧
      ∃ relevance p,
        (Graph.relevance resource ⟨entities, none⟩).result = .ok relevance ∧
        (restrictor.compile .forEntities ()).result = .ok p ∧
        (EntityPredicate.eval p leader ⟨entities, none⟩).result = .ok true ∧
        relevance.accepts policy = true := by
  intro leader entities resource restrictor policy
  have hstored : entities.find? leader.id = some leader := rfl
  have hresolves : entities.Resolves leader.id :=
    Table.resolves_of_parents (Table.stored_of_parent (by decide)) ⟨leader, hstored⟩
  have hunbound : policy.id ∉ resource.boundPolicies := IdSet.not_mem_empty _
  refine ⟨hstored, hresolves, rfl, hunbound, ?_⟩
  obtain ⟨relevance, p, holds, hrelevance, hp, heval, hagree⟩ :=
    Restrictor.selects_iff_holds hstored hresolves rfl rfl hunbound rfl .forEntities
  -- The group is a parent of the leader, so no walk is needed to see what holds of it.
  have hholds : (EntityPredicate.eval p leader ⟨entities, none⟩).result = .ok true := by
    cases hp
    rfl
  have haccepts : relevance.accepts policy = true :=
    hagree.2 (Except.ok.inj (heval.symm.trans hholds))
  exact ⟨relevance, p, hrelevance, hp, hholds, haccepts⟩

end PolicyDecision
