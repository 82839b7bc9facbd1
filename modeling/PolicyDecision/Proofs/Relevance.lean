import PolicyDecision.Proofs.Memoless
import PolicyDecision.Proofs.Priority

/-!
# The policies that are asked about a resource

`Policy.Relevant` says which policies a resource calls for, in terms of the resource, its owner
and what the owner can reach. The candidates for a resource are the relevant policies of the
store, each once, in the order of their priority and, where priorities are equal, in the order of
the store (`Policy.Precedes`).

That the candidates are sorted twice, by the store and after it, makes no difference: a sorted
list is left as it is.
-/

namespace PolicyDecision

/-! ### What it is to be relevant -/

section Relevant

variable (entities : Table Entity)

/-- Whether a clause accepts an owner. Custom clauses play no part in this. -/
def Clause.AcceptsOwner (owner : EntityId) : Clause → Prop
  | .id target => target = owner
  | .subOf target => target = owner ∨ entities.Ancestor owner target
  | .custom _ _ => True

/-- Whether a restrictor accepts an owner, or that there is none. -/
def Restrictor.AcceptsOwner (owner : Option EntityId) : Restrictor → Prop
  | .wildcard => True
  | .noOwner => owner = none
  | .all clauses =>
    ∃ id, owner = some id ∧ ∀ clause ∈ clauses, clause.AcceptsOwner entities id

/-- Whether a selector accepts a resource: its type and its owner. -/
def Selector.AcceptsResource (resource : Resource) : Selector → Prop
  | .wildcard => True
  | .matching type owner =>
    (type = none ∨ type = some "*" ∨ type = some resource.type) ∧
      ∀ restrictor, owner = some restrictor → restrictor.AcceptsOwner entities resource.owner

/-- Whether a resource calls for a policy: the policy is bound to it, or has a selector that accepts
it. -/
def Policy.Relevant (resource : Resource) (policy : Policy) : Prop :=
  policy.id ∈ resource.boundPolicies ∨
    ∃ selector, policy.selector = some selector ∧ selector.AcceptsResource entities resource

/-- Whatever has to be known of the owner is stored. -/
def Resource.OwnerResolves (resource : Resource) : Prop :=
  ∀ owner, resource.owner = some owner → entities.Resolves owner

end Relevant

/-! ### Accepting is being relevant -/

section Accepts

variable {entities : Table Entity} {resource : Resource} {closure : IdSet .entity}

/-- The closure of an owner: itself and its ancestors. -/
def IsOwnerClosure (entities : Table Entity) (resource : Resource) (closure : IdSet .entity) :
    Prop :=
  ∀ owner, resource.owner = some owner →
    ∀ y, y ∈ closure ↔ entities.Ancestor owner y ∨ y = owner

theorem Ownership.satisfies_iff {owner : EntityId}
    (h : ∀ y, y ∈ closure ↔ entities.Ancestor owner y ∨ y = owner) (clause : Clause) :
    satisfies owner (closure.insert owner) clause = true ↔ clause.AcceptsOwner entities owner := by
  cases clause with
  | id target => simp [satisfies, Clause.AcceptsOwner]
  | subOf target =>
    -- The closure holds the owner already; putting it there once more is of no account.
    rw [satisfies, decide_eq_true_iff, IdSet.mem_insert, h, Clause.AcceptsOwner, or_left_comm,
      or_self, or_comm]
  | custom name arg => simp [satisfies, Clause.AcceptsOwner]

theorem Ownership.accepted_iff (h : IsOwnerClosure entities resource closure)
    (restrictor : Restrictor) :
    (Relevance.ofResource resource closure).ownership.accepted restrictor = true ↔
      restrictor.AcceptsOwner entities resource.owner := by
  rw [Relevance.ofResource]
  cases howner : resource.owner with
  | none =>
    cases restrictor with
    | wildcard => simp [accepted, Restrictor.AcceptsOwner]
    | noOwner => simp [accepted, Restrictor.AcceptsOwner]
    | all clauses => simp [accepted, Restrictor.AcceptsOwner]
  | some owner =>
    cases restrictor with
    | wildcard => simp [accepted, Restrictor.AcceptsOwner]
    | noOwner => simp [accepted, Restrictor.AcceptsOwner]
    | all clauses =>
      simp only [accepted, List.all_eq_true, Restrictor.AcceptsOwner,
        satisfies_iff (h owner howner), Option.some.injEq, exists_eq_left']

theorem Relevance.selects_iff (h : IsOwnerClosure entities resource closure)
    (selector : Selector) :
    (ofResource resource closure).selects selector = true ↔
      selector.AcceptsResource entities resource := by
  cases selector with
  | wildcard => simp [selects, Selector.AcceptsResource]
  | matching type owner =>
    rw [selects, Bool.and_eq_true, Selector.AcceptsResource]
    refine and_congr ?_ ?_
    · cases type with
      | none => simp
      | some t =>
        rw [Option.all_some, decide_eq_true_iff]
        simp [ofResource]
    · cases owner with
      | none => simp
      | some restrictor => simpa using Ownership.accepted_iff h restrictor

theorem Relevance.accepts_iff (h : IsOwnerClosure entities resource closure) (policy : Policy) :
    (ofResource resource closure).accepts policy = true ↔ policy.Relevant entities resource := by
  rw [accepts, Bool.or_eq_true, Policy.Relevant, decide_eq_true_iff]
  refine or_congr Iff.rfl ?_
  cases policy.selector with
  | none => simp
  | some selector => simpa using selects_iff h selector

end Accepts

/-! ### Looking for the owner -/

section Relevance

variable {entities : Table Entity} {resource : Resource}

/-- Without a memo, the owner and its ancestors are found if all of them are stored. -/
theorem Graph.relevance_found (h : resource.OwnerResolves entities) :
    ∃ closure, IsOwnerClosure entities resource closure ∧
      (Graph.relevance resource ⟨entities, none⟩).result = .ok (.ofResource resource closure) := by
  cases howner : resource.owner with
  | none =>
    refine ⟨.empty, fun owner h => ?_, ?_⟩
    · rw [howner] at h
      cases h
    · simp [Graph.relevance, howner]
  | some owner =>
    have hclosure := Graph.isClosure_ancestors entities true owner
    obtain ⟨closure, hresult⟩ := hclosure.answers.2 (h owner howner)
    refine ⟨closure, fun owner' h' y => ?_, ?_⟩
    · rw [howner] at h'
      cases h'
      simpa using hclosure.members closure hresult y
    · simp [Graph.relevance, howner, Act.bind_ok hresult]

/-- Without a memo, the search fails with what is missing if something is. -/
theorem Graph.relevance_missing (h : ¬resource.OwnerResolves entities) :
    ∃ owner y : EntityId, resource.owner = some owner ∧ (y = owner ∨ entities.Ancestor owner y) ∧
      ¬entities.Stored y ∧
      (Graph.relevance resource ⟨entities, none⟩).result = .error (.notFound y) := by
  cases howner : resource.owner with
  | none =>
    refine absurd (fun owner h => ?_) h
    rw [howner] at h
    cases h
  | some owner =>
    have hclosure := Graph.isClosure_ancestors entities true owner
    cases hresult : (Graph.ancestors owner true ⟨entities, none⟩).result with
    | ok closure =>
      refine absurd (fun owner' h' => ?_) h
      rw [howner] at h'
      cases h'
      exact hclosure.answers.1 ⟨closure, hresult⟩
    | error e =>
      obtain ⟨y, rfl, hy, hmissing⟩ := hclosure.missing e hresult
      refine ⟨owner, y, rfl, hy, hmissing, ?_⟩
      simp [Graph.relevance, howner, Act.bind_error hresult]

/-- Without a memo, the search leaves no trace. -/
theorem Graph.relevance_state :
    (Graph.relevance resource ⟨entities, none⟩).state = ⟨entities, none⟩ := by
  cases howner : resource.owner with
  | none => simp [Graph.relevance, howner]
  | some owner =>
    have hstate := (Graph.ancestors_memoless entities true owner).2
    simp only [Graph.relevance, howner]
    cases hresult : (Graph.ancestors owner true ⟨entities, none⟩).result with
    | ok closure => rw [Act.bind_ok hresult]; exact hstate
    | error e => rw [Act.bind_error hresult]; exact hstate

end Relevance

/-! ### Candidates -/

/-- These are the policies of the store that a resource calls for, each once, in the order in which
they are to be asked. -/
structure IsSelection (entities : Table Entity) (store : Table Policy) (resource : Resource)
    (policies : List Policy) : Prop where
  members : ∀ p, p ∈ policies ↔ p ∈ store.docs ∧ p.Relevant entities resource
  once : policies.Pairwise fun a b => a.id ≠ b.id
  ordered : policies.Pairwise (Policy.Precedes store.docs)

namespace Relevance

variable (r : Relevance)

theorem mem_candidates {policies : List Policy} {p : Policy} :
    p ∈ r.candidates policies ↔ p ∈ policies ∧ r.accepts p = true := by
  rw [candidates, Policy.mem_byPriority, List.mem_filter]

theorem distinct_candidates (store : Table Policy) :
    (r.candidates store.docs).Pairwise fun a b => a.id ≠ b.id := by
  refine ((Policy.perm_byPriority _).pairwise_iff fun {a b} hab => ?_).2 (store.distinct.filter _)
  exact hab.symm

theorem precedes_candidates (policies : List Policy) :
    (r.candidates policies).Pairwise (Policy.Precedes policies) :=
  Policy.precedes_byPriority List.filter_sublist

end Relevance

/-- What the store finds is the selection. -/
theorem isSelection_candidates {entities : Table Entity} {resource : Resource}
    {closure : IdSet .entity} (h : IsOwnerClosure entities resource closure)
    (store : Table Policy) :
    IsSelection entities store resource
      ((Relevance.ofResource resource closure).candidates store.docs) where
  members p := by rw [Relevance.mem_candidates, Relevance.accepts_iff h]
  once := Relevance.distinct_candidates _ store
  ordered := Relevance.precedes_candidates _ store.docs

namespace Engine

variable {engine : Engine}

/-- Without memos, selecting is to look for the owner and then through the policies. -/
theorem candidates_memoless (h : engine.Memoless) (resource : Resource) :
    (candidates resource engine).result =
        (Graph.relevance resource ⟨engine.graph.entities, none⟩).result.map
          (·.candidates engine.policies.docs) ∧
      (candidates resource engine).state = engine := by
  have hstate := @Graph.relevance_state engine.graph.entities resource
  rw [← h.graph_eq] at hstate ⊢
  simp only [candidates, Act.bind_apply, onGraph, Act.zoom_apply, hstate]
  cases (Graph.relevance resource engine.graph).result with
  | ok relevance => simp [Except.map, Relevance.candidates]
  | error e => simp [Except.map]

theorem candidates_found (h : engine.Memoless) {resource : Resource}
    (howner : resource.OwnerResolves engine.graph.entities) :
    ∃ policies, (candidates resource engine).result = .ok policies ∧
      IsSelection engine.graph.entities engine.policies resource policies := by
  obtain ⟨closure, hclosure, hresult⟩ := Graph.relevance_found howner
  refine ⟨_, ?_, isSelection_candidates hclosure engine.policies⟩
  rw [(candidates_memoless h resource).1, hresult]
  rfl

theorem candidates_missing (h : engine.Memoless) {resource : Resource}
    (howner : ¬resource.OwnerResolves engine.graph.entities) :
    ∃ owner y : EntityId, resource.owner = some owner ∧
      (y = owner ∨ engine.graph.entities.Ancestor owner y) ∧ ¬engine.graph.entities.Stored y ∧
      (candidates resource engine).result = .error (.notFound y) := by
  obtain ⟨owner, y, hresource, hy, hmissing, hresult⟩ := Graph.relevance_missing howner
  refine ⟨owner, y, hresource, hy, hmissing, ?_⟩
  rw [(candidates_memoless h resource).1, hresult]
  rfl

/-- Whatever candidates are found, they are the selection. -/
theorem isSelection_of_candidates (h : engine.Memoless) {resource : Resource}
    {policies : List Policy} (hpolicies : (candidates resource engine).result = .ok policies) :
    IsSelection engine.graph.entities engine.policies resource policies := by
  by_cases howner : resource.OwnerResolves engine.graph.entities
  · obtain ⟨policies', hfound, hselection⟩ := candidates_found h howner
    cases hfound.symm.trans hpolicies
    exact hselection
  · obtain ⟨owner, y, -, -, -, hfailed⟩ := candidates_missing h howner
    cases hfailed.symm.trans hpolicies

/-- **Candidate selection is exact and ordered.** Without memos, the candidates for a resource are
the relevant policies of the store, each once, the highest priority first and otherwise in the
order of the store; where the owner or something that it can reach is not stored, there are none,
and the error names something that is missing. -/
theorem candidates_exact (h : engine.Memoless) (resource : Resource) :
    (resource.OwnerResolves engine.graph.entities →
      ∃ policies, (candidates resource engine).result = .ok policies ∧
        IsSelection engine.graph.entities engine.policies resource policies) ∧
    (¬resource.OwnerResolves engine.graph.entities →
      ∃ owner y : EntityId, resource.owner = some owner ∧
        (y = owner ∨ engine.graph.entities.Ancestor owner y) ∧ ¬engine.graph.entities.Stored y ∧
        (candidates resource engine).result = .error (.notFound y)) :=
  ⟨candidates_found h, candidates_missing h⟩

/-- The owner and its parent inherit from each other. A policy for those who inherit from the
parent is a candidate; one for those who inherit from someone else is none. -/
theorem candidates_exact_cyclic :
    let owner : EntityId := ⟨⟨1⟩⟩
    let parent : EntityId := ⟨⟨2⟩⟩
    let policyFor (id : PolicyId) (target : EntityId) : Policy :=
      { id, selector := some (.matching (some "*") (some (.all [.subOf target]))) }
    let fits := policyFor ⟨⟨1⟩⟩ parent
    let strays := policyFor ⟨⟨2⟩⟩ ⟨⟨3⟩⟩
    let resource : Resource := { id := ⟨⟨4⟩⟩, owner }
    let entities : Table Entity :=
      .ofList [.withParents owner [parent], .withParents parent [owner]]
    let engine := Engine.new { entities, policies := .ofList [strays, fits] } {} {}
    engine.Memoless ∧ resource.OwnerResolves entities ∧
      ∃ policies, (candidates resource engine).result = .ok policies ∧
        fits ∈ policies ∧ strays ∉ policies := by
  intro owner parent policyFor fits strays resource entities engine
  have hmemoless : engine.Memoless := memoless_new rfl
  have hedge : entities.Parent owner parent :=
    ⟨.withParents owner [parent], rfl, List.mem_cons_self⟩
  -- Every edge ends in one of the two, so nothing else is an ancestor.
  have hends : ∀ x y, entities.Parent x y → y = parent ∨ y = owner := by
    rintro x y ⟨e, he, hy⟩
    have hstored : e ∈ [Entity.withParents owner [parent], .withParents parent [owner]] :=
      Table.mem_of_find? he
    rcases List.mem_cons.1 hstored with rfl | hstored
    · exact .inl (List.mem_singleton.1 hy)
    · rw [List.mem_singleton.1 hstored] at hy
      exact .inr (List.mem_singleton.1 hy)
  have hancestors : ∀ y, entities.Ancestor owner y → y = parent ∨ y = owner := by
    intro y hy
    obtain ⟨x, -, hxy⟩ := Relation.TransGen.tail'_iff.1 hy
    exact hends x y hxy
  have howner : resource.OwnerResolves entities := by
    intro id hid
    cases hid
    refine ⟨⟨_, rfl⟩, fun y hy => ?_⟩
    rcases hancestors y hy with rfl | rfl
    · exact ⟨_, rfl⟩
    · exact ⟨_, rfl⟩
  refine ⟨hmemoless, howner, ?_⟩
  obtain ⟨policies, hresult, hselection⟩ := (candidates_exact hmemoless resource).1 howner
  refine ⟨policies, hresult, (hselection.members fits).2 ⟨?_, ?_⟩, fun hstrays => ?_⟩
  · exact List.mem_cons_of_mem strays List.mem_cons_self
  · refine .inr ⟨_, rfl, .inr (.inl rfl), fun restrictor hrestrictor => ?_⟩
    cases hrestrictor
    refine ⟨owner, rfl, fun clause hclause => ?_⟩
    rw [List.mem_singleton.1 hclause]
    exact .inr (.single hedge)
  · rcases ((hselection.members strays).1 hstrays).2 with hbound | ⟨selector, hselector, haccepts⟩
    · cases hbound
    · cases hselector
      obtain ⟨id, hid, hclauses⟩ := haccepts.2 _ rfl
      cases hid
      have hother : ¬((⟨⟨3⟩⟩ : EntityId) = parent ∨ (⟨⟨3⟩⟩ : EntityId) = owner) := by decide
      apply hother
      rcases hclauses (.subOf ⟨⟨3⟩⟩) List.mem_cons_self with hself | hancestor
      · exact .inr hself
      · exact hancestors _ hancestor

end Engine
end PolicyDecision
