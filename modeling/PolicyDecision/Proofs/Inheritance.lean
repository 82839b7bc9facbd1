import PolicyDecision.Proofs.Memoless

/-!
# Who inherits from whom

An entity inherits from a target if it is the target or has it among its ancestors. That is read off a walk
in `Graph.inheritsByWalk`; `Graph.isSubOf` looks at the parents first, and walks only if the target is not
among them.

A walk visits the parents of its root, so the two never answer differently. They differ in one case: a walk
fails where something is not stored, and the parents are known all the same (`Graph.result_isSubOf`). Paths
can be joined, so to inherit is transitive (`Graph.isSubOf_trans`).
-/

namespace PolicyDecision

namespace Graph

/-- Whether an entity is `target` or has it among its ancestors, for which there is a walk. -/
def inheritsByWalk (entity : Entity) (target : EntityId) : Act Graph Bool := do
  if entity.id = target then return true
  return target ∈ (← ancestorsOf entity false)

variable {entities : Table Entity} {entity : Entity} {target : EntityId}

/-- Where there is a walk it finds the parents. -/
theorem inheritsByWalk_of_parent (hparent : target ∈ entity.parents) {b : Bool}
    (h : (inheritsByWalk entity target ⟨entities, none⟩).result = .ok b) : b = true := by
  rw [inheritsByWalk] at h
  split at h
  · cases h
    rfl
  · obtain ⟨closure, hclosure, h⟩ := Act.bind_eq_ok.1 h
    cases h
    rw [decide_eq_true_iff, (isClosure_ancestorsOf entities false entity).members closure hclosure]
    exact .inl (.single ⟨entity, Table.find?_upsert_self entity, hparent⟩)

/-- Where the target is no parent, there is a walk either way. -/
theorem isSubOf_of_not_parent (hparent : target ∉ entity.parents) :
    isSubOf entity target = inheritsByWalk entity target := by
  simp only [isSubOf, inheritsByWalk, hparent, or_false]

theorem isSubOf_of_parent (hparent : target ∈ entity.parents) :
    isSubOf entity target = pure true := by
  rw [isSubOf, if_pos (.inr hparent)]

/-- Where there is no walk, something that can be reached is not stored. -/
theorem missing_of_inheritsByWalk {e : Error}
    (h : (inheritsByWalk entity target ⟨entities, none⟩).result = .error e) :
    ∃ y : EntityId, e = .notFound y ∧ ¬(entities.upsert entity).Stored y := by
  rw [inheritsByWalk] at h
  split at h
  · cases h
  · rcases Act.bind_eq_error.1 h with he | ⟨closure, -, he⟩
    · obtain ⟨y, rfl, -, hy⟩ := (isClosure_ancestorsOf entities false entity).missing e he
      exact ⟨y, rfl, hy⟩
    · cases he

/-- **Looking at the parents first makes no difference where there is a walk**, and where there is none it
tells the parents. -/
theorem result_isSubOf (entities : Table Entity) (entity : Entity) (target : EntityId) :
    (isSubOf entity target ⟨entities, none⟩).result =
      if target ∈ entity.parents then .ok true
      else (inheritsByWalk entity target ⟨entities, none⟩).result := by
  split
  · next hparent => rw [isSubOf_of_parent hparent]; rfl
  · next hparent => rw [isSubOf_of_not_parent hparent]

/-- **To inherit is transitive**: what `y` inherits from, so does an entity that inherits from `y`. -/
theorem isSubOf_trans {e y : Entity} {x : EntityId} (he : entities.find? e.id = some e)
    (hy : entities.find? y.id = some y) (hresolves : entities.Resolves e.id)
    (hey : (isSubOf e y.id ⟨entities, none⟩).result = .ok true)
    (hyx : (isSubOf y x ⟨entities, none⟩).result = .ok true) :
    (isSubOf e x ⟨entities, none⟩).result = .ok true := by
  -- Stored records stand for themselves, so both walks go through one graph.
  have hreach : x = e.id ∨ entities.Ancestor e.id x := by
    have hey := (isSubOf_sound hey).1 rfl
    have hyx := (isSubOf_sound hyx).1 rfl
    rw [Table.upsert_of_find? he] at hey
    rw [Table.upsert_of_find? hy] at hyx
    rcases hey with hsame | hey
    · rwa [← hsame]
    · rcases hyx with rfl | hyx
      · exact .inr hey
      · exact .inr (hey.trans hyx)
  rw [← Table.upsert_of_find? he] at hresolves hreach
  obtain ⟨holds, hholds⟩ := isSubOf_answers hresolves x
  rw [hholds, (isSubOf_sound hholds).2 hreach]

end Graph

/-- The clause can be made a predicate, and that holds of the entity. -/
def Clause.HoldsOf (ops : Operators Entity) (entities : Table Entity) (clause : Clause)
    (entity : Entity) : Prop :=
  ∃ p, (clause.compile ops ()).result = .ok p ∧ (p.eval entity ⟨entities, none⟩).result = .ok true

theorem Clause.holdsOf_subOf {ops : Operators Entity} {entities : Table Entity} {target : EntityId}
    {entity : Entity} :
    (subOf target).HoldsOf ops entities entity ↔
      (Graph.isSubOf entity target ⟨entities, none⟩).result = .ok true := by
  have heval : (EntityPredicate.eval (.test (.isSubOf target)) entity ⟨entities, none⟩).result =
      (Graph.isSubOf entity target ⟨entities, none⟩).result := by
    rw [EntityPredicate.eval, Predicate.run_test, EntityTest.eval, Act.bind_ok (a := ()) rfl]
    rfl
  constructor
  · rintro ⟨p, hp, hholds⟩
    cases hp
    rwa [heval] at hholds
  · intro h
    exact ⟨_, rfl, heval.trans h⟩

namespace Graph

/-- **What a clause about inheritance says.** Nothing being remembered, whether an entity at hand inherits
from a target comes to what a walk comes to, if there is an answer. If the walk fails, then something is
missing; and a parent is recognised all the same, while the question fails in the same way for any other
target. So the clause is transitive: let a stored entity have ancestors that are all stored, and satisfy
the clause that names a second stored entity; then it satisfies every such clause that the second does. -/
theorem isSubOf_agrees (entities : Table Entity) (ops : Operators Entity) :
    (∀ entity target,
      let plain := (inheritsByWalk entity target ⟨entities, none⟩).result
      let found := (isSubOf entity target ⟨entities, none⟩).result
      (∀ b, plain = .ok b → found = .ok b) ∧
      ∀ e, plain = .error e →
        (∃ y : EntityId, e = .notFound y ∧ ¬(entities.upsert entity).Stored y) ∧
        found = if target ∈ entity.parents then .ok true else .error e) ∧
    ∀ (e y : Entity) (x : EntityId), entities.find? e.id = some e → entities.find? y.id = some y →
      (∃ closure, (ancestors e.id false ⟨entities, none⟩).result = .ok closure) →
      (Clause.subOf y.id).HoldsOf ops entities e → (Clause.subOf x).HoldsOf ops entities y →
      (Clause.subOf x).HoldsOf ops entities e := by
  refine ⟨fun entity target => ⟨fun b hplain => ?_, fun e hplain => ⟨?_, ?_⟩⟩, ?_⟩
  · rw [result_isSubOf, hplain]
    split
    · next hparent => rw [inheritsByWalk_of_parent hparent hplain]
    · rfl
  · exact missing_of_inheritsByWalk hplain
  · rw [result_isSubOf, hplain]
  · intro e y x he hy hclosure hey hyx
    rw [Clause.holdsOf_subOf] at hey hyx ⊢
    have hresolves : entities.Resolves e.id :=
      (isClosure_ancestors entities false e.id).answers.1 hclosure
    exact isSubOf_trans he hy hresolves hey hyx

/-- Along a cycle; and a copy of an entity that names a parent that is not stored. -/
theorem isSubOf_agrees_cyclic :
    let member : Entity := { id := ⟨⟨1⟩⟩, parents := .ofList [⟨⟨2⟩⟩] }
    let group : Entity := { id := ⟨⟨2⟩⟩, parents := .ofList [⟨⟨3⟩⟩] }
    let entities : Table Entity :=
      .ofList [member, group, { id := ⟨⟨3⟩⟩, parents := .ofList [⟨⟨1⟩⟩] }]
    let copy : Entity := { id := ⟨⟨1⟩⟩, parents := .ofList [⟨⟨2⟩⟩, ⟨⟨4⟩⟩] }
    (Clause.subOf ⟨⟨3⟩⟩).HoldsOf .forEntities entities member ∧
      (inheritsByWalk copy ⟨⟨4⟩⟩ ⟨entities, none⟩).result = .error (.notFound (⟨⟨4⟩⟩ : EntityId)) ∧
      (isSubOf copy ⟨⟨4⟩⟩ ⟨entities, none⟩).result = .ok true := by
  intro member group entities copy
  obtain ⟨hplain, htrans⟩ := isSubOf_agrees entities .forEntities
  have hclosure : ∃ closure, (ancestors member.id false ⟨entities, none⟩).result = .ok closure := by
    have hwalk : (Walk.ofEntity entities member false).result =
        .ok (.ofList [⟨⟨1⟩⟩, ⟨⟨2⟩⟩, ⟨⟨3⟩⟩]) := by cbv
    have hfind : entities.find? member.id = some member := rfl
    rw [(ancestors_memoless entities false member.id).1, hfind, Option.elim_some, hwalk]
    exact ⟨_, rfl⟩
  have hfails : (inheritsByWalk copy ⟨⟨4⟩⟩ ⟨entities, none⟩).result =
      .error (.notFound (⟨⟨4⟩⟩ : EntityId)) := by
    have hwalk : (Walk.ofEntity entities copy false).result = .error ⟨⟨4⟩⟩ := by cbv
    rw [inheritsByWalk, if_neg (by decide)]
    refine Act.bind_eq_error.2 (.inl ?_)
    rw [(ancestorsOf_memoless entities false copy).1, hwalk]
    rfl
  refine ⟨?_, hfails, ?_⟩
  · exact htrans member group ⟨⟨3⟩⟩ rfl rfl hclosure (Clause.holdsOf_subOf.2 rfl)
      (Clause.holdsOf_subOf.2 rfl)
  · exact ((hplain copy ⟨⟨4⟩⟩).2 _ hfails).2.trans (if_pos (by decide))

end Graph
end PolicyDecision
