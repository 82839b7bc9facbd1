import Mathlib.Computability.Primrec.List
import Mathlib.Data.List.Permutation
import PolicyDecision.Proofs.Ancestry

/-!
# Entities at hand

A restrictor may be evaluated on an entity that was not just fetched: an older copy, or one that was
never stored. The closure of such an entity is found from its own parents, and it is remembered under its
identifier. What is found so is found again when the stored entity is asked for
(`Graph.ancestors_of_ancestorsOf`), so an evaluation may be noticed (`Engine.ask_noticed`).

It is not noticed if nothing is remembered, or if no closure that is found from the entity at hand differs
from that of the stored one (`Entity.TrueTo`, `Engine.ask_unnoticed`). What carries this is that the
engine that was asked and the one that was not differ in nothing but closures that are current
(`Engine.Twins`), before and after any operation.
-/

namespace PolicyDecision

/-- What is found from the entity at hand is what is found from the stored one. -/
def Entity.TrueTo (entity : Entity) (entities : Table Entity) : Prop :=
  ∀ includeSelf closure, (Walk.ofEntity entities entity includeSelf).result = .ok closure →
    entities.closure entity.id includeSelf = .ok closure

/-- A copy may differ from the stored entity in all but its parents. -/
theorem Entity.trueTo_of_parents {entities : Table Entity} {entity stored : Entity}
    (hfind : entities.find? entity.id = some stored) (hparents : entity.parents = stored.parents) :
    entity.TrueTo entities := by
  intro includeSelf closure hwalk
  have hid : stored.id = entity.id := Table.idOf_of_find? hfind
  have hsame : Walk.ofEntity entities entity includeSelf = Walk.ofEntity entities stored includeSelf := by
    rw [Walk.ofEntity, Walk.ofEntity, hid, hparents]
  rw [← hid] at hfind ⊢
  rw [Table.closure_of_find? hfind, ← hsame, hwalk]
  rfl

/-! ### Found again -/

namespace Memo

variable {κ ν : Type} [BEq κ] {m : Memo κ ν} {key : κ} {value : ν}

/-- A look-up that finds nothing changes nothing. -/
theorem get_of_none (h : (m.get key).1 = none) : (m.get key).2 = m := by
  cases hlookup : m.entries.lookup key with
  | none => simp only [get, hlookup]
  | some found =>
    simp only [get, hlookup] at h
    cases h

variable [LawfulBEq κ]

/-- What was just looked up is found again. -/
theorem get_get_self (h : (m.get key).1 = some value) : ((m.get key).2.get key).1 = some value := by
  cases hlookup : m.entries.lookup key with
  | none =>
    simp only [get, hlookup] at h
    cases h
  | some found =>
    simp only [get, hlookup] at h ⊢
    simpa using h

/-- What was just remembered is found again, unless the batch that is dropped is the whole memo. -/
theorem get_insert_self (h : m.maxLength = 0 ∨ m.evictBatch ≤ m.maxLength) (key : κ) (value : ν) :
    ((m.insert key value).get key).1 = some value := by
  unfold insert
  dsimp only
  split
  · next hfull =>
    -- At least one entry stays, and the first one is that of the key.
    obtain ⟨count, hcount⟩ : ∃ count,
        ((key, value) :: without key m.entries).length - max m.evictBatch 1 = count + 1 :=
      ⟨_, (Nat.succ_pred_eq_of_pos (by omega)).symm⟩
    rw [hcount, List.take_succ_cons]
    simp [get]
  · simp [get]

end Memo

namespace Graph

variable {graph : Graph} {memo : Memo (EntityId × Bool) (IdSet .entity)} {entity : Entity}
  {id : EntityId} {includeSelf : Bool} {closure : IdSet .entity}

/-- A closure that is remembered is what asking for ancestors comes to. -/
theorem ancestors_of_remembered (hmemo : graph.memo = some memo)
    (h : (memo.get (id, includeSelf)).1 = some closure) :
    (ancestors id includeSelf graph).result = .ok closure := by
  have hremembered : (remembered id includeSelf graph).result = .ok (some closure) := by
    obtain ⟨entities, found⟩ := graph
    obtain rfl : found = some memo := hmemo
    rw [← h]
    rfl
  rw [ancestors, Act.bind_ok hremembered]
  rfl

/-- **What is found from an entity at hand is found again under its identifier**, whatever is stored
there. -/
theorem ancestors_of_ancestorsOf (hmemo : graph.memo = some memo)
    (hbatch : memo.maxLength = 0 ∨ memo.evictBatch ≤ memo.maxLength)
    (h : (ancestorsOf entity includeSelf graph).result = .ok closure) :
    (ancestors entity.id includeSelf (ancestorsOf entity includeSelf graph).state).result =
      .ok closure := by
  obtain ⟨entities, found⟩ := graph
  obtain rfl : found = some memo := hmemo
  have hremembered : remembered entity.id includeSelf ⟨entities, some memo⟩ =
      ⟨.ok (memo.get (entity.id, includeSelf)).1,
        ⟨entities, some (memo.get (entity.id, includeSelf)).2⟩, []⟩ := rfl
  rw [ancestorsOf, Act.bind_apply, hremembered] at h ⊢
  cases hget : (memo.get (entity.id, includeSelf)).1 with
  | some hit =>
    simp only [hget] at h ⊢
    cases h
    exact ancestors_of_remembered rfl (Memo.get_get_self hget)
  | none =>
    simp only [hget, Memo.get_of_none hget] at h ⊢
    rcases resolve_cases entity includeSelf ⟨entities, some memo⟩ with
      ⟨missing, -, hresult, -⟩ | ⟨closure', -, hresult, hstate⟩
    · rw [hresult] at h
      cases h
    · rw [hresult] at h
      cases h
      rw [hstate]
      exact ancestors_of_remembered rfl (Memo.get_insert_self hbatch _ _)

/-! ### Asking of an entity at hand -/

variable {entities : Table Entity}

/-- What is remembered of an entity that is true to the stored one is current. -/
theorem keeps_ancestorsOf (htrue : entity.TrueTo entities) (includeSelf : Bool) :
    Act.Keeps (Current entities) (ancestorsOf entity includeSelf) := by
  rw [ancestorsOf]
  refine (ensures_remembered entity.id includeSelf).bind_gives fun hit _ => ?_
  cases hit with
  | some closure => exact Act.keeps_pure closure
  | none =>
    refine ⟨fun graph hgraph => ?_, fun _ _ => trivial⟩
    rcases resolve_cases entity includeSelf graph with
      ⟨missing, -, -, hstate⟩ | ⟨closure, hwalk, -, hstate⟩
    · rw [hstate]
      exact hgraph
    · rw [hgraph.entities_eq] at hwalk
      rw [hstate]
      exact (ensures_remember (htrue includeSelf closure hwalk)).keeps graph hgraph

end Graph

/-- Evaluating a predicate keeps what asking for ancestors keeps. -/
theorem EntityPredicate.keeps_eval {I : Graph → Prop} {entity : Entity}
    (hancestors : Act.Keeps I (Graph.ancestorsOf entity false)) (p : EntityPredicate) :
    Act.Keeps I (p.eval entity) := by
  refine Predicate.compositional_run Act.compositional_keeps (fun t => ?_) p
  cases t with
  | hasId target =>
    rw [EntityTest.eval]
    exact (Act.keeps_record _).bind fun _ => Act.keeps_pure _
  | isSubOf target =>
    rw [EntityTest.eval, Graph.isSubOf]
    refine (Act.keeps_record _).bind fun _ => ?_
    split
    · exact Act.keeps_pure true
    · exact hancestors.bind fun _ => Act.keeps_pure _
  | custom name arg test =>
    rw [EntityTest.eval]
    refine (Act.keeps_record _).bind fun _ => ?_
    exact (Act.keeps_record _).bind fun _ => Act.ensures_ofExcept trivial

/-! ### Engines that differ in what they remember -/

namespace Engine

/-- What can be asked of an entity at hand. -/
inductive Question
  | holds (p : EntityPredicate)
  | ancestors (includeSelf : Bool)

/-- The engine after a question about an entity at hand. -/
def Question.ask (entity : Entity) (engine : Engine) : Question → Engine
  | holds p => (onGraph (p.eval entity) engine).state
  | ancestors includeSelf => (onGraph (Graph.ancestorsOf entity includeSelf) engine).state

/-- The engines differ in nothing but what they remember of ancestors, which is current for both. -/
structure Twins (entities : Table Entity) (engine engine' : Engine) : Prop where
  graph : engine.graph.Current entities
  graph' : engine'.graph.Current entities
  rest : engine' = { engine with graph := engine'.graph }

end Engine

/-- The same for evaluations that may have fetched the requester. -/
structure Evaluation.Twins (entities : Table Entity) (requester : EntityId)
    (evaluation evaluation' : Evaluation) : Prop where
  inquiry : evaluation.inquiry.Current entities requester
  inquiry' : evaluation'.inquiry.Current entities requester
  checks : evaluation'.checks = evaluation.checks

section Decision

variable {entities : Table Entity} {context : Context}

theorem Policy.parallel_react (policy : Policy) :
    Act.Parallel (Evaluation.Twins entities context.requester) (policy.react context) := by
  rw [react]
  apply Act.Parallel.bind
  · -- Both compile with the same checks, so they do not differ afterwards.
    apply (Act.parallel_eq (policy.contents.mapM Content.compile)).zoom
    · exact fun _ _ h => h.checks.symm
    · exact fun _ _ _ _ h hchecks => ⟨h.inquiry, h.inquiry', hchecks.symm⟩
  · intro contents
    apply (Content.steady_scan_of_current context contents).parallel.zoom
    · exact fun _ _ h => ⟨h.inquiry, h.inquiry'⟩
    · exact fun _ _ _ _ h hinquiry => ⟨hinquiry.1, hinquiry.2, h.checks⟩

theorem Compounder.parallel_consult (compounder : Compounder) (input : Consultation) :
    Act.Parallel (Evaluation.Twins entities context.requester) (compounder.consult input) := by
  rw [consult]
  apply (Act.parallel_record _).bind
  intro _
  exact Act.parallel_ofExcept _

theorem Compounder.parallel_concludeAfter (compounder : Compounder) (candidates : List Policy)
    (reactions : List Reaction) :
    Act.Parallel (Evaluation.Twins entities context.requester)
      (compounder.concludeAfter context candidates reactions) := by
  rw [concludeAfter]
  split
  · apply (compounder.parallel_consult _).bind
    intro step
    cases step with
    | conclude verdict => exact (Act.parallel_record _).bind fun _ => Act.parallel_pure verdict
    | proceed => exact Act.parallel_throw _
  · exact (Act.parallel_record _).bind fun _ => Act.parallel_throw _

/-- **A decision cannot tell twins apart.** -/
theorem Compounder.parallel_decideFrom (compounder : Compounder) (candidates : List Policy)
    (reactions : List Reaction) (rest : List Policy) :
    Act.Parallel (Evaluation.Twins entities context.requester)
      (compounder.decideFrom context candidates reactions rest) := by
  induction rest generalizing reactions with
  | nil => exact compounder.parallel_concludeAfter candidates reactions
  | cons policy rest ih =>
    unfold decideFrom
    apply (policy.parallel_react).bind
    intro reaction
    apply (Act.parallel_record _).bind
    intro _
    dsimp only
    split
    · apply (compounder.parallel_consult _).bind
      intro step
      cases step with
      | conclude verdict => exact (Act.parallel_record _).bind fun _ => Act.parallel_pure verdict
      | proceed => exact ih _
    · exact ih _

end Decision

namespace Engine

variable {docs : Documents} {engine engine' : Engine}

/-! ### Requests to twins -/

theorem parallel_resolve (ref : ResourceRef) : Act.Parallel (Twins docs.entities) (resolve ref) := by
  cases ref with
  | given resource => exact Act.parallel_pure resource
  | byId id =>
    rw [resolve, retrieveResource]
    apply (Act.parallel_record _).bind
    intro _
    apply Act.parallel_get_bind
    · intro engine engine' h
      rw [h.rest]
    · intro engine
      split
      · exact Act.parallel_pure _
      · exact Act.parallel_throw _

theorem parallel_candidates (resource : Resource) :
    Act.Parallel (Twins docs.entities) (candidates resource) := by
  rw [candidates]
  have hsearch : Act.Parallel (Twins docs.entities) (onGraph (Graph.relevance resource)) := by
    apply (ensures_relevance resource).steady.parallel.zoom
    · exact fun _ _ h => ⟨h.graph, h.graph'⟩
    · intro engine engine' graph graph' h hgraph
      refine ⟨hgraph.1, hgraph.2, ?_⟩
      rw [h.rest]
  apply hsearch.bind
  intro relevance
  apply (Act.parallel_record _).bind
  intro _
  apply Act.parallel_get_bind
  · intro engine engine' h
    rw [h.rest]
  · intro engine
    exact (Act.parallel_record _).bind fun _ => Act.parallel_pure _

/-- **A request cannot tell twins apart**, and leaves them twins. -/
theorem parallel_check (request : Request) (compounder : Compounder) :
    Act.Parallel (Twins docs.entities) (check request compounder) := by
  rw [check]
  apply (parallel_resolve request.resource).bind
  intro resource
  apply (Act.parallel_record _).bind
  intro _
  apply (parallel_candidates resource).bind
  intro policies
  apply (compounder.parallel_decideFrom policies [] policies).zoom
  · intro engine engine' h
    refine ⟨Inquiry.current_unasked h.graph, Inquiry.current_unasked h.graph', ?_⟩
    rw [h.rest]
    rfl
  · intro engine engine' evaluation evaluation' h hevaluation
    refine ⟨hevaluation.inquiry.graph, hevaluation.inquiry'.graph, ?_⟩
    rw [h.rest, resume, resume, hevaluation.checks]

theorem parallel_ancestors (id : EntityId) (includeSelf : Bool) :
    Act.Parallel (Twins docs.entities) (ancestors id includeSelf) := by
  apply (Graph.ensures_ancestors id includeSelf).steady.parallel.zoom
  · exact fun _ _ h => ⟨h.graph, h.graph'⟩
  · intro engine engine' graph graph' h hgraph
    refine ⟨hgraph.1, hgraph.2, ?_⟩
    rw [h.rest]

/-- **One operation** leaves twins twins. -/
theorem Twins.perform (h : Twins docs.entities engine engine') {operation : Operation}
    (hnew : operation.New docs) :
    Twins (operation.write docs).entities (operation.perform engine) (operation.perform engine') := by
  have hgraph := current_perform h.graph hnew
  have hgraph' := current_perform h.graph' hnew
  refine ⟨hgraph, hgraph', ?_⟩
  cases operation with
  | ancestors id includeSelf => exact (parallel_ancestors id includeSelf engine engine' h).2.rest
  | check request compounder => exact (parallel_check request compounder engine engine' h).2.rest
  | _ =>
    -- The other operations work on documents, operators and checks, which both have alike.
    rw [h.rest]
    rfl

/-- **Every run** leaves twins twins. -/
theorem Twins.run (h : Twins docs.entities engine engine') {operations : List Operation}
    (hnew : CreatesNew docs operations) :
    Twins (docs.after operations).entities (engine.run operations) (engine'.run operations) := by
  induction operations generalizing engine engine' docs with
  | nil => exact h
  | cons operation operations ih =>
    obtain ⟨hfirst, hrest⟩ := hnew
    exact ih (h.perform hfirst) hrest

/-! ### Questions that are not noticed -/

/-- The engine that was asked is a twin of the one that was not. -/
theorem Question.twins_ask (hcurrent : engine.graph.Current engine.graph.entities) {entity : Entity}
    (h : engine.graph.memo = none ∨ entity.TrueTo engine.graph.entities) (question : Question) :
    Twins engine.graph.entities engine (question.ask entity engine) := by
  obtain ⟨I, hstart, hkept, hancestors⟩ : ∃ I : Graph → Prop, I engine.graph ∧
      (∀ graph, I graph → graph.Current engine.graph.entities) ∧
      ∀ includeSelf, Act.Keeps I (Graph.ancestorsOf entity includeSelf) := by
    rcases h with hmemo | htrue
    · -- A graph that remembers nothing is left as it is.
      refine ⟨(· = ⟨engine.graph.entities, none⟩), by rw [← hmemo], ?_, fun includeSelf =>
        (Graph.steady_ancestorsOf engine.graph.entities entity includeSelf).keeps⟩
      rintro graph rfl
      exact Graph.current_memoless _
    · exact ⟨_, hcurrent, fun _ h => h, Graph.keeps_ancestorsOf htrue⟩
  cases question with
  | holds p =>
    have heval : Act.Keeps I (p.eval entity) := p.keeps_eval (hancestors false)
    exact ⟨hcurrent, hkept _ (heval.keeps _ hstart), rfl⟩
  | ancestors includeSelf => exact ⟨hcurrent, hkept _ ((hancestors includeSelf).keeps _ hstart), rfl⟩

/-- **A question about an entity at hand is not noticed** if nothing is remembered, or if the entity is
true to the stored one. Whatever is done with the engine afterwards, each new entity under an identifier
that is not in use, asking for ancestors and deciding requests comes to what it would have come to if the
question had not been asked. -/
theorem ask_unnoticed (hcurrent : engine.graph.Current engine.graph.entities) {entity : Entity}
    (h : engine.graph.memo = none ∨ entity.TrueTo engine.graph.entities) (question : Question)
    {operations : List Operation} (hnew : CreatesNew ⟨engine.store, engine.checks.registry⟩ operations) :
    let asked := (question.ask entity engine).run operations
    let unasked := engine.run operations
    (∀ id includeSelf, (ancestors id includeSelf asked).result = (ancestors id includeSelf unasked).result) ∧
    ∀ request compounder,
      (check request compounder asked).result = (check request compounder unasked).result := by
  intro asked unasked
  have htwins : Twins (Documents.after ⟨engine.store, engine.checks.registry⟩ operations).entities
      unasked asked :=
    Twins.run (question.twins_ask hcurrent h) hnew
  constructor
  · intro id includeSelf
    exact (parallel_ancestors id includeSelf unasked asked htwins).1.symm
  · intro request compounder
    exact (parallel_check request compounder unasked asked htwins).1.symm

/-- A copy with another attribute is true to the stored member of a group. -/
theorem ask_unnoticed_copy :
    let group : Entity := { id := ⟨⟨2⟩⟩, parents := .empty }
    let member : Entity := { id := ⟨⟨1⟩⟩, parents := .ofList [⟨⟨2⟩⟩] }
    let copy : Entity := { member with attributes := .ofList [("level", .bool true)] }
    let store : Store := { entities := .ofList [group, member] }
    let engine := new store { cache := { enabled := true } } {}
    let operations : List Operation := [.addParent ⟨⟨2⟩⟩ ⟨⟨1⟩⟩, .ancestors ⟨⟨1⟩⟩ true]
    let asked := ((Question.holds (.test (.isSubOf ⟨⟨3⟩⟩))).ask copy engine).run operations
    let unasked := engine.run operations
    (engine.graph.Current engine.graph.entities ∧ copy.TrueTo engine.graph.entities ∧
      CreatesNew ⟨engine.store, engine.checks.registry⟩ operations) ∧
    (∀ id includeSelf, (ancestors id includeSelf asked).result = (ancestors id includeSelf unasked).result) ∧
    ∀ request compounder,
      (check request compounder asked).result = (check request compounder unasked).result := by
  intro group member copy store engine operations asked unasked
  have hcurrent : engine.graph.Current engine.graph.entities := Graph.current_new store.entities _
  have hfind : engine.graph.entities.find? copy.id = some member := rfl
  have htrue : copy.TrueTo engine.graph.entities := Entity.trueTo_of_parents hfind rfl
  have hnew : CreatesNew ⟨engine.store, engine.checks.registry⟩ operations :=
    ⟨trivial, trivial, trivial⟩
  exact ⟨⟨hcurrent, htrue, hnew⟩, ask_unnoticed hcurrent (.inr htrue) _ hnew⟩

/-- An old copy of a former member of a group: once a restrictor was evaluated on it, the former member
has the ancestors of the copy, and a policy for the group allows its requests. -/
theorem ask_noticed :
    let group : Entity := { id := ⟨⟨2⟩⟩, parents := .empty }
    let former : Entity := { id := ⟨⟨1⟩⟩, parents := .empty }
    let copy : Entity := { former with parents := .ofList [⟨⟨2⟩⟩] }
    let members : Policy :=
      { id := ⟨⟨4⟩⟩, selector := some .wildcard,
        contents := [⟨[.requester (.all [.subOf ⟨⟨2⟩⟩])], some true⟩] }
    let store : Store := { entities := .ofList [group, former], policies := .ofList [members] }
    let unasked := new store { cache := { enabled := true } } {}
    let p : EntityPredicate := .allOf [.test (.isSubOf ⟨⟨3⟩⟩)]
    let asked := (Question.holds p).ask copy unasked
    let request : Request := ⟨⟨⟨1⟩⟩, .one "read", .given { id := ⟨⟨5⟩⟩ }⟩
    (compileRestrictor (.all [.subOf ⟨⟨3⟩⟩]) unasked).result = .ok p ∧
      (ancestors ⟨⟨1⟩⟩ false unasked).result = .ok .empty ∧
      (ancestors ⟨⟨1⟩⟩ false asked).result = .ok (.ofList [⟨⟨2⟩⟩]) ∧
      (check request .denyOverrides unasked).result = .error .noDecision ∧
      (check request .denyOverrides asked).result = .ok true := by
  refine ⟨rfl, ?_, ?_, ?_, ?_⟩
  · cbv
  · cbv
  · cbv
  · cbv

end Engine
end PolicyDecision
