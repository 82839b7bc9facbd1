import PolicyDecision.Proofs.Remembered
import PolicyDecision.Proofs.Verdict

/-!
# Runs of an engine

What can be done with an engine (`Engine.Operation`), and the engine after a sequence of it
(`Engine.run`). An operation that fails leaves the engine as the failure left it, and the run goes on.

A decision asks policies one after the other, so it keeps what each reaction keeps
(`Compounder.keeps_decideFrom`), and a request keeps what the search for candidates and the decision keep
(`Engine.keeps_check`).
-/

namespace PolicyDecision

namespace Engine

/-- Something that is done with an engine. -/
inductive Operation
  | createEntity (fresh : EntityId) (parents : IdSet .entity)
  | upsertEntity (entity : Entity)
  | addParent (target parent : EntityId)
  | upsertResource (resource : Resource)
  | deleteResource (id : ResourceId)
  | upsertPolicy (policy : Policy)
  | deletePolicy (id : PolicyId)
  | addEntityOps (ops : List (String × Factory Entity))
  | addContextOps (ops : List (String × Factory Context))
  | ancestors (id : EntityId) (includeSelf : Bool)
  | compileCheck (tree : Tree)
  | check (request : Request) (compounder : Compounder)

/-- The engine after an operation. -/
def Operation.perform (engine : Engine) : Operation → Engine
  | createEntity fresh parents => (Engine.createEntity fresh parents engine).state
  | upsertEntity entity => (Engine.upsertEntity entity engine).state
  | addParent target parent => (Engine.addParent target parent engine).state
  | upsertResource resource => (Engine.upsertResource resource engine).state
  | deleteResource id => (Engine.deleteResource id engine).state
  | upsertPolicy policy => (Engine.upsertPolicy policy engine).state
  | deletePolicy id => (Engine.deletePolicy id engine).state
  | addEntityOps ops => (Engine.addEntityOps ops engine).state
  | addContextOps ops => (Engine.addContextOps ops engine).state
  | ancestors id includeSelf => (Engine.ancestors id includeSelf engine).state
  | compileCheck tree => (Engine.compileCheck tree engine).state
  | check request compounder => (Engine.check request compounder engine).state

/-- The engine after a sequence of operations. -/
def run (engine : Engine) (operations : List Operation) : Engine :=
  operations.foldl Operation.perform engine

@[simp] theorem run_nil (engine : Engine) : engine.run [] = engine := rfl

@[simp] theorem run_cons (engine : Engine) (operation : Operation) (operations : List Operation) :
    engine.run (operation :: operations) = (operation.perform engine).run operations := rfl

theorem run_append (engine : Engine) (first rest : List Operation) :
    engine.run (first ++ rest) = (engine.run first).run rest :=
  List.foldl_append

/-- A history is split at its last operation or earlier. -/
theorem snoc_eq_iff {history before after : List Operation} {operation split : Operation} :
    history ++ [operation] = before ++ split :: after ↔
      (history = before ∧ operation = split ∧ after = []) ∨
        ∃ rest, after = rest ++ [operation] ∧ history = before ++ split :: rest := by
  constructor
  · intro h
    rcases List.eq_nil_or_concat after with rfl | ⟨rest, last, rfl⟩
    · obtain ⟨hbefore, hsplit⟩ := List.append_inj' h rfl
      exact .inl ⟨hbefore, List.singleton_inj.1 hsplit, rfl⟩
    · rw [List.concat_eq_append, ← List.cons_append, ← List.append_assoc] at h
      obtain ⟨hhistory, hlast⟩ := List.append_inj' h rfl
      refine .inr ⟨rest, ?_, hhistory⟩
      rw [List.concat_eq_append, hlast]
  · rintro (⟨rfl, rfl, rfl⟩ | ⟨rest, rfl, rfl⟩)
    · rfl
    · rw [List.append_assoc, List.cons_append]

end Engine

/-! ### Decisions on reactions that agree -/

/-- The results are the same, or both are failures in `Q`. -/
inductive Agrees {α : Type} (Q : Error → Prop) : Except Error α → Except Error α → Prop
  | same (r : Except Error α) : Agrees Q r r
  | failed {e e' : Error} (h : Q e) (h' : Q e') : Agrees Q (.error e) (.error e')

namespace Agrees

variable {α : Type} {Q : Error → Prop} {r r' r'' : Except Error α}

theorem symm (h : Agrees Q r r') : Agrees Q r' r := by
  cases h with
  | same => exact .same _
  | failed he he' => exact .failed he' he

theorem trans (h : Agrees Q r r') (h' : Agrees Q r' r'') : Agrees Q r r'' := by
  cases h with
  | same => exact h'
  | failed he he' =>
    cases h' with
    | same => exact .failed he he'
    | failed _ he'' => exact .failed he he''

end Agrees

section Decision

variable {I : Evaluation → Prop} {context : Context} {Q : Error → Prop} {fair : Prop}
  {react : Policy → Except Error Reaction} (compounder : Compounder) (candidates : List Policy)

theorem Compounder.ensures_consult (input : Consultation) :
    Act.Ensures I (· = compounder.compound input) (compounder.consult input) :=
  (Act.ensures_record (R := fun r => r = .ok ()) _ rfl).bind (fun _ he => nomatch he) fun _ _ =>
    Act.ensures_ofExcept rfl

theorem Compounder.ensures_concludeAfter (react : Policy → Except Error Reaction)
    (reactions : List Reaction) :
    Act.Ensures I (· = compounder.settleFrom react candidates reactions [])
      (compounder.concludeAfter context candidates reactions) := by
  refine ⟨fun s hs => ?_, fun s _ => compounder.result_concludeAfter context candidates reactions react s⟩
  have hkeeps : Act.Keeps I (compounder.concludeAfter context candidates reactions) := by
    rw [concludeAfter]
    split
    · apply (ensures_consult compounder _).forget.bind
      intro step
      cases step with
      | conclude verdict => exact (Act.keeps_record _).bind fun _ => Act.keeps_pure verdict
      | proceed => exact Act.keeps_throw _
    · exact (Act.keeps_record _).bind fun _ => Act.keeps_throw _
  exact hkeeps.keeps s hs

/-- **A decision keeps what every reaction keeps**; and if every reaction agrees with a known one, then
the decision agrees with what the known reactions settle. -/
theorem Compounder.ensures_decideFrom {rest : List Policy}
    (hreact : ∀ policy : Policy,
      Act.Ensures I (fun r => fair → Agrees Q r (react policy)) (policy.react context))
    (reactions : List Reaction) :
    Act.Ensures I (fun r => fair → Agrees Q r (compounder.settleFrom react candidates reactions rest))
      (compounder.decideFrom context candidates reactions rest) := by
  induction rest generalizing reactions with
  | nil =>
    refine (ensures_concludeAfter compounder candidates react reactions).mono fun r hr _ => ?_
    rw [hr]
    exact .same _
  | cons policy rest ih =>
    unfold decideFrom settleFrom
    refine (hreact policy).bind (fun e he hfair => ?_) fun reaction hreaction => ?_
    · specialize he hfair
      generalize react policy = known at he
      cases he with
      | same => exact .same _
      | failed h h' => exact .failed h h'
    · -- An answer agrees with nothing but itself, so both decisions go on with one reaction.
      have hknown : fair → react policy = .ok reaction := by
        intro hfair
        specialize hreaction hfair
        generalize react policy = known at hreaction
        cases hreaction
        rfl
      apply Act.Ensures.record
      cases compounder.mode.perPolicy with
      | false =>
        refine (ih (reactions ++ [reaction])).mono fun r hr hfair => ?_
        rw [hknown hfair]
        exact hr hfair
      | true =>
        refine (ensures_consult compounder _).bind (fun e he hfair => ?_) fun step hstep => ?_
        · rw [hknown hfair]
          simp only [if_true, bind, Except.bind, ← he]
          exact .same _
        · cases step with
          | conclude verdict =>
            refine Act.Ensures.record _ (Act.ensures_pure fun hfair => ?_)
            rw [hknown hfair]
            simp only [if_true, bind, Except.bind, ← hstep]
            exact .same _
          | proceed =>
            refine (ih (reactions ++ [reaction])).mono fun r hr hfair => ?_
            rw [hknown hfair]
            simp only [if_true, bind, Except.bind, ← hstep]
            exact hr hfair

/-- A decision keeps what every reaction keeps. -/
theorem Compounder.keeps_decideFrom {rest : List Policy}
    (hreact : ∀ policy : Policy, Act.Keeps I (policy.react context)) (reactions : List Reaction) :
    Act.Keeps I (compounder.decideFrom context candidates reactions rest) := by
  have hdecide : Act.Ensures I
      (fun r => False → Agrees (fun _ => True) r
        (compounder.settleFrom (fun _ => .ok none) candidates reactions rest))
      (compounder.decideFrom context candidates reactions rest) :=
    compounder.ensures_decideFrom candidates
      (fun policy => (hreact policy).mono fun _ _ hfalse => hfalse.elim) reactions
  exact hdecide.forget

end Decision

/-- A reaction keeps what compiling keeps of the checks. -/
theorem Policy.keeps_react_of_checks {I : Checks → Prop}
    (hcompile : ∀ tree, Act.Keeps I (Checks.compile tree)) (policy : Policy) (context : Context) :
    Act.Keeps (fun evaluation : Evaluation => I evaluation.checks) (policy.react context) := by
  have hcontents : Act.Keeps I (policy.contents.mapM Content.compile) :=
    .mapM fun content _ => (hcompile content.check).bind fun _ => Act.keeps_pure _
  refine Act.Keeps.bind (hcontents.zoom (fun _ h => h) fun _ _ _ h => h) fun contents => ?_
  exact ⟨fun _ h => h, fun _ _ => trivial⟩

namespace Engine

/-- The search for candidates keeps what asking for ancestors keeps. -/
theorem keeps_candidates {I : Engine → Prop} {J : Graph → Prop} {resource : Resource}
    (hrelevance : Act.Keeps J (Graph.relevance resource)) (hpart : ∀ engine, I engine → J engine.graph)
    (hput : ∀ engine graph, I engine → J graph → I { engine with graph }) :
    Act.Keeps I (candidates resource) := by
  have hsearch : Act.Keeps I (onGraph (Graph.relevance resource)) := hrelevance.zoom hpart hput
  refine hsearch.bind fun relevance => (Act.keeps_record _).bind fun _ => Act.keeps_get.bind fun _ => ?_
  exact (Act.keeps_record _).bind fun _ => Act.keeps_pure _

/-- A request keeps what the search for candidates keeps and what every reaction keeps. -/
theorem keeps_check {I : Engine → Prop} {J : Context → Evaluation → Prop}
    (hcandidates : ∀ resource, Act.Keeps I (candidates resource))
    (hreact : ∀ (policy : Policy) (context : Context),
      Act.Keeps (J context) (policy.react context))
    (hstart : ∀ engine context, I engine → J context (evaluation none engine))
    (hresume : ∀ engine evaluation context, I engine → J context evaluation →
      I (resume evaluation engine))
    (request : Request) (compounder : Compounder) :
    Act.Keeps I (check request compounder) := by
  rw [check]
  have hresolve : Act.Keeps I (resolve request.resource) :=
    ⟨fun engine h => by rwa [resolve_state], fun _ _ => trivial⟩
  refine hresolve.bind fun resource => (Act.keeps_record _).bind fun _ => ?_
  apply (hcandidates resource).bind
  intro policies
  exact (Compounder.keeps_decideFrom compounder policies (fun policy => hreact policy _) []).zoom
    (fun engine => hstart engine _) fun engine evaluation => hresume engine evaluation _

/-- A request keeps what compiling keeps of the checks. -/
theorem keeps_check_of_checks {I : Checks → Prop}
    (hcompile : ∀ tree, Act.Keeps I (Checks.compile tree)) (request : Request)
    (compounder : Compounder) :
    Act.Keeps (fun engine : Engine => I engine.checks) (check request compounder) := by
  apply keeps_check (J := fun _ evaluation => I evaluation.checks)
  · exact fun resource => keeps_candidates (Act.keeps_true _) (fun _ _ => trivial) fun _ _ h _ => h
  · exact Policy.keeps_react_of_checks hcompile
  · exact fun _ _ h => h
  · exact fun _ _ _ _ h => h

end Engine
end PolicyDecision
