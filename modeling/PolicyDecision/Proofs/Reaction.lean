import PolicyDecision.Proofs.Compilation
import PolicyDecision.Proofs.Memoless

/-!
# What a policy reacts

The reading of a policy without predicates (`Policy.reading`): if a custom key of any of its
contents is at fault, the first fault is the error and nothing is evaluated. Otherwise the trees
of the contents are read one after the other, until one with a denial holds or one fails.

Without memos, `Policy.react` does what the reading says (`Policy.react_memoless`). With the law of
steadiness, a policy's reaction may so be taken by itself: `Engine.reaction` is its reaction when
nothing was evaluated before.
-/

namespace PolicyDecision

/-! ### The reading of a policy -/

/-- Read the trees of contents in order. `allowed` tells whether one that held allows. -/
def Content.reads (registry : Registry) (context : Context) (allowed : Bool) :
    List Content → Act Inquiry Reaction
  | [] => return if allowed then some true else none
  | content :: rest => do
    if ← Tree.holds registry context content.check then
      match content.reaction with
      | some false => return some false
      | some true => Content.reads registry context true rest
      | none => Content.reads registry context allowed rest
    else Content.reads registry context allowed rest

/-- The custom keys of contents, in order. -/
def Content.customKeys (contents : List Content) : List CustomKey :=
  contents.flatMap fun content => Tree.customKeys content.check

/-- The reaction of a policy whose conditions are read as they stand. -/
def Policy.reading (registry : Registry) (context : Context) (policy : Policy) :
    Act Inquiry Reaction :=
  match (Content.customKeys policy.contents).findSome? registry.fault? with
  | some e => throw e
  | none => Content.reads registry context false policy.contents

/-! ### Contents that are made predicates of -/

variable (registry : Registry)

/-- Make a predicate of the condition of a content, with these operators and no memo. -/
def Content.make (content : Content) : Audited (ContextPredicate × Reaction) := do
  return (← Tree.compile registry content.check, content.reaction)

theorem Content.compile_memoless (contents : List Content) :
    (contents.mapM Content.compile ⟨registry, none⟩).result =
        (contents.mapM (Content.make registry) ()).result ∧
      (contents.mapM Content.compile ⟨registry, none⟩).state = ⟨registry, none⟩ := by
  induction contents with
  | nil => exact ⟨rfl, rfl⟩
  | cons content contents ih =>
    obtain ⟨hresult, hstate⟩ := ih
    have hcompile : Content.compile content ⟨registry, none⟩ =
        ⟨(Content.make registry content ()).result, ⟨registry, none⟩,
          (Content.make registry content ()).trail⟩ := by
      simp only [Content.compile, Content.make, Act.bind_apply, Checks.compile_memoless]
      cases (Tree.compile registry content.check ()).result with
      | error e => rfl
      | ok p => rfl
    -- The head leaves the state as it was, so the induction hypothesis fits the rest.
    rw [List.mapM_cons, List.mapM_cons]
    simp only [Act.bind_apply, hcompile]
    cases (Content.make registry content ()).result with
    | error e => exact ⟨rfl, rfl⟩
    | ok made =>
      simp only [hresult, hstate]
      cases (contents.mapM (Content.make registry) ()).result with
      | error e => exact ⟨rfl, rfl⟩
      | ok rest => exact ⟨rfl, rfl⟩

theorem Content.makes_make (content : Content) :
    Makes registry (Tree.customKeys content.check)
      (fun made => made.2 = content.reaction ∧
        ∀ context, made.1.eval context = Tree.holds registry context content.check)
      (Content.make registry content) :=
  (Tree.makes_compile registry content.check).map fun _ hp => ⟨rfl, hp⟩

/-- Scanning the predicates of contents is reading their trees. -/
theorem Content.makes_compile (contents : List Content) :
    Makes registry (Content.customKeys contents)
      (fun made => ∀ context allowed,
        Content.scan context allowed made = Content.reads registry context allowed contents)
      (contents.mapM (Content.make registry)) := by
  induction contents with
  | nil =>
    rw [List.mapM_nil]
    apply Makes.pure
    intro context allowed
    rw [Content.scan, Content.reads]
  | cons content contents ih =>
    rw [List.mapM_cons, Content.customKeys, List.flatMap_cons]
    apply Makes.bind (content.makes_make registry)
    intro made hmade
    apply Makes.map ih
    intro rest hrest context allowed
    obtain ⟨check, reaction⟩ := made
    obtain ⟨rfl, hcheck⟩ := hmade
    -- The two branch alike: on the answer, and then on the reaction that goes with it.
    unfold Content.scan Content.reads
    rw [hcheck]
    apply bind_congr
    intro holds
    cases holds with
    | false => exact hrest context allowed
    | true =>
      cases hreaction : content.reaction with
      | none => exact hrest context allowed
      | some verdict =>
        cases verdict with
        | false => rfl
        | true => exact hrest context true

/-! ### Policies react as they read -/

/-- **A policy reacts as it reads**, whatever was evaluated before. -/
theorem Policy.react_memoless (policy : Policy) (context : Context) {s : Evaluation}
    (h : s.checks = ⟨registry, none⟩) :
    (policy.react context s).result = (policy.reading registry context s.inquiry).result := by
  have hmakes := Content.makes_compile registry policy.contents
  obtain ⟨hresult, -⟩ := Content.compile_memoless registry policy.contents
  have hmake : (Evaluation.onChecks (policy.contents.mapM Content.compile) s).result =
      (policy.contents.mapM (Content.make registry) ()).result := by
    rw [Evaluation.onChecks, Act.zoom_apply, h]
    exact hresult
  rw [Policy.react, Policy.reading]
  cases hmade : (policy.contents.mapM (Content.make registry) ()).result with
  | error e =>
    rw [hmade] at hmake
    rw [Act.bind_error hmake, hmakes.error e hmade]
    rfl
  | ok made =>
    rw [hmade] at hmake
    obtain ⟨hkeys, hscan⟩ := hmakes.ok made hmade
    rw [Act.bind_ok hmake, List.findSome?_eq_none_iff.2 hkeys]
    simp only [hscan]
    rfl

namespace Engine

/-- The reaction of a policy to a request, when nothing was evaluated before. -/
def reaction (engine : Engine) (context : Context) (policy : Policy) : Except Error Reaction :=
  (policy.react context (engine.evaluation none)).result

variable {engine : Engine} (h : engine.Memoless)
include h

/-- An engine without memos starts evaluations over its entities and operators. -/
theorem over_evaluation (requester : EntityId) :
    Evaluation.Over engine.graph.entities engine.checks.registry requester
      (engine.evaluation none) where
  checks := h.checks_eq
  inquiry := ⟨h.graph_eq, nofun⟩

/-- What was evaluated before does not matter for the reaction of a policy. -/
theorem react_eq_reaction {context : Context} {s : Evaluation} (policy : Policy)
    (hs : Evaluation.Over engine.graph.entities engine.checks.registry context.requester s) :
    (policy.react context s).result = engine.reaction context policy :=
  (Policy.steady_react engine.graph.entities engine.checks.registry policy context).result_eq hs
    (over_evaluation h context.requester)

/-- A policy that reacts can be made predicates of. -/
theorem compiles_of_reaction {context : Context} {policy : Policy} {reaction : Reaction}
    (hreaction : engine.reaction context policy = .ok reaction) {content : Content}
    (hcontent : content ∈ policy.contents) :
    ∃ p, (Checks.compile content.check engine.checks).result = .ok p := by
  rw [Engine.reaction, Policy.react_memoless engine.checks.registry policy context h.checks_eq,
    Policy.reading] at hreaction
  have hkeys : (Content.customKeys policy.contents).findSome? engine.checks.registry.fault? =
      none := by
    cases hfault : (Content.customKeys policy.contents).findSome? engine.checks.registry.fault?
    with
    | none => rfl
    | some e =>
      rw [hfault] at hreaction
      cases hreaction
  rw [h.checks_eq, Checks.compile_memoless]
  apply (Tree.makes_compile engine.checks.registry content.check).ok_iff.2
  intro key hkey
  exact List.findSome?_eq_none_iff.1 hkeys key (List.mem_flatMap.2 ⟨content, hcontent, hkey⟩)

end Engine
end PolicyDecision
