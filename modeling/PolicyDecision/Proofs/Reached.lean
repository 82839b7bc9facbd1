import PolicyDecision.Proofs.Evaluating
import PolicyDecision.Proofs.Registration

/-!
# What a request reaches

Reading a tree from a state comes to some of its conditions and passes over others, as conjunctions and
disjunctions end early (`Tree.Reaches`). The requester is tested on the way exactly if the reading comes to a
condition on the requester other than the bare wildcard (`Tree.asks_iff`).

A request evaluates one predicate after the other, each in the state that the ones before it have left
(`Compounder.Evaluates`), and a leaf is reached by the request if one of them reaches it
(`Compounder.reached_iff`). Whatever has been done with an engine, these predicates were made of trees that
are written like the checks of the candidates (`Compounder.Evaluates.made`). So the requester is tested
exactly if the request reaches a condition that does so (`Engine.reached_requester_iff`).
-/

namespace PolicyDecision

open Act

/-! ### Conditions that are reached -/

section

variable (registry : Registry) (context : Context)

mutual

/-- Reading the condition from this state comes to the last condition, which combines no trees. -/
def Condition.Reaches : Condition → Inquiry → Condition → Prop
  | .requester restrictor, _, target => target = .requester restrictor
  | .resourceId id, _, target => target = .resourceId id
  | .access allowed, _, target => target = .access allowed
  | .custom name arg, _, target => target = .custom name arg
  | .not tree, s, target => Tree.Reaches tree s target
  | .nor trees, s, target | .or trees, s, target => Tree.AnyReaches trees s target
  | .and trees, s, target => Tree.AllReach trees s target

/-- The conditions of a tree are read until one does not hold. -/
def Tree.Reaches : List Condition → Inquiry → Condition → Prop
  | [], _, _ => False
  | condition :: conditions, s, target =>
    condition.Reaches s target ∨ ((condition.holds registry context s).result = .ok true ∧
      Tree.Reaches conditions (condition.holds registry context s).state target)

/-- The trees of a conjunction are read until one does not hold. -/
def Tree.AllReach : List (List Condition) → Inquiry → Condition → Prop
  | [], _, _ => False
  | tree :: trees, s, target =>
    Tree.Reaches tree s target ∨ ((Tree.holds registry context tree s).result = .ok true ∧
      Tree.AllReach trees (Tree.holds registry context tree s).state target)

/-- The trees of a disjunction are read until one holds. -/
def Tree.AnyReaches : List (List Condition) → Inquiry → Condition → Prop
  | [], _, _ => False
  | tree :: trees, s, target =>
    Tree.Reaches tree s target ∨ ((Tree.holds registry context tree s).result = .ok false ∧
      Tree.AnyReaches trees (Tree.holds registry context tree s).state target)

end

end

/-- The condition is a test of the requester, other than the bare wildcard. -/
def Condition.TestsRequester : Condition → Prop
  | .requester restrictor => restrictor ≠ .wildcard
  | _ => False

variable {registry : Registry} {context : Context}

theorem Act.mem_trail_ite {σ : Type} {x y z : Act σ Bool} {s : σ} {event : Event} :
    event ∈ ((do if ← x then y else z) s : Outcome σ Bool).trail ↔
      event ∈ (x s).trail ∨ ((x s).result = .ok true ∧ event ∈ (y (x s).state).trail) ∨
        ((x s).result = .ok false ∧ event ∈ (z (x s).state).trail) := by
  rw [Act.mem_trail_bind]
  refine or_congr_right ?_
  constructor
  · rintro ⟨holds, hx, hevent⟩
    cases holds with
    | true => exact .inl ⟨hx, hevent⟩
    | false => exact .inr ⟨hx, hevent⟩
  · rintro (⟨hx, hevent⟩ | ⟨hx, hevent⟩)
    · exact ⟨true, hx, hevent⟩
    · exact ⟨false, hx, hevent⟩

theorem exists_or_and_iff {α : Type} {p q r : α → Prop} {A : Prop} :
    (∃ a, (q a ∨ (A ∧ r a)) ∧ p a) ↔ (∃ a, q a ∧ p a) ∨ (A ∧ ∃ a, r a ∧ p a) := by
  grind

mutual

theorem Condition.asks_iff : (c : Condition) → (s : Inquiry) →
    (.reached .requester ∈ (c.holds registry context s).trail ↔
      ∃ target, c.Reaches registry context s target ∧ target.TestsRequester)
  | .requester .wildcard, s => by
    rw [Condition.holds]
    simp [Condition.Reaches, Condition.TestsRequester]
  | .requester .noOwner, s => by
    rw [Condition.holds, Act.mem_trail_bind]
    · simp [Condition.Reaches, Condition.TestsRequester]
    · simp
  | .requester (.all clauses), s => by
    rw [Condition.holds, Act.mem_trail_bind]
    · simp [Condition.Reaches, Condition.TestsRequester]
    · simp
  | .resourceId id, s => by
    rw [Condition.holds]
    simp [Condition.Reaches, Condition.TestsRequester, Act.bind_apply]
  | .access allowed, s => by
    rw [Condition.holds]
    simp [Condition.Reaches, Condition.TestsRequester, Act.bind_apply]
  | .custom name arg, s => by
    rw [Condition.holds]
    simp [Condition.Reaches, Condition.TestsRequester, Act.bind_apply]
  | .not tree, s => by
    rw [Condition.holds, Act.mem_trail_bind]
    simp only [Condition.Reaches, Act.pure_apply, List.not_mem_nil, and_false, exists_false, or_false]
    exact Tree.asks_iff tree s
  | .nor trees, s => by
    rw [Condition.holds, Act.mem_trail_bind]
    simp only [Condition.Reaches, Act.pure_apply, List.not_mem_nil, and_false, exists_false, or_false]
    exact Tree.anyAsks_iff trees s
  | .or trees, s => by
    rw [Condition.holds]
    simp only [Condition.Reaches]
    exact Tree.anyAsks_iff trees s
  | .and trees, s => by
    rw [Condition.holds]
    simp only [Condition.Reaches]
    exact Tree.allAsk_iff trees s

theorem Tree.asks_iff : (t : Tree) → (s : Inquiry) →
    (.reached .requester ∈ (Tree.holds registry context t s).trail ↔
      ∃ target, Tree.Reaches registry context t s target ∧ target.TestsRequester)
  | [], s => by
    rw [Tree.holds]
    simp [Tree.Reaches]
  | c :: cs, s => by
    rw [Tree.holds, Act.mem_trail_ite, Condition.asks_iff c s, Tree.asks_iff cs]
    simp only [Tree.Reaches, Act.pure_apply, List.not_mem_nil, and_false, or_false, exists_or_and_iff]

theorem Tree.allAsk_iff : (ts : List Tree) → (s : Inquiry) →
    (.reached .requester ∈ (Tree.allHold registry context ts s).trail ↔
      ∃ target, Tree.AllReach registry context ts s target ∧ target.TestsRequester)
  | [], s => by
    rw [Tree.allHold]
    simp [Tree.AllReach]
  | t :: ts, s => by
    rw [Tree.allHold, Act.mem_trail_ite, Tree.asks_iff t s, Tree.allAsk_iff ts]
    simp only [Tree.AllReach, Act.pure_apply, List.not_mem_nil, and_false, or_false, exists_or_and_iff]

theorem Tree.anyAsks_iff : (ts : List Tree) → (s : Inquiry) →
    (.reached .requester ∈ (Tree.anyHolds registry context ts s).trail ↔
      ∃ target, Tree.AnyReaches registry context ts s target ∧ target.TestsRequester)
  | [], s => by
    rw [Tree.anyHolds]
    simp [Tree.AnyReaches]
  | t :: ts, s => by
    rw [Tree.anyHolds, Act.mem_trail_ite, Tree.asks_iff t s, Tree.anyAsks_iff ts]
    simp only [Tree.AnyReaches, Act.pure_apply, List.not_mem_nil, and_false, false_or, exists_or_and_iff]

end

/-! ### Predicates that are evaluated -/

/-- Evaluating these predicates in order, from this state, evaluates a predicate in a state. -/
inductive Content.Evaluates (context : Context) :
    List (ContextPredicate × Reaction) → Inquiry → ContextPredicate → Inquiry → Prop
  | first {p : ContextPredicate} {reaction : Reaction} {rest : List (ContextPredicate × Reaction)}
      {s : Inquiry} : Evaluates context ((p, reaction) :: rest) s p s
  /-- A content that holds with a denial is the last. -/
  | later {p q : ContextPredicate} {reaction : Reaction} {rest : List (ContextPredicate × Reaction)}
      {s t : Inquiry} {holds : Bool} (hresult : (p.eval context s).result = .ok holds)
      (hgo : ¬(holds = true ∧ reaction = some false))
      (hrest : Evaluates context rest (p.eval context s).state q t) :
      Evaluates context ((p, reaction) :: rest) s q t

/-- All contents are made predicates first. -/
def Policy.Evaluates (policy : Policy) (context : Context) (s : Evaluation) (q : ContextPredicate)
    (t : Inquiry) : Prop :=
  ∃ contents, (policy.contents.mapM Content.compile s.checks).result = .ok contents ∧
    Content.Evaluates context contents s.inquiry q t

/-- Asking the remaining candidates, after those that reacted already. -/
inductive Compounder.Evaluates (compounder : Compounder) (context : Context) (candidates : List Policy) :
    List Reaction → List Policy → Evaluation → ContextPredicate → Inquiry → Prop
  | first {reactions : List Reaction} {policy : Policy} {rest : List Policy} {s : Evaluation}
      {q : ContextPredicate} {t : Inquiry} (h : policy.Evaluates context s q t) :
      Evaluates compounder context candidates reactions (policy :: rest) s q t
  | later {reactions : List Reaction} {policy : Policy} {rest : List Policy} {s : Evaluation}
      {q : ContextPredicate} {t : Inquiry} {reaction : Reaction}
      (hresult : (policy.react context s).result = .ok reaction)
      (hgo : compounder.mode.perPolicy = true → compounder.compound
        ⟨candidates, reactions ++ [reaction], reactions.length, reaction⟩ = .ok .proceed)
      (hrest : Evaluates compounder context candidates (reactions ++ [reaction]) rest
        (policy.react context s).state q t) :
      Evaluates compounder context candidates reactions (policy :: rest) s q t

/-- What follows a content, unless it is a denial that holds: the contents after it, with or without an
allowance. -/
theorem Content.scan_cons (p : ContextPredicate) (reaction : Reaction)
    (rest : List (ContextPredicate × Reaction)) (allowed : Bool) :
    Content.scan context allowed ((p, reaction) :: rest) = (do
      let holds ← p.eval context
      if holds = true ∧ reaction = some false then return some false
      else Content.scan context (allowed || (holds && reaction = some true)) rest) := by
  rw [Content.scan.eq_def]
  refine bind_congr fun holds => ?_
  cases holds with
  | false => simp
  | true =>
    rcases reaction with _ | _ | _
    · simp
    · simp
    · simp

theorem Content.mem_trail_scan {event : Event} {p : ContextPredicate} {reaction : Reaction}
    {rest : List (ContextPredicate × Reaction)} {allowed : Bool} {s : Inquiry} :
    event ∈ (Content.scan context allowed ((p, reaction) :: rest) s).trail ↔
      event ∈ (p.eval context s).trail ∨ ∃ holds, (p.eval context s).result = .ok holds ∧
        ¬(holds = true ∧ reaction = some false) ∧
        event ∈ (Content.scan context (allowed || (holds && reaction = some true)) rest
          (p.eval context s).state).trail := by
  rw [scan_cons, Act.mem_trail_bind]
  refine or_congr_right (exists_congr fun holds => and_congr_right fun _ => ?_)
  split
  · next hdenies => simp [hdenies]
  · next hgo => simp [hgo]

/-- **The leaves that are reached** are reached by the predicates that are evaluated. -/
theorem Content.reached_iff {leaf : Leaf} {contents : List (ContextPredicate × Reaction)}
    {allowed : Bool} {s : Inquiry} :
    .reached leaf ∈ (Content.scan context allowed contents s).trail ↔
      ∃ q t, Content.Evaluates context contents s q t ∧ .reached leaf ∈ (q.eval context t).trail := by
  induction contents generalizing allowed s with
  | nil =>
    refine iff_of_false (List.not_mem_nil) ?_
    rintro ⟨q, t, hq, -⟩
    cases hq
  | cons content rest ih =>
    obtain ⟨p, reaction⟩ := content
    rw [mem_trail_scan]
    constructor
    · rintro (hp | ⟨holds, hresult, hgo, hrest⟩)
      · exact ⟨p, s, .first, hp⟩
      · obtain ⟨q, t, hq, hleaf⟩ := ih.1 hrest
        exact ⟨q, t, .later hresult hgo hq, hleaf⟩
    · rintro ⟨q, t, hq, hleaf⟩
      cases hq with
      | first => exact .inl hleaf
      | later hresult hgo hrest => exact .inr ⟨_, hresult, hgo, ih.2 ⟨q, t, hrest, hleaf⟩⟩

theorem Policy.reached_iff {leaf : Leaf} {policy : Policy} {s : Evaluation} :
    .reached leaf ∈ (policy.react context s).trail ↔
      ∃ q t, policy.Evaluates context s q t ∧ .reached leaf ∈ (q.eval context t).trail := by
  have hbuilds : Act.Leaves Event.IsBuilding (policy.contents.mapM Content.compile) :=
    .mapM fun content => Content.builds_compile content
  rw [Policy.react, Act.mem_trail_bind]
  constructor
  · rintro (hcompile | ⟨contents, hcontents, hscan⟩)
    · exact (hbuilds _ _ hcompile).elim
    · obtain ⟨q, t, hq, hleaf⟩ := Content.reached_iff.1 hscan
      exact ⟨q, t, ⟨contents, hcontents, hq⟩, hleaf⟩
  · rintro ⟨q, t, ⟨contents, hcontents, hq⟩, hleaf⟩
    exact .inr ⟨contents, hcontents, Content.reached_iff.2 ⟨q, t, hq, hleaf⟩⟩

section

variable {compounder : Compounder} {candidates : List Policy}

theorem Compounder.not_reached_concludeAfter (leaf : Leaf) (reactions : List Reaction) :
    Act.Leaves (fun event => event ≠ .reached leaf)
      (compounder.concludeAfter context candidates reactions) := by
  rw [concludeAfter]
  split
  · refine ((Act.leaves_record Event.noConfusion).bind fun _ => Act.leaves_ofExcept _).bind fun step => ?_
    cases step with
    | conclude verdict => exact (Act.leaves_record Event.noConfusion).bind fun _ => Act.leaves_pure verdict
    | proceed => exact Act.leaves_throw _
  · exact (Act.leaves_record Event.noConfusion).bind fun _ => Act.leaves_throw _

theorem Compounder.mem_trail_decideFrom {leaf : Leaf} {policy : Policy} {rest : List Policy}
    {reactions : List Reaction} {s : Evaluation} :
    .reached leaf ∈ (compounder.decideFrom context candidates reactions (policy :: rest) s).trail ↔
      .reached leaf ∈ (policy.react context s).trail ∨ ∃ reaction,
        (policy.react context s).result = .ok reaction ∧
        (compounder.mode.perPolicy = true → compounder.compound
          ⟨candidates, reactions ++ [reaction], reactions.length, reaction⟩ = .ok .proceed) ∧
        .reached leaf ∈ (compounder.decideFrom context candidates (reactions ++ [reaction]) rest
          (policy.react context s).state).trail := by
  rw [decideFrom]
  rw [Act.mem_trail_bind]
  refine or_congr_right (exists_congr fun reaction => and_congr_right fun _ => ?_)
  cases hmode : compounder.mode.perPolicy with
  | false => simp [Act.bind_apply]
  | true =>
    cases hcompound : compounder.compound
        ⟨candidates, reactions ++ [reaction], reactions.length, reaction⟩ with
    | error e => simp [Act.bind_apply, consult, hcompound]
    | ok step =>
      cases step with
      | conclude verdict => simp [Act.bind_apply, consult, hcompound, -bind_pure_comp]
      | proceed => simp [Act.bind_apply, consult, hcompound]

theorem Compounder.reached_iff {leaf : Leaf} {rest : List Policy} {reactions : List Reaction}
    {s : Evaluation} :
    .reached leaf ∈ (compounder.decideFrom context candidates reactions rest s).trail ↔
      ∃ q t, compounder.Evaluates context candidates reactions rest s q t ∧
        .reached leaf ∈ (q.eval context t).trail := by
  induction rest generalizing reactions s with
  | nil =>
    unfold decideFrom
    refine iff_of_false (fun hmem => not_reached_concludeAfter leaf reactions s _ hmem rfl) ?_
    rintro ⟨q, t, hq, -⟩
    cases hq
  | cons policy rest ih =>
    rw [mem_trail_decideFrom]
    constructor
    · rintro (hreact | ⟨reaction, hresult, hgo, hrest⟩)
      · obtain ⟨q, t, hq, hleaf⟩ := Policy.reached_iff.1 hreact
        exact ⟨q, t, .first hq, hleaf⟩
      · obtain ⟨q, t, hq, hleaf⟩ := ih.1 hrest
        exact ⟨q, t, .later hresult hgo hq, hleaf⟩
    · rintro ⟨q, t, hq, hleaf⟩
      cases hq with
      | first h => exact .inl (Policy.reached_iff.2 ⟨q, t, h, hleaf⟩)
      | later hresult hgo hrest => exact .inr ⟨_, hresult, hgo, ih.2 ⟨q, t, hrest, hleaf⟩⟩

end

/-! ### Where predicates come from -/

/-- The predicate was made with these operators of the tree `u`, which is written like `t`. -/
structure Tree.MadeLike (t : Tree) (registry : Registry) (u : Tree) (p : ContextPredicate) : Prop where
  written : (Tree.toJson u).compact = (Tree.toJson t).compact
  alike : Tree.Alike u t
  made : (Tree.compile registry u ()).result = .ok p

/-- What is remembered was made, with some operators, of trees that are written as their keys say. -/
def Checks.Sourced (checks : Checks) : Prop :=
  ∀ memo, checks.memo = some memo →
    memo.Each fun key p => ∃ registry, Checks.MadeOf registry (fun _ => True) key p

namespace Checks

theorem sourced_new (registry : Registry) (config : CacheConfig) :
    Sourced ⟨registry, Memo.ofConfig config⟩ :=
  fun _ => Memo.each_of_ofConfig

theorem sourced_invalidate (checks : Checks) : Sourced (invalidate checks).state := by
  intro cleared hcleared
  rw [(invalidate_apply checks).2] at hcleared
  obtain ⟨memo, -, rfl⟩ := Option.map_eq_some_iff.1 hcleared
  exact Memo.each_clear

/-- A batch that is registered leaves what is remembered, or nothing of it. -/
theorem sourced_register {register : Act Checks Unit} {checks : Checks} (h : checks.Sourced)
    (hmemo : (register checks).state.memo = checks.memo) :
    Sourced ((register >>= fun _ => invalidate) checks).state := by
  cases hresult : (register checks).result with
  | ok a =>
    rw [bind_ok hresult]
    exact sourced_invalidate _
  | error e =>
    rw [bind_error hresult]
    intro memo hfound
    exact h memo (hmemo ▸ hfound)

theorem ensures_compile_sourced (t : Tree) :
    Act.Ensures Sourced (fun r => ∀ p, r = .ok p → ∃ registry u, t.MadeLike registry u p) (compile t) := by
  apply Act.ensures_of
  intro checks hchecks
  let P : String → ContextPredicate → Prop := fun key p =>
    ∃ registry, MadeOf registry (fun _ => True) key p
  have hcompile : Act.Ensures (Remembers checks.registry P) (Comes checks.registry P t) (compile t) :=
    ensures_compile fun p hunshadowed hp => ⟨_, t, trivial, hunshadowed, rfl, hp⟩
  have hremembers : Remembers checks.registry P checks := ⟨rfl, hchecks⟩
  -- What is found was made of a tree that is written alike, perhaps with other operators; what is made, of
  -- this tree with these.
  refine ⟨(hcompile.keeps checks hremembers).memo, fun p hp => ?_⟩
  have hcomes := hcompile.result checks hremembers
  rw [hp] at hcomes
  cases hcomes with
  | found hunshadowed hfound =>
    obtain ⟨registry, u, -, hunshadowed', hwritten, hmade⟩ := hfound
    exact ⟨registry, u, hwritten, Tree.alike_of_compact_eq hunshadowed' hunshadowed hwritten, hmade⟩
  | made hmade => exact ⟨_, t, rfl, .refl t, hmade⟩

end Checks

theorem Content.ensures_mapM_compile (contents : List Content) :
    Act.Ensures Checks.Sourced
      (fun r => ∀ made, r = .ok made → ∀ m ∈ made, ∃ content ∈ contents, ∃ registry u,
        content.check.MadeLike registry u m.1)
      (contents.mapM Content.compile) := by
  induction contents with
  | nil =>
    refine Act.ensures_pure fun made hmade m hm => ?_
    cases hmade
    cases hm
  | cons content contents ih =>
    rw [List.mapM_cons]
    have hcompile : Act.Ensures Checks.Sourced (fun r => ∀ m, r = .ok m → ∃ registry u,
        content.check.MadeLike registry u m.1) (Content.compile content) := by
      refine (Checks.ensures_compile_sourced content.check).bind (fun e he m hm => by cases hm) ?_
      intro p hp
      refine Act.ensures_pure fun m hm => ?_
      cases hm
      exact hp p rfl
    refine hcompile.bind (fun e he made hmade => by cases hmade) fun m hm => ?_
    refine ih.bind (fun e he made hmade => by cases hmade) fun rest hrest => ?_
    refine Act.ensures_pure fun made hmade m' hm' => ?_
    cases hmade
    rcases List.mem_cons.1 hm' with rfl | hm'
    · exact ⟨content, List.mem_cons_self, hm _ rfl⟩
    · obtain ⟨content', hcontent', hlike⟩ := hrest rest rfl m' hm'
      exact ⟨content', List.mem_cons_of_mem content hcontent', hlike⟩

theorem Content.Evaluates.mem {contents : List (ContextPredicate × Reaction)} {s t : Inquiry}
    {q : ContextPredicate} (h : Content.Evaluates context contents s q t) : ∃ m ∈ contents, m.1 = q := by
  induction h with
  | first => exact ⟨_, List.mem_cons_self, rfl⟩
  | later _ _ _ ih =>
    obtain ⟨m, hm, hq⟩ := ih
    exact ⟨m, List.mem_cons_of_mem _ hm, hq⟩

/-- The predicates that are evaluated were made of trees written like the checks of the candidates. -/
theorem Compounder.Evaluates.made {compounder : Compounder} {candidates : List Policy}
    {reactions : List Reaction} {rest : List Policy} {s : Evaluation} {q : ContextPredicate}
    {t : Inquiry} (hs : s.checks.Sourced)
    (h : compounder.Evaluates context candidates reactions rest s q t) :
    ∃ policy ∈ rest, ∃ content ∈ policy.contents, ∃ registry u, content.check.MadeLike registry u q := by
  induction h with
  | @first reactions policy rest s q t h =>
    obtain ⟨contents, hcontents, hq⟩ := h
    obtain ⟨m, hm, rfl⟩ := hq.mem
    exact ⟨policy, List.mem_cons_self,
      (Content.ensures_mapM_compile policy.contents).result s.checks hs contents hcontents m hm⟩
  | @later reactions policy rest s q t reaction hresult hgo hrest ih =>
    -- A reaction remembers what it makes, and the candidates after it may find that.
    have hreact := Policy.keeps_react_of_checks
      (fun tree => (Checks.ensures_compile_sourced tree).forget) policy context
    obtain ⟨policy', hpolicy', hcontent⟩ := ih (hreact.keeps s hs)
    exact ⟨policy', List.mem_cons_of_mem policy hpolicy', hcontent⟩

/-! ### Requests -/

/-- The events after the candidates for a resource were asked for. Before that, entities are asked for on
behalf of the owner of the resource only. -/
def Trail.afterSearch : Trail → Trail
  | [] => []
  | .searched :: rest => rest
  | _ :: rest => afterSearch rest

theorem Trail.afterSearch_append {before rest : Trail} (h : ∀ event ∈ before, event.IsLookup) :
    (before ++ rest).afterSearch = rest.afterSearch := by
  induction before with
  | nil => rfl
  | cons event before ih =>
    obtain ⟨hevent, hbefore⟩ := List.forall_mem_cons.1 h
    rw [← ih hbefore]
    cases event with
    | fetched id => rfl
    | logged notice => rfl
    | _ => exact hevent.elim

theorem Trail.afterSearch_of_lookup {trail : Trail} (h : ∀ event ∈ trail, event.IsLookup) :
    trail.afterSearch = [] := by
  rw [← List.append_nil trail, afterSearch_append h]
  rfl

namespace Engine

/-- What the decision on a request comes to, once the resource and the candidates are found. -/
def decision (request : Request) (compounder : Compounder) (resource : Resource) (policies : List Policy)
    (engine : Engine) : Outcome Evaluation Bool :=
  compounder.decide ⟨request.requester, request.access, resource.id⟩ policies
    ((candidates resource engine).state.evaluation none)

theorem candidates_trail {resource : Resource} {policies : List Policy} {engine : Engine}
    (h : (candidates resource engine).result = .ok policies) :
    (candidates resource engine).trail = (Graph.relevance resource engine.graph).trail ++
      [.searched, .logged (.candidatesFound policies.length resource.id resource.type)] := by
  obtain ⟨relevance, hrelevance, -⟩ := bind_eq_ok.1 h
  rw [candidates, bind_ok hrelevance] at h ⊢
  cases h
  rfl

/-- A search that fails asks for entities and for nothing else. -/
theorem looksUp_candidates {resource : Resource} {e : Error} {engine : Engine}
    (h : (candidates resource engine).result = .error e) :
    ∀ event ∈ (candidates resource engine).trail, event.IsLookup := by
  rcases bind_eq_error.1 h with hrelevance | ⟨relevance, -, hrest⟩
  · rw [candidates, bind_error hrelevance]
    exact Graph.looksUp_relevance resource engine.graph
  · cases hrest

/-- The resource and these candidates for it are found. -/
structure Finds (request : Request) (engine : Engine) (resource : Resource) (policies : List Policy) :
    Prop where
  resolved : (resolve request.resource engine).result = .ok resource
  selected : (candidates resource engine).result = .ok policies

/-- **A request that finds its candidates** comes to what the decision comes to. -/
theorem check_of_finds {request : Request} {engine : Engine} {resource : Resource}
    {policies : List Policy} (h : engine.Finds request resource policies) (compounder : Compounder) :
    let checked := check request compounder engine
    let decided := decision request compounder resource policies engine
    checked.result = decided.result ∧ ∃ before, (∀ event ∈ before, event.IsLookup) ∧
      checked.trail = before ++ .searched ::
        .logged (.candidatesFound policies.length resource.id resource.type) :: decided.trail := by
  obtain ⟨hresource, hpolicies⟩ := h
  intro checked decided
  have hcheck : checked = check request compounder engine := rfl
  rw [check, bind_ok hresource, resolve_state, bind_apply] at hcheck
  dsimp only [log_apply] at hcheck
  rw [bind_ok hpolicies, zoom_apply, candidates_trail hpolicies] at hcheck
  rw [hcheck]
  refine ⟨rfl, (resolve request.resource engine).trail ++
    .logged (.permissionChecked request.requester request.access resource.id) ::
      (Graph.relevance resource engine.graph).trail, ?_, ?_⟩
  · exact List.forall_mem_append.2 ⟨looksUp_resolve request.resource engine,
      List.forall_mem_cons.2 ⟨trivial, Graph.looksUp_relevance resource engine.graph⟩⟩
  · simp only [List.append_assoc, List.cons_append, List.nil_append]
    rfl

theorem afterSearch_of_finds {request : Request} {engine : Engine} {resource : Resource}
    {policies : List Policy} (h : engine.Finds request resource policies) (compounder : Compounder) :
    (check request compounder engine).trail.afterSearch =
      .logged (.candidatesFound policies.length resource.id resource.type) ::
        (decision request compounder resource policies engine).trail := by
  obtain ⟨-, before, hbefore, htrail⟩ := check_of_finds h compounder
  rw [htrail, Trail.afterSearch_append hbefore, Trail.afterSearch]

/-- A request that does not find its candidates does nothing after the search. -/
theorem afterSearch_of_not_finds {request : Request} {engine : Engine}
    (h : ∀ resource policies, ¬engine.Finds request resource policies) (compounder : Compounder) :
    (check request compounder engine).trail.afterSearch = [] := by
  have hresolve := looksUp_resolve request.resource engine
  cases hresource : (resolve request.resource engine).result with
  | error e =>
    rw [check, bind_error hresource]
    exact Trail.afterSearch_of_lookup hresolve
  | ok resource =>
    rw [check, bind_ok hresource, resolve_state, bind_apply]
    dsimp only [log_apply]
    cases hpolicies : (candidates resource engine).result with
    | ok policies => exact (h resource policies ⟨hresource, hpolicies⟩).elim
    | error e =>
      rw [bind_error hpolicies]
      apply Trail.afterSearch_of_lookup
      exact List.forall_mem_append.2
        ⟨hresolve, List.forall_mem_cons.2 ⟨trivial, looksUp_candidates hpolicies⟩⟩

/-- The run of a request reaches the condition: it evaluates a predicate, which was made of a tree that is
written like the check of a candidate, and reading that tree comes to the condition. -/
def Reaches (request : Request) (compounder : Compounder) (engine : Engine) (target : Condition) : Prop :=
  ∃ resource policies, engine.Finds request resource policies ∧
    let context : Context := ⟨request.requester, request.access, resource.id⟩
    ∃ q t, compounder.Evaluates context policies [] policies
      ((candidates resource engine).state.evaluation none) q t ∧
    ∃ policy ∈ policies, ∃ content ∈ policy.contents, ∃ registry u,
      content.check.MadeLike registry u q ∧ Tree.Reaches registry context u t target

theorem sourced_candidates {engine : Engine} (h : engine.checks.Sourced) (resource : Resource) :
    (candidates resource engine).state.checks.Sourced := by
  have hkeeps : Act.Keeps (fun engine : Engine => engine.checks.Sourced) (candidates resource) :=
    keeps_candidates (Act.keeps_true _) (fun _ _ => trivial) fun _ _ h _ => h
  exact hkeeps.keeps engine h

/-- **The requester is tested** exactly if the run reaches a condition that tests it. -/
theorem reached_requester_iff {engine : Engine} (h : engine.checks.Sourced) (request : Request)
    (compounder : Compounder) :
    .reached .requester ∈ (check request compounder engine).trail.afterSearch ↔
      ∃ target, engine.Reaches request compounder target ∧ target.TestsRequester := by
  by_cases hfinds : ∃ resource policies, engine.Finds request resource policies
  · obtain ⟨resource, policies, hfinds⟩ := hfinds
    have hevaluated : .reached .requester ∈ (check request compounder engine).trail.afterSearch ↔
        .reached .requester ∈ (decision request compounder resource policies engine).trail := by
      rw [afterSearch_of_finds hfinds]
      simp
    rw [hevaluated, decision, Compounder.decide, Compounder.reached_iff]
    constructor
    · rintro ⟨q, t, hq, hreached⟩
      obtain ⟨policy, hpolicy, content, hcontent, registry, u, hlike⟩ :=
        hq.made (sourced_candidates h resource)
      rw [Tree.eval_of_compile hlike.made, Tree.asks_iff] at hreached
      obtain ⟨target, htarget, htests⟩ := hreached
      exact ⟨target, ⟨resource, policies, hfinds, q, t, hq, policy, hpolicy, content,
        hcontent, registry, u, hlike, htarget⟩, htests⟩
    · rintro ⟨target, ⟨resource', policies', hfinds', q, t, hq, policy, hpolicy, content,
        hcontent, registry, u, hlike, htarget⟩, htests⟩
      cases hfinds.resolved.symm.trans hfinds'.resolved
      cases hfinds.selected.symm.trans hfinds'.selected
      refine ⟨q, t, hq, ?_⟩
      rw [Tree.eval_of_compile hlike.made, Tree.asks_iff]
      exact ⟨target, htarget, htests⟩
  · have hnone : ∀ resource policies, ¬engine.Finds request resource policies :=
      fun resource policies h => hfinds ⟨resource, policies, h⟩
    rw [afterSearch_of_not_finds hnone]
    refine iff_of_false List.not_mem_nil ?_
    rintro ⟨target, ⟨resource, policies, h, -⟩, -⟩
    exact hnone resource policies h

/-! ### Engines that are used -/

theorem sourced_perform {engine : Engine} (h : engine.checks.Sourced) (operation : Operation) :
    (operation.perform engine).checks.Sourced := by
  cases operation with
  | createEntity fresh parents => exact h
  | upsertEntity entity => exact h
  | addParent target parent => exact h
  | upsertResource resource => exact h
  | deleteResource id => exact h
  | ancestors id includeSelf => exact h
  | upsertPolicy policy => exact Checks.sourced_invalidate engine.checks
  | deletePolicy id => exact Checks.sourced_invalidate engine.checks
  | addEntityOps ops => exact Checks.sourced_register h rfl
  | addContextOps ops => exact Checks.sourced_register h rfl
  | compileCheck tree => exact (Checks.ensures_compile_sourced tree).keeps engine.checks h
  | check request compounder =>
    exact (keeps_check_of_checks (fun tree => (Checks.ensures_compile_sourced tree).forget) request
      compounder).keeps engine h

theorem sourced_run (store : Store) (config : Config) (registry : Registry) (operations : List Operation) :
    ((new store config registry).run operations).checks.Sourced := by
  have hnew : (new store config registry).checks.Sourced := Checks.sourced_new registry config.cache
  generalize new store config registry = engine at hnew
  induction operations generalizing engine with
  | nil => exact hnew
  | cons operation operations ih => exact ih _ (sourced_perform hnew operation)

end Engine
end PolicyDecision
