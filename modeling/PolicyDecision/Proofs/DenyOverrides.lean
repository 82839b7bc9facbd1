import PolicyDecision.Proofs.Undecided
import PolicyDecision.Proofs.Verdict

/-!
# Deny-overrides, end to end

What a decision under `Compounder.denyOverrides` comes to, in terms of how the candidates react
(`IsDenyOverrides`): the first denial or failure ends it, and else any allowance grants it. The
loop with its compounder is first brought into a form that keeps one bit, whether a policy has
allowed (`Compounder.overrides`).

As long as no candidate fails, the order in which they are asked makes no difference, so neither
priorities nor the order of the store do.
-/

namespace PolicyDecision

/-! ### The reactions -/

/-- The verdict of deny-overrides over policies. `allowed` tells whether one before them has
allowed. -/
def Compounder.overrides (react : Policy → Except Error Reaction) (allowed : Bool) :
    List Policy → Except Error Bool
  | [] => if allowed then .ok true else .error .noDecision
  | policy :: rest =>
    match react policy with
    | .error e => .error e
    | .ok (some false) => .ok false
    | .ok (some true) => overrides react true rest
    | .ok none => overrides react allowed rest

/-- How a decision is settled when any denial wins over every allowance, in terms of the policies
in the order in which they are asked. -/
structure IsDenyOverrides (react : Policy → Except Error Reaction) (policies : List Policy)
    (result : Except Error Bool) : Prop where
  /-- A policy denies, and none before it fails. -/
  denied : result = .ok false ↔
    Until (fun p => ∃ reaction, react p = .ok reaction)
      (fun p => react p = .ok (some false)) policies
  /-- No policy fails or denies, and one allows. -/
  granted : result = .ok true ↔
    (∀ p ∈ policies, react p = .ok none ∨ react p = .ok (some true)) ∧
      ∃ p ∈ policies, react p = .ok (some true)
  /-- No policy fails, and all of them abstain. -/
  undecided : result = .error .noDecision ↔ ∀ p ∈ policies, react p = .ok none
  /-- A policy fails, and none before it fails or denies. -/
  failed : ∀ e, e ≠ .noDecision → (result = .error e ↔
    Until (fun p => react p = .ok none ∨ react p = .ok (some true))
      (fun p => react p = .error e) policies)

namespace Compounder

variable {react : Policy → Except Error Reaction}

/-- Asked after a policy, deny-overrides concludes exactly if that policy denies. -/
theorem compound_denyOverrides {candidates : List Policy} {reactions : List Reaction}
    (hdenied : some false ∉ reactions) (hindex : reactions.length < candidates.length)
    (reaction : Reaction) :
    denyOverrides.compound ⟨candidates, reactions ++ [reaction], reactions.length, reaction⟩ =
      if reaction = some false then .ok (.conclude false) else .ok .proceed := by
  have hfinal : Consultation.isFinal
      ⟨candidates, reactions ++ [reaction], reactions.length, reaction⟩ = false := by
    simpa [Consultation.isFinal] using hindex
  by_cases hreaction : reaction = some false
  · simp [denyOverrides, hreaction]
  · have hnone : Consultation.anyDenied
        ⟨candidates, reactions ++ [reaction], reactions.length, reaction⟩ = false := by
      simpa [Consultation.anyDenied, hdenied] using Ne.symm hreaction
    simp [denyOverrides, hreaction, hnone, hfinal]

/-- Asked after the last policy, deny-overrides looks for an allowance. -/
theorem compound_denyOverrides_last {candidates : List Policy} {reactions : List Reaction}
    (hdenied : some false ∉ reactions) :
    denyOverrides.compound ⟨candidates, reactions, candidates.length, none⟩ =
      if reactions.contains (some true) then .ok (.conclude true) else .error .noDecision := by
  simp [denyOverrides, Consultation.isFinal, Consultation.anyDenied, Consultation.anyAllowed,
    hdenied]

/-- The loop under deny-overrides keeps one bit of the reactions, as long as none is a denial. -/
theorem settleFrom_denyOverrides (candidates : List Policy) {reactions : List Reaction}
    {rest : List Policy} (hdenied : some false ∉ reactions)
    (hlength : reactions.length + rest.length = candidates.length) :
    denyOverrides.settleFrom react candidates reactions rest =
      overrides react (reactions.contains (some true)) rest := by
  induction rest generalizing reactions with
  | nil =>
    have hend : denyOverrides.mode.atEnd = true := rfl
    rw [settleFrom, overrides, if_pos hend, compound_denyOverrides_last hdenied]
    cases reactions.contains (some true) with
    | true => rfl
    | false => rfl
  | cons policy rest ih =>
    -- A candidate is left, so its index is below their number and this is not the final call.
    have hperPolicy : denyOverrides.mode.perPolicy = true := rfl
    have hindex : reactions.length < candidates.length := by
      rw [← hlength, List.length_cons]
      omega
    rw [settleFrom, overrides]
    cases hreact : react policy with
    | error e => rfl
    | ok reaction =>
      simp only [bind, Except.bind, hperPolicy, if_true,
        compound_denyOverrides hdenied hindex reaction]
      by_cases hreaction : reaction = some false
      · simp [hreaction, pure, Except.pure]
      · have hdenied' : some false ∉ reactions ++ [reaction] := by
          simpa [hdenied] using Ne.symm hreaction
        have hlength' : (reactions ++ [reaction]).length + rest.length = candidates.length := by
          rw [← hlength, List.length_append, List.length_cons, List.length_cons, List.length_nil]
          omega
        rw [if_neg hreaction]
        show denyOverrides.settleFrom react candidates (reactions ++ [reaction]) rest = _
        rw [ih hdenied' hlength']
        cases reaction with
        | none => simp
        | some verdict =>
          cases verdict with
          | true => simp
          | false => exact absurd rfl hreaction

/-! ### What the loop comes to -/

variable (react) (allowed : Bool) (policies : List Policy)

theorem overrides_eq_false_iff :
    overrides react allowed policies = .ok false ↔
      Until (fun p => ∃ reaction, react p = .ok reaction)
        (fun p => react p = .ok (some false)) policies := by
  induction policies generalizing allowed with
  | nil => cases allowed <;> simp [overrides]
  | cons policy rest ih =>
    rw [overrides, until_cons]
    match hreact : react policy with
    | .error e => simp
    | .ok (some false) => simp
    | .ok (some true) => simpa using ih true
    | .ok none => simpa using ih allowed

theorem overrides_eq_true_iff :
    overrides react allowed policies = .ok true ↔
      (∀ p ∈ policies, react p = .ok none ∨ react p = .ok (some true)) ∧
        (allowed = true ∨ ∃ p ∈ policies, react p = .ok (some true)) := by
  induction policies generalizing allowed with
  | nil => cases allowed <;> simp [overrides]
  | cons policy rest ih =>
    rw [overrides, List.forall_mem_cons]
    simp only [List.mem_cons, exists_eq_or_imp]
    match hreact : react policy with
    | .error e => simp
    | .ok (some false) => simp
    | .ok (some true) => simpa using ih true
    | .ok none => simpa using ih allowed

theorem overrides_eq_noDecision_iff (h : ∀ p ∈ policies, react p ≠ .error .noDecision) :
    overrides react allowed policies = .error .noDecision ↔
      allowed = false ∧ ∀ p ∈ policies, react p = .ok none := by
  induction policies generalizing allowed with
  | nil => cases allowed <;> simp [overrides]
  | cons policy rest ih =>
    obtain ⟨hpolicy, hrest⟩ := List.forall_mem_cons.1 h
    rw [overrides, List.forall_mem_cons]
    match hreact : react policy with
    | .error e =>
      rw [hreact] at hpolicy
      simpa using hpolicy
    | .ok (some false) => simp
    | .ok (some true) => simpa using ih true hrest
    | .ok none => simpa using ih allowed hrest

theorem overrides_eq_error_iff {e : Error} (he : e ≠ .noDecision) :
    overrides react allowed policies = .error e ↔
      Until (fun p => react p = .ok none ∨ react p = .ok (some true))
        (fun p => react p = .error e) policies := by
  induction policies generalizing allowed with
  | nil => cases allowed <;> simp [overrides, he.symm]
  | cons policy rest ih =>
    rw [overrides, until_cons]
    match hreact : react policy with
    | .error e' => simp
    | .ok (some false) => simp
    | .ok (some true) => simpa using ih true
    | .ok none => simpa using ih allowed

/-- Deny-overrides does what it is called for, over policies that do not fail for lack of a
decision themselves. -/
theorem isDenyOverrides_settle (h : ∀ p ∈ policies, react p ≠ .error .noDecision) :
    IsDenyOverrides react policies (denyOverrides.settleFrom react policies [] policies) := by
  have hloop : denyOverrides.settleFrom react policies [] policies =
      overrides react false policies :=
    settleFrom_denyOverrides policies List.not_mem_nil (Nat.zero_add _)
  rw [hloop]
  constructor
  · exact overrides_eq_false_iff react false policies
  · simpa using overrides_eq_true_iff react false policies
  · simpa using overrides_eq_noDecision_iff react false policies h
  · intro e he
    exact overrides_eq_error_iff react false policies he

end Compounder

/-! ### The order of the policies -/

/-- No policy fails when access is granted. -/
theorem IsDenyOverrides.reacts_of_granted {react : Policy → Except Error Reaction}
    {policies : List Policy} (h : IsDenyOverrides react policies (.ok true)) (p : Policy)
    (hp : p ∈ policies) : ∃ reaction, react p = .ok reaction := by
  rcases (h.granted.1 rfl).1 p hp with hnone | hallow
  · exact ⟨none, hnone⟩
  · exact ⟨some true, hallow⟩

/-- Where no policy fails, only which reactions there are makes a difference: not how often, and
not in which order. -/
theorem IsDenyOverrides.result_eq {react react' : Policy → Except Error Reaction}
    {policies policies' : List Policy} {result result' : Except Error Bool}
    (h : IsDenyOverrides react policies result) (h' : IsDenyOverrides react' policies' result')
    (hok : ∀ p ∈ policies, ∃ reaction, react p = .ok reaction)
    (hsame : ∀ x, (∃ p ∈ policies, react p = x) ↔ ∃ p ∈ policies', react' p = x) :
    result' = result := by
  -- What holds of every reaction of the one list holds of every reaction of the other.
  have hall : ∀ P : Except Error Reaction → Prop, (∀ p ∈ policies, P (react p)) →
      ∀ p ∈ policies', P (react' p) := by
    intro P hP p' hp'
    obtain ⟨p, hp, heq⟩ := (hsame (react' p')).2 ⟨p', hp', rfl⟩
    rw [← heq]
    exact hP p hp
  have hok' := hall (fun x => ∃ reaction, x = .ok reaction) hok
  match result with
  | .ok false =>
    rw [h'.denied, until_iff_exists hok', ← hsame, ← until_iff_exists hok, ← h.denied]
  | .ok true =>
    obtain ⟨hnone, hallowed⟩ := h.granted.1 rfl
    exact h'.granted.2 ⟨hall (fun x => x = .ok none ∨ x = .ok (some true)) hnone,
      (hsame _).1 hallowed⟩
  | .error e =>
    by_cases he : e = .noDecision
    · subst he
      exact h'.undecided.2 (hall (fun x => x = .ok none) (h.undecided.1 rfl))
    · obtain ⟨before, p, after, rfl, hfails, -⟩ := (h.failed e he).1 rfl
      obtain ⟨reaction, hreaction⟩ := hok p (List.mem_append_right before List.mem_cons_self)
      rw [hfails] at hreaction
      cases hreaction

/-- The policy with the priority that is assigned to its identifier. -/
def Policy.reprioritize (priority : PolicyId → Int) (policy : Policy) : Policy :=
  { policy with priority := priority policy.id }

namespace Engine

variable {engine : Engine}

/-- Other priorities and another order of the store select the same policies, up to priority. -/
theorem mem_selection_reprioritize {resource : Resource} {policies policies' : List Policy}
    {priority : PolicyId → Int} {store : Table Policy}
    (hstore : store.docs.Perm (engine.policies.docs.map (Policy.reprioritize priority)))
    (h : IsSelection engine.graph.entities engine.policies resource policies)
    (h' : IsSelection engine.graph.entities store resource policies') (p' : Policy) :
    p' ∈ policies' ↔ ∃ p ∈ policies, p.reprioritize priority = p' := by
  rw [h'.members, hstore.mem_iff, List.mem_map]
  constructor
  · rintro ⟨⟨p, hp, rfl⟩, hrelevant⟩
    exact ⟨p, (h.members p).2 ⟨hp, hrelevant⟩, rfl⟩
  · rintro ⟨p, hp, rfl⟩
    obtain ⟨hdocs, hrelevant⟩ := (h.members p).1 hp
    exact ⟨⟨p, hdocs, rfl⟩, hrelevant⟩

/-- Deny-overrides decides on the candidates. -/
theorem isDenyOverrides_check (h : engine.Memoless)
    (hoperators : engine.checks.registry.NeverUndecided) {request : Request} {resource : Resource}
    (hresource : (resolve request.resource engine).result = .ok resource) {policies : List Policy}
    (hpolicies : (candidates resource engine).result = .ok policies) :
    IsDenyOverrides (engine.reaction ⟨request.requester, request.access, resource.id⟩) policies
      (check request .denyOverrides engine).result := by
  rw [check_memoless h hresource hpolicies]
  apply Compounder.isDenyOverrides_settle _ policies
  intro p _
  exact reaction_ne_noDecision h hoperators _ p

/-- As long as no candidate fails, other priorities and another order of the store lead to the same
decision. -/
theorem check_reprioritize (h : engine.Memoless)
    (hoperators : engine.checks.registry.NeverUndecided) {request : Request} {resource : Resource}
    (hresource : (resolve request.resource engine).result = .ok resource)
    (howner : resource.OwnerResolves engine.graph.entities) {policies : List Policy}
    (hpolicies : (candidates resource engine).result = .ok policies)
    (hselection : IsSelection engine.graph.entities engine.policies resource policies)
    (hok : ∀ p ∈ policies, ∃ reaction,
      engine.reaction ⟨request.requester, request.access, resource.id⟩ p = .ok reaction)
    {priority : PolicyId → Int} {store : Table Policy}
    (hstore : store.docs.Perm (engine.policies.docs.map (Policy.reprioritize priority))) :
    (check request .denyOverrides { engine with policies := store }).result =
      (check request .denyOverrides engine).result := by
  have h' : Memoless { engine with policies := store } := ⟨h.graph, h.checks⟩
  obtain ⟨policies', hpolicies', hselection'⟩ := candidates_found h' howner
  have hresolve : (resolve request.resource { engine with policies := store }).result =
      (resolve request.resource engine).result := resolve_congr fun _ _ => rfl
  have hresource' := hresolve.trans hresource
  have hdecision := isDenyOverrides_check h hoperators hresource hpolicies
  have hdecision' := isDenyOverrides_check h' hoperators hresource' hpolicies'
  have hmem := mem_selection_reprioritize hstore hselection hselection'
  -- A policy reacts as it does with another priority, in either engine.
  apply hdecision.result_eq hdecision' hok
  intro x
  constructor
  · rintro ⟨p, hp, hreaction⟩
    exact ⟨p.reprioritize priority, (hmem _).2 ⟨p, hp, rfl⟩, hreaction⟩
  · rintro ⟨p', hp', hreaction⟩
    obtain ⟨p, hp, rfl⟩ := (hmem p').1 hp'
    exact ⟨p, hp, hreaction⟩

/-- **Deny-overrides, end to end.** Without memos, and with operators that do not claim that there
is no decision, let the resource of a request and the ancestors of its owner be known. Then the
decision is that of `IsDenyOverrides` on the relevant policies in order; when it grants, all of
them were made predicates of and evaluated without failure; and if none of them fails, the
decision is the same whatever their priorities and the order of the store. -/
theorem check_denyOverrides (h : engine.Memoless)
    (hoperators : engine.checks.registry.NeverUndecided) {request : Request} {resource : Resource}
    (hresource : (resolve request.resource engine).result = .ok resource)
    (howner : resource.OwnerResolves engine.graph.entities) :
    let context : Context := ⟨request.requester, request.access, resource.id⟩
    let result := (check request .denyOverrides engine).result
    ∃ policies, (candidates resource engine).result = .ok policies ∧
      IsSelection engine.graph.entities engine.policies resource policies ∧
      IsDenyOverrides (engine.reaction context) policies result ∧
      (result = .ok true → ∀ p ∈ policies,
        (∀ content ∈ p.contents, ∃ q, (Checks.compile content.check engine.checks).result = .ok q) ∧
          ∃ reaction, engine.reaction context p = .ok reaction) ∧
      ((∀ p ∈ policies, ∃ reaction, engine.reaction context p = .ok reaction) →
        ∀ (priority : PolicyId → Int) (store : Table Policy),
          store.docs.Perm (engine.policies.docs.map (Policy.reprioritize priority)) →
          (check request .denyOverrides { engine with policies := store }).result = result) := by
  intro context result
  obtain ⟨policies, hpolicies, hselection⟩ := candidates_found h howner
  have hdecision := isDenyOverrides_check h hoperators hresource hpolicies
  refine ⟨policies, hpolicies, hselection, hdecision, ?_, ?_⟩
  · intro hgranted p hp
    rw [show (check request .denyOverrides engine).result = .ok true from hgranted] at hdecision
    obtain ⟨reaction, hreaction⟩ := hdecision.reacts_of_granted p hp
    exact ⟨fun content hcontent => compiles_of_reaction h hreaction hcontent, reaction, hreaction⟩
  · intro hok priority store hstore
    exact check_reprioritize h hoperators hresource howner hpolicies hselection hok hstore

/-- A policy that denies is asked last, and still the request is denied. -/
theorem check_denyOverrides_last :
    let allows : Policy :=
      { id := ⟨⟨1⟩⟩, selector := some .wildcard, contents := [⟨[], some true⟩], priority := 9 }
    let denies : Policy :=
      { id := ⟨⟨2⟩⟩, selector := some .wildcard, contents := [⟨[], some false⟩] }
    let engine := Engine.new { policies := .ofList [allows, denies] } {} {}
    let resource : Resource := { id := ⟨⟨3⟩⟩ }
    let request : Request := ⟨⟨⟨4⟩⟩, .one "read", .given resource⟩
    engine.Memoless ∧ engine.checks.registry.NeverUndecided ∧
      (resolve request.resource engine).result = .ok resource ∧
      resource.OwnerResolves engine.graph.entities ∧
      (check request .denyOverrides engine).result = .ok false := by
  intro allows denies engine resource request
  have hmemoless : engine.Memoless := memoless_new rfl
  have hoperators : engine.checks.registry.NeverUndecided := by
    constructor
    · intro name factory hfind
      cases hfind
    · intro name factory hfind
      cases hfind
  have howner : resource.OwnerResolves engine.graph.entities := by
    intro owner howner
    cases howner
  have hresource : (resolve request.resource engine).result = .ok resource := rfl
  refine ⟨hmemoless, hoperators, hresource, howner, ?_⟩
  obtain ⟨policies, -, hselection, hdecision, -⟩ :=
    check_denyOverrides hmemoless hoperators hresource howner
  refine hdecision.denied.2 ((until_iff_exists fun p hp => ?_).2 ⟨denies, ?_, rfl⟩)
  · have hstored : p ∈ [allows, denies] := ((hselection.members p).1 hp).1
    rcases List.mem_cons.1 hstored with rfl | hstored
    · exact ⟨some true, rfl⟩
    · rw [List.mem_singleton.1 hstored]
      exact ⟨some false, rfl⟩
  · refine (hselection.members denies).2 ⟨?_, .inr ⟨.wildcard, rfl, trivial⟩⟩
    exact List.mem_cons_of_mem allows List.mem_cons_self

end Engine
end PolicyDecision
