import PolicyDecision.Proofs.DenyOverrides

/-!
# The first policy that does not abstain

What a decision under `Compounder.firstApplicable` comes to, in terms of how the candidates react
(`IsFirstApplicable`): the first that does not abstain ends it, with its verdict or its failure. The
loop needs no memory for this (`Compounder.first`).

On one and the same request the decision can then be compared with that under
`Compounder.denyOverrides`. Both go through the same candidates, and deny-overrides never stops before
the first that does not abstain. So it can only be stricter: what it grants the first applicable
policy grants, and what the first applicable policy denies it denies.
-/

namespace PolicyDecision

/-- The verdict of the first policy that does not abstain. -/
def Compounder.first (react : Policy → Except Error Reaction) : List Policy → Except Error Bool
  | [] => .error .noDecision
  | policy :: rest =>
    match react policy with
    | .error e => .error e
    | .ok (some verdict) => .ok verdict
    | .ok none => first react rest

/-- How a decision is settled when the first policy that does not abstain decides, in terms of the
policies in the order in which they are asked. -/
structure IsFirstApplicable (react : Policy → Except Error Reaction) (policies : List Policy)
    (result : Except Error Bool) : Prop where
  /-- A policy reacts with the verdict, and all before it abstain. -/
  decided : ∀ verdict, result = .ok verdict ↔
    Until (fun p => react p = .ok none) (fun p => react p = .ok (some verdict)) policies
  /-- No policy fails, and all of them abstain. -/
  undecided : result = .error .noDecision ↔ ∀ p ∈ policies, react p = .ok none
  /-- A policy fails, and all before it abstain. -/
  failed : ∀ e, e ≠ .noDecision → (result = .error e ↔
    Until (fun p => react p = .ok none) (fun p => react p = .error e) policies)

namespace Compounder

variable {react : Policy → Except Error Reaction} {policies : List Policy}

/-- The loop under first-applicable forgets the reactions so far. -/
theorem settleFrom_firstApplicable (candidates : List Policy) (reactions : List Reaction)
    (rest : List Policy) :
    firstApplicable.settleFrom react candidates reactions rest = first react rest := by
  induction rest generalizing reactions with
  | nil => rfl
  | cons policy rest ih =>
    have hperPolicy : firstApplicable.mode.perPolicy = true := rfl
    rw [settleFrom, first]
    cases hreact : react policy with
    | error e => rfl
    | ok reaction =>
      simp only [bind, Except.bind, hperPolicy, if_true]
      cases reaction with
      | none => exact ih _
      | some verdict => rfl

/-! ### What the loop comes to -/

theorem first_eq_ok_iff {verdict : Bool} :
    first react policies = .ok verdict ↔
      Until (fun p => react p = .ok none) (fun p => react p = .ok (some verdict))
        policies := by
  induction policies with
  | nil => simp [first]
  | cons policy rest ih =>
    rw [first, until_cons]
    cases hreact : react policy with
    | error e => simp
    | ok reaction =>
      cases reaction with
      | none => simpa using ih
      | some verdict' => simp

theorem first_eq_noDecision_iff (h : ∀ p ∈ policies, react p ≠ .error .noDecision) :
    first react policies = .error .noDecision ↔ ∀ p ∈ policies, react p = .ok none := by
  induction policies with
  | nil => simp [first]
  | cons policy rest ih =>
    obtain ⟨hpolicy, hrest⟩ := List.forall_mem_cons.1 h
    rw [first, List.forall_mem_cons]
    cases hreact : react policy with
    | error e =>
      rw [hreact] at hpolicy
      simpa using hpolicy
    | ok reaction =>
      cases reaction with
      | none => simpa using ih hrest
      | some verdict => simp

theorem first_eq_error_iff {e : Error} (he : e ≠ .noDecision) :
    first react policies = .error e ↔
      Until (fun p => react p = .ok none) (fun p => react p = .error e) policies := by
  induction policies with
  | nil => simp [first, he.symm]
  | cons policy rest ih =>
    rw [first, until_cons]
    cases hreact : react policy with
    | error e' => simp
    | ok reaction =>
      cases reaction with
      | none => simpa using ih
      | some verdict => simp

/-- First-applicable does what it is called for, over policies that do not fail for lack of a decision
themselves. -/
theorem isFirstApplicable_settle (h : ∀ p ∈ policies, react p ≠ .error .noDecision) :
    IsFirstApplicable react policies (firstApplicable.settleFrom react policies [] policies) := by
  rw [settleFrom_firstApplicable]
  exact ⟨fun _ => first_eq_ok_iff, first_eq_noDecision_iff h, fun _ => first_eq_error_iff⟩

end Compounder

/-! ### Beside deny-overrides -/

/-- How a decision under deny-overrides goes with that of the first policy that does not abstain. -/
structure Compounder.Stricter (overrides first : Except Error Bool) : Prop where
  granted : overrides = .ok true → first = .ok true
  denied : first = .ok false → overrides = .ok false
  undecided : first = .error .noDecision ↔ overrides = .error .noDecision
  failed : ∀ e, e ≠ .noDecision → first = .error e → overrides = .error e

theorem Compounder.stricter_refl (result : Except Error Bool) : Stricter result result :=
  ⟨id, id, Iff.rfl, fun _ _ => id⟩

/-- On the same reactions, deny-overrides is the stricter. -/
theorem IsDenyOverrides.stricter {react : Policy → Except Error Reaction} {policies : List Policy}
    {overrides first : Except Error Bool} (hoverrides : IsDenyOverrides react policies overrides)
    (hfirst : IsFirstApplicable react policies first) : Compounder.Stricter overrides first where
  granted hgranted := by
    obtain ⟨hreacts, hallows⟩ := hoverrides.granted.1 hgranted
    exact (hfirst.decided true).2 ((until_iff_exists_of_or hreacts).2 hallows)
  denied hdenied :=
    hoverrides.denied.2 (((hfirst.decided false).1 hdenied).imp (fun _ h => ⟨none, h⟩) fun _ => id)
  undecided := hfirst.undecided.trans hoverrides.undecided.symm
  failed e he hfailed :=
    (hoverrides.failed e he).2 (((hfirst.failed e he).1 hfailed).imp (fun _ h => .inl h) fun _ => id)

namespace Engine

variable {engine : Engine}

/-- First-applicable decides on the candidates. -/
theorem isFirstApplicable_check (h : engine.Memoless)
    (hoperators : engine.checks.registry.NeverUndecided) {request : Request} {resource : Resource}
    (hresource : (resolve request.resource engine).result = .ok resource) {policies : List Policy}
    (hpolicies : (candidates resource engine).result = .ok policies) :
    IsFirstApplicable (engine.reaction ⟨request.requester, request.access, resource.id⟩) policies
      (check request .firstApplicable engine).result := by
  rw [check_memoless h hresource hpolicies]
  apply Compounder.isFirstApplicable_settle
  intro p _
  exact reaction_ne_noDecision h hoperators _ p

/-- **The two compounders that have a name are consistently ordered.** Without memos, and with operators
that do not claim that there is no decision, let one and the same request be decided under both. The
first policy that does not abstain decides, in the order in which the candidates are to be asked, if
none before it fails; and deny-overrides is the stricter of the two. -/
theorem check_firstApplicable (h : engine.Memoless)
    (hoperators : engine.checks.registry.NeverUndecided) (request : Request) :
    let first := (check request .firstApplicable engine).result
    let overrides := (check request .denyOverrides engine).result
    (∀ verdict, first = .ok verdict ↔
      ∃ resource policies, (resolve request.resource engine).result = .ok resource ∧
        (candidates resource engine).result = .ok policies ∧
        IsSelection engine.graph.entities engine.policies resource policies ∧
        let react := engine.reaction ⟨request.requester, request.access, resource.id⟩
        Until (fun p => react p = .ok none) (fun p => react p = .ok (some verdict))
          policies) ∧
    Compounder.Stricter overrides first := by
  intro first overrides
  cases hasked : engine.asked request with
  | error e =>
    -- There is nothing to ask, so both fail alike.
    have hfailed : ∀ compounder, (check request compounder engine).result = .error e := by
      intro compounder
      rw [check_eq_settle h, hasked]
      rfl
    refine ⟨fun verdict => ⟨fun hverdict => ?_, ?_⟩, ?_⟩
    · cases (hfailed .firstApplicable).symm.trans hverdict
    · rintro ⟨resource, policies, hresource, hpolicies, -⟩
      cases hasked.symm.trans (asked_eq_ok_iff.2 ⟨hresource, hpolicies⟩)
    · rw [show first = overrides from (hfailed _).trans (hfailed _).symm]
      exact Compounder.stricter_refl overrides
  | ok found =>
    obtain ⟨resource, policies⟩ := found
    obtain ⟨hresource, hpolicies⟩ := asked_eq_ok_iff.1 hasked
    have hfirst := isFirstApplicable_check h hoperators hresource hpolicies
    have hoverrides := isDenyOverrides_check h hoperators hresource hpolicies
    refine ⟨fun verdict => (hfirst.decided verdict).trans ⟨fun huntil => ?_, ?_⟩,
      hoverrides.stricter hfirst⟩
    · exact ⟨resource, policies, hresource, hpolicies, isSelection_of_candidates h hpolicies, huntil⟩
    · rintro ⟨resource', policies', hresource', hpolicies', -, huntil⟩
      cases hresource.symm.trans hresource'
      cases hpolicies.symm.trans hpolicies'
      exact huntil

/-- The first policy abstains, the second allows and the third denies. -/
theorem check_firstApplicable_denied_later :
    let abstains : Policy := { id := ⟨⟨1⟩⟩, selector := some .wildcard, priority := 9 }
    let allows : Policy :=
      { id := ⟨⟨2⟩⟩, selector := some .wildcard, contents := [⟨[], some true⟩], priority := 5 }
    let denies : Policy :=
      { id := ⟨⟨3⟩⟩, selector := some .wildcard, contents := [⟨[], some false⟩], priority := 5 }
    let engine := Engine.new { policies := .ofList [abstains, allows, denies] } {} {}
    let request : Request := ⟨⟨⟨4⟩⟩, .one "read", .given { id := ⟨⟨5⟩⟩ }⟩
    let first := (check request .firstApplicable engine).result
    let overrides := (check request .denyOverrides engine).result
    engine.Memoless ∧ engine.checks.registry.NeverUndecided ∧
      first = .ok true ∧ overrides = .ok false ∧ Compounder.Stricter overrides first := by
  intro abstains allows denies engine request first overrides
  have hmemoless : engine.Memoless := memoless_new rfl
  have hsorted : Policy.byPriority [abstains, allows, denies] = [abstains, allows, denies] :=
    List.mergeSort_of_pairwise (by decide)
  have hpolicies : (candidates { id := ⟨⟨5⟩⟩ } engine).result = .ok [abstains, allows, denies] := by
    rw [(candidates_memoless hmemoless _).1]
    exact congrArg Except.ok hsorted
  refine ⟨hmemoless, Registry.neverUndecided_empty, ?_, ?_, ?_⟩
  · exact check_memoless hmemoless rfl hpolicies .firstApplicable
  · exact check_memoless hmemoless rfl hpolicies .denyOverrides
  · exact (check_firstApplicable hmemoless Registry.neverUndecided_empty request).2

end Engine
end PolicyDecision
