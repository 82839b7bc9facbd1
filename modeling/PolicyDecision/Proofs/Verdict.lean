import PolicyDecision.Proofs.Reaction
import PolicyDecision.Proofs.Relevance

/-!
# A decision is settled by the reactions

Without memos, what a decision comes to depends on the policies only through how each of them
reacts by itself. `Compounder.settleFrom` is the loop of a decision over reactions that are known:
it has the same results (`Engine.check_memoless`), and it has no state.
-/

namespace PolicyDecision

/-- The verdict when the reactions of the policies are known: the remaining candidates are asked
after those that reacted already. -/
def Compounder.settleFrom (compounder : Compounder) (react : Policy → Except Error Reaction)
    (candidates : List Policy) (reactions : List Reaction) : List Policy → Except Error Bool
  | [] =>
    if compounder.mode.atEnd then do
      match ← compounder.compound ⟨candidates, reactions, candidates.length, none⟩ with
      | .conclude verdict => return verdict
      | .proceed =>
        throw (.invalidCompounder "compounder did not conclude after the last policy")
    else throw .noDecision
  | policy :: rest => do
    let reaction ← react policy
    let reactions' := reactions ++ [reaction]
    if compounder.mode.perPolicy then
      match ← compounder.compound ⟨candidates, reactions', reactions.length, reaction⟩ with
      | .conclude verdict => return verdict
      | .proceed => compounder.settleFrom react candidates reactions' rest
    else compounder.settleFrom react candidates reactions' rest

/-! ### Where a loop stops -/

section Until

variable {α : Type}

/-- Some item makes the loop stop, and every one before it is passed. -/
def Until (passed stops : α → Prop) (items : List α) : Prop :=
  ∃ before item after, items = before ++ item :: after ∧ stops item ∧ ∀ a ∈ before, passed a

variable {passed stops : α → Prop}

@[simp] theorem not_until_nil : ¬Until passed stops [] := by
  rintro ⟨before, item, after, hsplit, -⟩
  cases before with
  | nil => cases hsplit
  | cons a before => cases hsplit

@[simp] theorem until_cons (item : α) (rest : List α) :
    Until passed stops (item :: rest) ↔ stops item ∨ (passed item ∧ Until passed stops rest) := by
  constructor
  · rintro ⟨before, a, after, hsplit, hstops, hpassed⟩
    cases before with
    | nil =>
      cases hsplit
      exact .inl hstops
    | cons b before =>
      cases hsplit
      have hbefore : ∀ a ∈ before, passed a := fun a ha => hpassed a (List.mem_cons_of_mem item ha)
      exact .inr ⟨hpassed item List.mem_cons_self, before, a, after, rfl, hstops, hbefore⟩
  · rintro (hstops | ⟨hpassed, before, a, after, hsplit, hstops, hbefore⟩)
    · exact ⟨[], item, rest, rfl, hstops, by simp⟩
    · refine ⟨item :: before, a, after, by rw [hsplit, List.cons_append], hstops, ?_⟩
      rw [List.forall_mem_cons]
      exact ⟨hpassed, hbefore⟩

theorem Until.imp {passed' stops' : α → Prop} {items : List α} (h : Until passed stops items)
    (hpassed : ∀ a, passed a → passed' a) (hstops : ∀ a, stops a → stops' a) :
    Until passed' stops' items := by
  obtain ⟨before, a, after, hsplit, ha, hbefore⟩ := h
  exact ⟨before, a, after, hsplit, hstops a ha, fun b hb => hpassed b (hbefore b hb)⟩

/-- Where all items are passed that do not make the loop stop, it stops if any of them makes it. -/
theorem until_iff_exists_of_or {items : List α} (h : ∀ a ∈ items, passed a ∨ stops a) :
    Until passed stops items ↔ ∃ a ∈ items, stops a := by
  induction items with
  | nil => simp
  | cons item rest ih =>
    obtain ⟨hitem, hrest⟩ := List.forall_mem_cons.1 h
    simp only [until_cons, List.mem_cons, exists_eq_or_imp, ih hrest]
    by_cases hstops : stops item
    · simp [hstops]
    · simp [hstops, hitem.resolve_right hstops]

/-- Where all items are passed, the loop stops if any of them makes it. -/
theorem until_iff_exists {items : List α} (h : ∀ a ∈ items, passed a) :
    Until passed stops items ↔ ∃ a ∈ items, stops a :=
  until_iff_exists_of_or fun a ha => .inl (h a ha)

end Until

/-! ### The loop -/

namespace Compounder

variable (compounder : Compounder) (context : Context) (candidates : List Policy)

theorem result_concludeAfter (reactions : List Reaction) (react : Policy → Except Error Reaction)
    (s : Evaluation) :
    (compounder.concludeAfter context candidates reactions s).result =
      compounder.settleFrom react candidates reactions [] := by
  rw [concludeAfter, settleFrom]
  cases compounder.mode.atEnd with
  | false => rfl
  | true =>
    simp only [if_true, consult, Act.bind_apply, Act.record_apply, Act.ofExcept_apply]
    cases compounder.compound ⟨candidates, reactions, candidates.length, none⟩ with
    | error e => rfl
    | ok step =>
      cases step with
      | conclude verdict => rfl
      | proceed => rfl

/-- The loop comes to what the reactions settle, from every state that an evaluation over the
engine passes through. -/
theorem result_decideFrom {engine : Engine} (h : engine.Memoless) (rest : List Policy)
    (reactions : List Reaction) {s : Evaluation}
    (hs : Evaluation.Over engine.graph.entities engine.checks.registry context.requester s) :
    (compounder.decideFrom context candidates reactions rest s).result =
      compounder.settleFrom (engine.reaction context) candidates reactions rest := by
  -- On the candidates that are left; after each reaction the state is again one of the evaluation.
  induction rest generalizing reactions s with
  | nil =>
    rw [decideFrom]
    exact compounder.result_concludeAfter context candidates reactions _ s
  | cons policy rest ih =>
    have hreact := Engine.react_eq_reaction h policy hs
    have hover := (Policy.steady_react engine.graph.entities engine.checks.registry policy
      context).inv hs
    unfold decideFrom settleFrom
    cases hreaction : engine.reaction context policy with
    | error e =>
      rw [hreaction] at hreact
      rw [Act.bind_error hreact]
      rfl
    | ok reaction =>
      rw [hreaction] at hreact
      rw [Act.bind_ok hreact]
      cases compounder.mode.perPolicy with
      | false => exact ih (reactions ++ [reaction]) hover
      | true =>
        simp only [if_true, consult, bind, Except.bind]
        cases compounder.compound
          ⟨candidates, reactions ++ [reaction], reactions.length, reaction⟩ with
        | error e => rfl
        | ok step =>
          cases step with
          | conclude verdict => rfl
          | proceed => exact ih (reactions ++ [reaction]) hover

end Compounder

/-! ### Requests -/

namespace Engine

variable {engine : Engine}

/-- What looking up a stored resource comes to. -/
theorem resolve_byId (id : ResourceId) (engine : Engine) :
    resolve (.byId id) engine =
      ⟨(engine.resources.find? id).elim (.error (.notFound id)) .ok, engine, [.fetched id]⟩ := by
  simp only [resolve, retrieveResource, Act.bind_apply, Act.record_apply, Act.get_apply]
  cases engine.resources.find? id with
  | none => rfl
  | some resource => rfl

/-- Looking up a resource asks for no other. -/
theorem resolve_congr {engine' : Engine} {ref : ResourceRef} (h : ∀ id, ref = .byId id →
    engine'.resources.find? id = engine.resources.find? id) :
    (resolve ref engine').result = (resolve ref engine).result := by
  cases ref with
  | given resource => rfl
  | byId id => rw [resolve_byId, resolve_byId, h id rfl]

/-- Looking up a resource leaves the engine as it is. -/
theorem resolve_state (ref : ResourceRef) : (resolve ref engine).state = engine := by
  cases ref with
  | given resource => rfl
  | byId id => rw [resolve_byId]

/-- **A decision is settled by the reactions of the candidates.** -/
theorem check_memoless (h : engine.Memoless) {request : Request} {resource : Resource}
    {policies : List Policy} (hresource : (resolve request.resource engine).result = .ok resource)
    (hpolicies : (candidates resource engine).result = .ok policies) (compounder : Compounder) :
    (check request compounder engine).result =
      compounder.settleFrom
        (engine.reaction ⟨request.requester, request.access, resource.id⟩) policies [] policies := by
  have hstate := (candidates_memoless h resource).2
  rw [check, Act.bind_ok hresource, resolve_state]
  simp only [Act.bind_apply, Act.log_apply, hpolicies, Act.zoom_apply, hstate]
  exact compounder.result_decideFrom ⟨request.requester, request.access, resource.id⟩ policies h
    policies [] (over_evaluation h request.requester)

/-- The resource of a request, and the policies that are asked about it. -/
def asked (engine : Engine) (request : Request) : Except Error (Resource × List Policy) := do
  let resource ← (resolve request.resource engine).result
  let policies ← (candidates resource engine).result
  return (resource, policies)

theorem asked_eq_ok_iff {request : Request} {resource : Resource} {policies : List Policy} :
    engine.asked request = .ok (resource, policies) ↔
      (resolve request.resource engine).result = .ok resource ∧
        (candidates resource engine).result = .ok policies := by
  constructor
  · intro h
    rw [asked] at h
    cases hresource : (resolve request.resource engine).result with
    | error e =>
      rw [hresource] at h
      cases h
    | ok found =>
      rw [hresource] at h
      cases hpolicies : (candidates found engine).result with
      | error e =>
        simp only [bind, Except.bind, hpolicies] at h
        cases h
      | ok policies' =>
        simp only [bind, Except.bind, hpolicies] at h
        cases h
        exact ⟨rfl, hpolicies⟩
  · rintro ⟨hresource, hpolicies⟩
    rw [asked, hresource]
    simp only [bind, Except.bind, hpolicies]
    rfl

/-- Without memos, a request fails if there is nothing to ask, and else the reactions settle it. -/
theorem check_eq_settle (h : engine.Memoless) (request : Request) (compounder : Compounder) :
    (check request compounder engine).result = (engine.asked request).bind fun found =>
      compounder.settleFrom
        (engine.reaction ⟨request.requester, request.access, found.1.id⟩) found.2 [] found.2 := by
  cases hresource : (resolve request.resource engine).result with
  | error e =>
    rw [check, Act.bind_error hresource, asked, hresource]
    rfl
  | ok resource =>
    cases hpolicies : (candidates resource engine).result with
    | error e =>
      rw [check, Act.bind_ok hresource, resolve_state, asked, hresource]
      simp only [Act.bind_apply, Act.log_apply, hpolicies]
      simp only [bind, Except.bind, hpolicies]
    | ok policies =>
      rw [check_memoless h hresource hpolicies, asked_eq_ok_iff.2 ⟨hresource, hpolicies⟩]
      rfl

end Engine
end PolicyDecision
