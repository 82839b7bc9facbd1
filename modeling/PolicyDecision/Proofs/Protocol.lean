import Mathlib.Data.List.Induction
import PolicyDecision.Proofs.Evaluating
import PolicyDecision.Proofs.Verdict

/-!
# How compounders are asked

What happens in the course of a decision, for any compounder, and whatever the engine remembers
(`Decision.Follows`). The candidates react in order, each in the state that those before it have left.
After each reaction the compounder is asked, if its mode says so, and shown the reactions so far; once
all candidates have reacted and it has not concluded, it is asked once more, if its mode says so. The
first verdict or failure ends the decision: the trail and the state are those of what came before, and
nothing follows.

The induction is on the candidates that are left. What it carries along is `Decision.Passed`: the
candidates so far have reacted, and the compounder has let the decision go on.
-/

namespace PolicyDecision

/-- What a decision starts from. -/
structure Decision where
  compounder : Compounder
  context : Context
  candidates : List Policy
  begun : Evaluation

namespace Decision

/-! ### The course of a decision -/

/-- The evaluation when so many candidates have been applied, one after the other. -/
def after (d : Decision) (count : Nat) : Evaluation :=
  (d.candidates.take count).foldl (fun s policy => (policy.react d.context s).state) d.begun

/-- What the compounder is shown after the candidate at a place. -/
def call (d : Decision) (reactions : List Reaction) (index : Nat) (current : Reaction) : Consultation :=
  ⟨d.candidates, reactions.take (index + 1), index, current⟩

/-- What the compounder is shown after each of the candidates that have reacted. -/
def calls (d : Decision) (reactions : List Reaction) : List Consultation :=
  if d.compounder.mode.perPolicy then reactions.mapIdx (d.call reactions) else []

/-- What the compounder is shown when one candidate more has reacted. -/
def nextCall (d : Decision) (reactions : List Reaction) (reaction : Reaction) : Consultation :=
  ⟨d.candidates, reactions ++ [reaction], reactions.length, reaction⟩

/-- What the compounder is shown after the last candidate. -/
def finalCall (d : Decision) (reactions : List Reaction) : Consultation :=
  ⟨d.candidates, reactions, d.candidates.length, none⟩

/-- The trail of the candidate at a place: of its reaction, and then of the compounder. -/
def turn (d : Decision) (reactions : List Reaction) (index : Nat) (current : Reaction) : Trail :=
  match d.candidates[index]? with
  | none => []
  | some policy =>
    (policy.react d.context (d.after index)).trail ++
      .logged (.policyReacted policy.id policy.priority current) ::
        if d.compounder.mode.perPolicy then [.consulted (d.call reactions index current)] else []

/-- The trail of the candidates that have reacted. -/
def turns (d : Decision) (reactions : List Reaction) : Trail :=
  (reactions.mapIdx (d.turn reactions)).flatten

/-- The candidates reacted in order, each in the state that those before it had left. -/
def InOrder (d : Decision) (reactions : List Reaction) : Prop :=
  ∀ i (h : i < reactions.length), ∃ policy, d.candidates[i]? = some policy ∧
    (policy.react d.context (d.after i)).result = .ok reactions[i]

/-- All candidates have reacted, and the compounder has not concluded. -/
def Exhausted (d : Decision) (reactions : List Reaction) : Prop :=
  reactions.length = d.candidates.length ∧
    ∀ call ∈ d.calls reactions, d.compounder.compound call = .ok .proceed

/-- How a decision ends after these reactions: with how many candidates applied, with what left on the
trail, and with which result. -/
inductive Ends (d : Decision) (reactions : List Reaction) : Nat → Trail → Except Error Bool → Prop
  /-- The compounder concludes after the last of the reactions. -/
  | concluded {call : Consultation} {policy : Policy} {verdict : Bool}
      (hlast : (d.calls reactions).getLast? = some call)
      (hpolicy : d.candidates[call.index]? = some policy)
      (hcompound : d.compounder.compound call = .ok (.conclude verdict)) :
      Ends d reactions reactions.length
        [.logged (.decidedBy verdict d.context.requester d.context.resource policy.id)] (.ok verdict)
  /-- The compounder fails after the last of the reactions. -/
  | rejected {call : Consultation} {e : Error} (hlast : (d.calls reactions).getLast? = some call)
      (hcompound : d.compounder.compound call = .error e) :
      Ends d reactions reactions.length [] (.error e)
  /-- The next candidate fails. -/
  | failed {policy : Policy} {e : Error}
      (hproceeds : ∀ call ∈ d.calls reactions, d.compounder.compound call = .ok .proceed)
      (hpolicy : d.candidates[reactions.length]? = some policy)
      (hreact : (policy.react d.context (d.after reactions.length)).result = .error e) :
      Ends d reactions (reactions.length + 1)
        (policy.react d.context (d.after reactions.length)).trail (.error e)
  /-- No candidate is left, and the compounder is not asked again. -/
  | undecided (hall : d.Exhausted reactions) (hmode : d.compounder.mode.atEnd = false) :
      Ends d reactions reactions.length
        [.logged (.undecided d.context.requester d.context.resource d.candidates.length)]
        (.error .noDecision)
  /-- The compounder concludes on the final call. -/
  | concludedAfter {verdict : Bool} (hall : d.Exhausted reactions)
      (hmode : d.compounder.mode.atEnd = true)
      (hcompound : d.compounder.compound (d.finalCall reactions) = .ok (.conclude verdict)) :
      Ends d reactions reactions.length
        [.consulted (d.finalCall reactions),
          .logged (.decidedAfter verdict d.context.requester d.context.resource d.candidates.length)]
        (.ok verdict)
  /-- The compounder fails on the final call. -/
  | rejectedAfter {e : Error} (hall : d.Exhausted reactions) (hmode : d.compounder.mode.atEnd = true)
      (hcompound : d.compounder.compound (d.finalCall reactions) = .error e) :
      Ends d reactions reactions.length [.consulted (d.finalCall reactions)] (.error e)
  /-- The compounder does not conclude on the final call. -/
  | unconcluded (hall : d.Exhausted reactions) (hmode : d.compounder.mode.atEnd = true)
      (hcompound : d.compounder.compound (d.finalCall reactions) = .ok .proceed) :
      Ends d reactions reactions.length [.consulted (d.finalCall reactions)]
        (.error (.invalidCompounder "compounder did not conclude after the last policy"))

/-- The course of a decision in which these reactions occurred. -/
structure Follows (d : Decision) (reactions : List Reaction) (outcome : Outcome Evaluation Bool) :
    Prop where
  in_order : d.InOrder reactions
  /-- Every call but the last let the decision go on. -/
  proceeds : ∀ call ∈ (d.calls reactions).dropLast, d.compounder.compound call = .ok .proceed
  not_final : ∀ call ∈ d.calls reactions, call.isFinal = false
  final : (d.finalCall reactions).isFinal = true
  /-- When all candidates have reacted without a conclusion, there is one more call. -/
  final_call : d.Exhausted reactions → d.compounder.mode.atEnd = true →
    outcome.trail.consultations = d.calls reactions ++ [d.finalCall reactions]
  /-- Otherwise there is none. -/
  no_final_call : ¬(d.Exhausted reactions ∧ d.compounder.mode.atEnd = true) →
    outcome.trail.consultations = d.calls reactions
  /-- Nothing else happened, and nothing happened afterwards. -/
  ends : ∃ applied tail, d.Ends reactions applied tail outcome.result ∧
    outcome.state = d.after applied ∧ outcome.trail = d.turns reactions ++ tail

/-! ### One candidate more -/

variable {d : Decision} {reactions : List Reaction} {policy : Policy}

theorem after_succ (h : d.candidates[reactions.length]? = some policy) :
    d.after (reactions.length + 1) =
      (policy.react d.context (d.after reactions.length)).state := by
  rw [after, List.take_add_one, h, List.foldl_append]
  rfl

theorem call_snoc {index : Nat} (h : index < reactions.length) (reaction current : Reaction) :
    d.call (reactions ++ [reaction]) index current = d.call reactions index current := by
  rw [call, List.take_append_of_le_length h, call]

theorem call_last (d : Decision) (reactions : List Reaction) (reaction : Reaction) :
    d.call (reactions ++ [reaction]) reactions.length reaction = d.nextCall reactions reaction := by
  rw [call, List.take_of_length_le (by simp), nextCall]

theorem calls_snoc (d : Decision) (reactions : List Reaction) (reaction : Reaction) :
    d.calls (reactions ++ [reaction]) = d.calls reactions ++
      if d.compounder.mode.perPolicy then [d.nextCall reactions reaction] else [] := by
  unfold calls
  cases d.compounder.mode.perPolicy with
  | false => rfl
  | true =>
    have hbefore : reactions.mapIdx (d.call (reactions ++ [reaction])) =
        reactions.mapIdx (d.call reactions) :=
      List.mapIdx_eq_mapIdx_iff.2 fun i hi => call_snoc hi reaction _
    simp only [if_true, List.mapIdx_concat, hbefore, call_last]

theorem turn_snoc {index : Nat} (h : index < reactions.length) (reaction current : Reaction) :
    d.turn (reactions ++ [reaction]) index current = d.turn reactions index current := by
  simp only [turn, call_snoc h]

/-- One candidate more has its own trail behind those of the others. -/
theorem turns_snoc (h : d.candidates[reactions.length]? = some policy) (reaction : Reaction) :
    d.turns (reactions ++ [reaction]) = d.turns reactions ++
      ((policy.react d.context (d.after reactions.length)).trail ++
        .logged (.policyReacted policy.id policy.priority reaction) ::
          if d.compounder.mode.perPolicy then [.consulted (d.nextCall reactions reaction)] else []) := by
  have hbefore : reactions.mapIdx (d.turn (reactions ++ [reaction])) =
      reactions.mapIdx (d.turn reactions) :=
    List.mapIdx_eq_mapIdx_iff.2 fun i hi => turn_snoc hi reaction _
  rw [turns, List.mapIdx_concat, hbefore, List.flatten_concat, turn, h, turns]
  simp only [call_last]

theorem InOrder.length_le (h : d.InOrder reactions) : reactions.length ≤ d.candidates.length := by
  by_contra hlt
  obtain ⟨policy, hpolicy, -⟩ := h d.candidates.length (Nat.lt_of_not_le hlt)
  rw [List.getElem?_eq_none (Nat.le_refl _)] at hpolicy
  cases hpolicy

theorem InOrder.of_snoc {reaction : Reaction} (h : d.InOrder (reactions ++ [reaction])) :
    d.InOrder reactions ∧ ∃ policy, d.candidates[reactions.length]? = some policy := by
  constructor
  · intro i hi
    obtain ⟨policy, hpolicy, hreact⟩ := h i (by simp; omega)
    rw [List.getElem_append_left hi] at hreact
    exact ⟨policy, hpolicy, hreact⟩
  · obtain ⟨policy, hpolicy, -⟩ := h reactions.length (by simp)
    exact ⟨policy, hpolicy⟩

theorem InOrder.snoc (h : d.InOrder reactions) (hpolicy : d.candidates[reactions.length]? = some policy)
    {reaction : Reaction}
    (hreact : (policy.react d.context (d.after reactions.length)).result = .ok reaction) :
    d.InOrder (reactions ++ [reaction]) := by
  intro i hi
  rcases Nat.lt_or_ge i reactions.length with hlt | hge
  · rw [List.getElem_append_left hlt]
    exact h i hlt
  · obtain rfl : i = reactions.length := by simp at hi; omega
    rw [List.getElem_concat_length rfl]
    exact ⟨policy, hpolicy, hreact⟩

/-- The compounder is asked for the reactions and nothing else. -/
theorem consultations_turns (h : d.InOrder reactions) :
    (d.turns reactions).consultations = d.calls reactions := by
  induction reactions using List.reverseRecOn with
  | nil =>
    unfold calls turns
    cases d.compounder.mode.perPolicy <;> rfl
  | append_singleton reactions reaction ih =>
    obtain ⟨hinit, policy, hpolicy⟩ := h.of_snoc
    have hquiet := Trail.consultations_of_quiet
      (policy.quiet_react d.context (d.after reactions.length))
    rw [turns_snoc hpolicy, calls_snoc, Trail.consultations_append, Trail.consultations_append, ih hinit,
      hquiet]
    cases d.compounder.mode.perPolicy <;> rfl

theorem isFinal_of_mem_calls (h : d.InOrder reactions) {call : Consultation}
    (hcall : call ∈ d.calls reactions) : call.isFinal = false := by
  unfold calls at hcall
  split at hcall
  · obtain ⟨i, hi, rfl⟩ := List.mem_mapIdx.1 hcall
    have hlt : i < d.candidates.length := Nat.lt_of_lt_of_le hi h.length_le
    exact decide_eq_false (Nat.not_le_of_lt hlt)
  · cases hcall

/-! ### The end -/

variable {applied : Nat} {tail : Trail} {result : Except Error Bool}

/-- An outcome with the trail of the candidates so far before it. -/
def behind (d : Decision) (reactions : List Reaction) (outcome : Outcome Evaluation Bool) :
    Outcome Evaluation Bool :=
  { outcome with trail := d.turns reactions ++ outcome.trail }

/-- The final call is on the trail of the end exactly when the compounder is asked at the end. -/
theorem Ends.consultations (h : d.Ends reactions applied tail result) :
    (d.Exhausted reactions → d.compounder.mode.atEnd = true →
      tail.consultations = [d.finalCall reactions]) ∧
    (¬(d.Exhausted reactions ∧ d.compounder.mode.atEnd = true) → tail.consultations = []) := by
  cases h with
  | concluded hlast hpolicy hcompound =>
    refine ⟨fun hall _ => ?_, fun _ => rfl⟩
    cases hcompound.symm.trans (hall.2 _ (List.mem_of_getLast? hlast))
  | rejected hlast hcompound =>
    refine ⟨fun hall _ => ?_, fun _ => rfl⟩
    cases hcompound.symm.trans (hall.2 _ (List.mem_of_getLast? hlast))
  | @failed policy e hproceeds hpolicy hreact =>
    refine ⟨fun hall _ => ?_, fun _ => ?_⟩
    · rw [hall.1, List.getElem?_eq_none (Nat.le_refl _)] at hpolicy
      cases hpolicy
    · exact Trail.consultations_of_quiet (policy.quiet_react d.context _)
  | undecided hall hmode =>
    refine ⟨fun _ hasked => ?_, fun _ => rfl⟩
    cases hmode.symm.trans hasked
  | concludedAfter hall hmode hcompound => exact ⟨fun _ _ => rfl, fun hnot => (hnot ⟨hall, hmode⟩).elim⟩
  | rejectedAfter hall hmode hcompound => exact ⟨fun _ _ => rfl, fun hnot => (hnot ⟨hall, hmode⟩).elim⟩
  | unconcluded hall hmode hcompound => exact ⟨fun _ _ => rfl, fun hnot => (hnot ⟨hall, hmode⟩).elim⟩

theorem Ends.follows (h : d.Ends reactions applied tail result) (hin_order : d.InOrder reactions)
    (hproceeds : ∀ call ∈ (d.calls reactions).dropLast, d.compounder.compound call = .ok .proceed) :
    d.Follows reactions (d.behind reactions ⟨result, d.after applied, tail⟩) where
  in_order := hin_order
  proceeds := hproceeds
  not_final _ := isFinal_of_mem_calls hin_order
  final := by simp [finalCall, Consultation.isFinal]
  final_call hall hmode := by
    rw [behind, Trail.consultations_append, consultations_turns hin_order, h.consultations.1 hall hmode]
  no_final_call hnot := by
    rw [behind, Trail.consultations_append, consultations_turns hin_order, h.consultations.2 hnot,
      List.append_nil]
  ends := ⟨applied, tail, h, rfl, rfl⟩

theorem behind_snoc {reaction : Reaction} {before events : Trail}
    (h : d.turns (reactions ++ [reaction]) = d.turns reactions ++ (before ++ events))
    (outcome : Outcome Evaluation Bool) :
    d.behind (reactions ++ [reaction]) outcome =
      d.behind reactions ⟨outcome.result, outcome.state, before ++ (events ++ outcome.trail)⟩ := by
  simp only [behind, h, List.append_assoc]

/-! ### As long as the decision goes on -/

/-- These candidates have reacted, and the compounder has let the decision go on. -/
structure Passed (d : Decision) (reactions : List Reaction) : Prop where
  in_order : d.InOrder reactions
  proceeds : ∀ call ∈ d.calls reactions, d.compounder.compound call = .ok .proceed

theorem passed_nil (d : Decision) : d.Passed [] where
  in_order _ hi := absurd hi (Nat.not_lt_zero _)
  proceeds call hcall := by
    rw [calls, List.mapIdx_nil, ite_self] at hcall
    cases hcall

theorem Passed.before_last (h : d.Passed reactions) :
    ∀ call ∈ (d.calls reactions).dropLast, d.compounder.compound call = .ok .proceed :=
  fun call hcall => h.proceeds call (List.dropLast_subset _ hcall)

/-- One candidate more has reacted; if the compounder is asked, it lets the decision go on. -/
theorem Passed.snoc (h : d.Passed reactions) {reaction : Reaction}
    (horder : d.InOrder (reactions ++ [reaction]))
    (hcall : d.compounder.mode.perPolicy = true →
      d.compounder.compound (d.nextCall reactions reaction) = .ok .proceed) :
    d.Passed (reactions ++ [reaction]) := by
  refine ⟨horder, fun call hmem => ?_⟩
  rw [calls_snoc] at hmem
  rcases List.mem_append.1 hmem with hbefore | hlast
  · exact h.proceeds call hbefore
  · cases hmode : d.compounder.mode.perPolicy with
    | false =>
      rw [hmode] at hlast
      cases hlast
    | true =>
      rw [hmode] at hlast
      rw [List.mem_singleton.1 hlast]
      exact hcall hmode

/-- The compounder has been asked for one candidate more, and that was the end. -/
theorem Passed.follows_last (h : d.Passed reactions) {reaction : Reaction}
    (horder : d.InOrder (reactions ++ [reaction])) (hmode : d.compounder.mode.perPolicy = true)
    (hend : (d.calls (reactions ++ [reaction])).getLast? = some (d.nextCall reactions reaction) →
      d.Ends (reactions ++ [reaction]) applied tail result) :
    d.Follows (reactions ++ [reaction])
      (d.behind (reactions ++ [reaction]) ⟨result, d.after applied, tail⟩) := by
  have hcalls := calls_snoc d reactions reaction
  rw [hmode, if_pos rfl] at hcalls
  rw [hcalls, List.getLast?_concat] at hend
  refine (hend rfl).follows horder ?_
  rw [hcalls, List.dropLast_concat]
  exact h.proceeds

/-- After the last candidate. -/
theorem Passed.follows_concludeAfter (h : d.Passed reactions)
    (hlength : reactions.length = d.candidates.length) :
    d.Follows reactions (d.behind reactions
      (d.compounder.concludeAfter d.context d.candidates reactions (d.after reactions.length))) := by
  have hall : d.Exhausted reactions := ⟨hlength, h.proceeds⟩
  rw [Compounder.concludeAfter]
  cases hmode : d.compounder.mode.atEnd with
  | false =>
    rw [if_neg (by simp)]
    exact (Ends.undecided hall hmode).follows h.in_order h.before_last
  | true =>
    rw [if_pos rfl]
    have hconsult : (d.compounder.consult ⟨d.candidates, reactions, d.candidates.length, none⟩
        (d.after reactions.length)).result = d.compounder.compound (d.finalCall reactions) := rfl
    cases hcompound : d.compounder.compound (d.finalCall reactions) with
    | error e =>
      rw [Act.bind_error (hconsult.trans hcompound)]
      exact (Ends.rejectedAfter hall hmode hcompound).follows h.in_order h.before_last
    | ok step =>
      rw [Act.bind_ok (hconsult.trans hcompound)]
      cases step with
      | conclude verdict =>
        exact (Ends.concludedAfter hall hmode hcompound).follows h.in_order h.before_last
      | proceed => exact (Ends.unconcluded hall hmode hcompound).follows h.in_order h.before_last

/-- One candidate more: it fails, or the compounder ends the decision, or the decision goes on. -/
theorem Passed.follows_turn {rest : List Policy} (h : d.Passed reactions)
    (hpolicy : d.candidates[reactions.length]? = some policy)
    (hnext : ∀ reaction, d.Passed (reactions ++ [reaction]) →
      ∃ all, d.Follows all (d.behind (reactions ++ [reaction])
        (d.compounder.decideFrom d.context d.candidates (reactions ++ [reaction]) rest
          (d.after (reactions ++ [reaction]).length)))) :
    ∃ all, d.Follows all (d.behind reactions
      (d.compounder.decideFrom d.context d.candidates reactions (policy :: rest)
        (d.after reactions.length))) := by
  unfold Compounder.decideFrom
  cases hreact : (policy.react d.context (d.after reactions.length)).result with
  | error e =>
    rw [Act.bind_error hreact, ← after_succ hpolicy]
    exact ⟨reactions, (Ends.failed h.proceeds hpolicy hreact).follows h.in_order h.before_last⟩
  | ok reaction =>
    have horder := h.in_order.snoc hpolicy hreact
    have hturns := turns_snoc hpolicy reaction
    have hlength : (reactions ++ [reaction]).length = reactions.length + 1 := by
      rw [List.length_append, List.length_singleton]
    specialize hnext reaction
    rw [hlength] at hnext
    rw [Act.bind_ok hreact, ← after_succ hpolicy, Act.bind_apply]
    dsimp only [Act.log_apply]
    cases hmode : d.compounder.mode.perPolicy with
    | false =>
      -- The compounder is not asked, so there is no call that could end the decision.
      obtain ⟨all, hall⟩ := hnext (h.snoc horder (by simp [hmode]))
      rw [hmode, if_neg (by simp)] at hturns
      rw [behind_snoc hturns] at hall
      exact ⟨all, hall⟩
    | true =>
      rw [hmode, if_pos rfl] at hturns
      have hconsult : (d.compounder.consult
          ⟨d.candidates, reactions ++ [reaction], reactions.length, reaction⟩
          (d.after (reactions.length + 1))).result =
            d.compounder.compound (d.nextCall reactions reaction) := rfl
      rw [if_pos rfl]
      cases hcompound : d.compounder.compound (d.nextCall reactions reaction) with
      | error e =>
        have hend := h.follows_last horder hmode fun hlast => .rejected hlast hcompound
        rw [behind_snoc hturns, hlength] at hend
        rw [Act.bind_error (hconsult.trans hcompound)]
        exact ⟨_, hend⟩
      | ok step =>
        rw [Act.bind_ok (hconsult.trans hcompound)]
        cases step with
        | conclude verdict =>
          have hend := h.follows_last horder hmode fun hlast => .concluded hlast hpolicy hcompound
          rw [behind_snoc hturns, hlength] at hend
          exact ⟨_, hend⟩
        | proceed =>
          obtain ⟨all, hall⟩ := hnext (h.snoc horder fun _ => hcompound)
          rw [behind_snoc hturns] at hall
          exact ⟨all, hall⟩

/-- **The course of a decision**, from any candidate on. -/
theorem Passed.follows_decideFrom (h : d.Passed reactions) {done rest : List Policy}
    (hsplit : d.candidates = done ++ rest) (hlength : reactions.length = done.length) :
    ∃ all, d.Follows all (d.behind reactions
      (d.compounder.decideFrom d.context d.candidates reactions rest (d.after reactions.length))) := by
  induction rest generalizing done reactions with
  | nil =>
    rw [Compounder.decideFrom]
    exact ⟨reactions, h.follows_concludeAfter (by rw [hlength, hsplit, List.append_nil])⟩
  | cons policy rest ih =>
    have hpolicy : d.candidates[reactions.length]? = some policy := by
      rw [hsplit, hlength, List.getElem?_append_right (Nat.le_refl _), Nat.sub_self]
      rfl
    apply h.follows_turn hpolicy
    intro reaction hpassed
    have hsplit' : d.candidates = (done ++ [policy]) ++ rest := by
      rw [hsplit, List.append_assoc, List.singleton_append]
    exact ih hpassed hsplit' (by simp [hlength])

/-- The outcome of a decision. -/
def outcome (d : Decision) : Outcome Evaluation Bool :=
  d.compounder.decide d.context d.candidates d.begun

theorem follows_outcome (d : Decision) : ∃ reactions, d.Follows reactions d.outcome := by
  have hsplit : d.candidates = [] ++ d.candidates := rfl
  exact d.passed_nil.follows_decideFrom hsplit rfl

end Decision

/-! ### Requests -/

namespace Engine

/-- **How a request asks the compounder.** Let the resource and the candidates of a request be found,
whatever the engine remembers. Then the request comes to what the decision on the candidates comes to,
and the decision takes its course. Nothing before it asks the compounder. -/
theorem check_follows {engine : Engine} {request : Request} {resource : Resource}
    {policies : List Policy} (hresource : (resolve request.resource engine).result = .ok resource)
    (hpolicies : (candidates resource engine).result = .ok policies) (compounder : Compounder) :
    let found := (candidates resource engine).state
    let d : Decision := ⟨compounder, ⟨request.requester, request.access, resource.id⟩, policies,
      found.evaluation none⟩
    let checked := check request compounder engine
    checked.result = d.outcome.result ∧
    checked.state = resume d.outcome.state found ∧
    checked.trail.consultations = d.outcome.trail.consultations ∧
    checked.trail = (resolve request.resource engine).trail ++
      .logged (.permissionChecked request.requester request.access resource.id) ::
        (candidates resource engine).trail ++ d.outcome.trail ∧
    ∃ reactions, d.Follows reactions d.outcome := by
  intro found d checked
  have hchecked : checked = ⟨d.outcome.result, resume d.outcome.state found,
      (resolve request.resource engine).trail ++
        .logged (.permissionChecked request.requester request.access resource.id) ::
          (candidates resource engine).trail ++ d.outcome.trail⟩ := by
    rw [show checked = check request compounder engine from rfl, check, Act.bind_ok hresource,
      resolve_state, Act.bind_apply]
    dsimp only [Act.log_apply]
    rw [Act.bind_ok hpolicies, Act.zoom_apply, List.append_assoc]
    rfl
  have hresolve := Trail.consultations_of_quiet (quiet_resolve request.resource engine)
  have hcandidates := Trail.consultations_of_quiet (quiet_candidates resource engine)
  rw [hchecked]
  refine ⟨rfl, rfl, ?_, rfl, d.follows_outcome⟩
  simp only [Trail.consultations_append, Trail.consultations_logged, hresolve, hcandidates,
    List.nil_append]

/-- One policy allows, and a compounder never concludes: it is asked after the policy and once more. -/
theorem check_follows_unconcluded :
    let allows : Policy := { id := ⟨⟨1⟩⟩, selector := some .wildcard, contents := [⟨[], some true⟩] }
    let engine := Engine.new { policies := .ofList [allows] } { cache := { enabled := true } } {}
    let resource : Resource := { id := ⟨⟨3⟩⟩ }
    let request : Request := ⟨⟨⟨4⟩⟩, .one "read", .given resource⟩
    let compounder : Compounder := ⟨.all, fun _ => .ok .proceed⟩
    let checked := check request compounder engine
    (resolve request.resource engine).result = .ok resource ∧
      (candidates resource engine).result = .ok [allows] ∧
      checked.trail.consultations =
        [⟨[allows], [some true], 0, some true⟩, ⟨[allows], [some true], 1, none⟩] ∧
      checked.result =
        .error (.invalidCompounder "compounder did not conclude after the last policy") := by
  intro allows engine resource request compounder checked
  have hresource : (resolve request.resource engine).result = .ok resource := rfl
  have hpolicies : (candidates resource engine).result = .ok [allows] := by
    show Except.ok (Policy.byPriority (Policy.byPriority [allows])) = _
    simp only [Policy.byPriority_singleton]
  obtain ⟨hresult, -, hconsultations, -, -⟩ := check_follows hresource hpolicies compounder
  exact ⟨hresource, hpolicies, hconsultations.trans rfl, hresult.trans rfl⟩

end Engine
end PolicyDecision
