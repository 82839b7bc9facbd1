import PolicyDecision.Checks
import PolicyDecision.Compounder

/-!
# Evaluation

A policy reacts to a request as follows. All of its conditions are made predicates, then they are
evaluated in order. A condition that holds with a denial ends the evaluation; one that holds with
an allowance is remembered, so that a later denial still wins.

A decision asks the candidates one after the other and lets a compounder make a verdict of the
reactions: after each candidate, after the last one, or both. The first verdict or failure ends
the decision, and no further candidate is made predicates of or evaluated.
-/

namespace PolicyDecision

/-- What evaluation works on. -/
structure Evaluation where
  checks : Checks
  inquiry : Inquiry

namespace Evaluation

variable {α : Type}

/-- Make predicates. -/
def onChecks (x : Act Checks α) : Act Evaluation α :=
  x.zoom checks fun checks evaluation => { evaluation with checks }

/-- Evaluate predicates. -/
def onInquiry (x : Act Inquiry α) : Act Evaluation α :=
  x.zoom inquiry fun inquiry evaluation => { evaluation with inquiry }

end Evaluation

/-! ### Policies -/

/-- Make a predicate of the condition of a content. -/
def Content.compile (content : Content) : Act Checks (ContextPredicate × Reaction) := do
  return (← Checks.compile content.check, content.reaction)

/-- Evaluate conditions in order. `allowed` tells whether one that held allows. -/
def Content.scan (context : Context) (allowed : Bool) :
    List (ContextPredicate × Reaction) → Act Inquiry Reaction
  | [] => return if allowed then some true else none
  | (check, reaction) :: rest => do
    if ← check.eval context then
      match reaction with
      | some false => return some false
      | some true => scan context true rest
      | none => scan context allowed rest
    else scan context allowed rest

/-- The reaction of a policy to a request. -/
def Policy.react (policy : Policy) (context : Context) : Act Evaluation Reaction := do
  let contents ← Evaluation.onChecks (policy.contents.mapM Content.compile)
  Evaluation.onInquiry (Content.scan context false contents)

/-! ### Decisions -/

namespace Compounder

/-- Ask the compounder. -/
def consult (compounder : Compounder) (input : Consultation) : Act Evaluation Step := do
  Act.record (.consulted input)
  Act.ofExcept (compounder.compound input)

/-- The verdict after the last candidate. -/
def concludeAfter (compounder : Compounder) (context : Context) (candidates : List Policy)
    (reactions : List Reaction) : Act Evaluation Bool := do
  if compounder.mode.atEnd then
    match ← compounder.consult ⟨candidates, reactions, candidates.length, none⟩ with
    | .conclude verdict =>
      Act.log (.decidedAfter verdict context.requester context.resource candidates.length)
      return verdict
    | .proceed =>
      throw (.invalidCompounder "compounder did not conclude after the last policy")
  else
    Act.log (.undecided context.requester context.resource candidates.length)
    throw .noDecision

/-- Ask the remaining candidates, after those that reacted already. -/
def decideFrom (compounder : Compounder) (context : Context) (candidates : List Policy)
    (reactions : List Reaction) : List Policy → Act Evaluation Bool
  | [] => compounder.concludeAfter context candidates reactions
  | policy :: rest => do
    let reaction ← policy.react context
    Act.log (.policyReacted policy.id policy.priority reaction)
    let reactions' := reactions ++ [reaction]
    if compounder.mode.perPolicy then
      match ← compounder.consult ⟨candidates, reactions', reactions.length, reaction⟩ with
      | .conclude verdict =>
        Act.log (.decidedBy verdict context.requester context.resource policy.id)
        return verdict
      | .proceed => decideFrom compounder context candidates reactions' rest
    else decideFrom compounder context candidates reactions' rest

/-- The verdict on a request, for which these policies are asked. -/
def decide (compounder : Compounder) (context : Context) (candidates : List Policy) :
    Act Evaluation Bool :=
  compounder.decideFrom context candidates [] candidates

end Compounder
end PolicyDecision
