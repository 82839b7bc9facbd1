import PolicyDecision.Engine

/-!
# Sessions

A session evaluates checks and policies for one context, one after the other. It keeps the
requester from the first time it is needed, also when the stored entity is replaced meanwhile.
-/

namespace PolicyDecision

/-- An engine at work on one context. -/
structure Session where
  engine : Engine
  context : Context
  requester : Option Entity := none

namespace Session

variable {α : Type}

/-- Evaluate for the context. -/
def evaluating (x : Context → Act Evaluation α) : Act Session α := do
  let context := (← get).context
  (x context).zoom (fun session => session.engine.evaluation session.requester)
    fun evaluation session =>
      { session with
        engine := session.engine.resume evaluation
        requester := evaluation.inquiry.requester }

def eval (p : ContextPredicate) : Act Session Bool :=
  evaluating fun context => Evaluation.onInquiry (p.eval context)

def react (policy : Policy) : Act Session Reaction :=
  evaluating policy.react

end Session
end PolicyDecision
