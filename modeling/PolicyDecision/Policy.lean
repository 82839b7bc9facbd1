import PolicyDecision.Condition

/-!
# Policies

A policy selects resources and reacts to requests. Its contents are pairs of a condition tree
and a reaction, evaluated in order; no two of them are equal. Policies of a higher priority are
asked first.
-/

namespace PolicyDecision

/-- Allow, deny, or abstain (`none`). -/
abbrev Reaction := Option Bool

/-- Which resources a policy is for. -/
inductive Selector
  | wildcard
  /-- Resources of a type (`"*"` is any) with an owner that is accepted; what is absent does not
  constrain. -/
  | matching (type : Option String) (owner : Option Restrictor)

/-- Equality, with arguments of custom operators compared as values. -/
def Selector.same : Selector → Selector → Bool
  | .wildcard, .wildcard => true
  | .matching type owner, .matching type' owner' => type = type' && owner == owner'
  | _, _ => false

instance : BEq Selector := ⟨Selector.same⟩

/-- A condition and the reaction when it holds. -/
structure Content where
  check : Tree := []
  reaction : Reaction := none

instance : BEq Content := ⟨fun a b => Tree.same a.check b.check && a.reaction = b.reaction⟩

/-- A rule set with a priority. A policy without selector is only reached through resources that
it is bound to. -/
structure Policy where
  id : PolicyId
  selector : Option Selector := none
  contents : List Content := []
  priority : Int := 0

namespace Policy

instance : BEq Policy :=
  ⟨fun a b => a.id = b.id && a.selector == b.selector && a.contents == b.contents &&
    a.priority = b.priority⟩

/-- Append a content, unless an equal one is there already; whether it was appended. -/
def push (p : Policy) (content : Content) : Bool × Policy :=
  if p.contents.contains content then (false, p)
  else (true, { p with contents := p.contents ++ [content] })

/-- Contents without the later ones of equal pairs, in order. -/
def distinct (contents : List Content) : List Content :=
  contents.foldl (fun kept c => if kept.contains c then kept else kept ++ [c]) []

end Policy
end PolicyDecision
