import PolicyDecision.Policy.Json
import PolicyDecision.Proofs.Relevance
import PolicyDecision.Proofs.Wording

/-!
# Lists of restrictors on owners

A list of restrictors is their conjunction, but it is read as one restrictor before a resource is looked
at. For the owner of a resource this makes no difference: the list accepts the owner exactly if each of
its items does (`Policy.list_relevant`).

A resource without owner is accepted by `"*"` and by `"none"` and by nothing else, and there the list is
more than its items: a `"none"` takes the place of all the others, so the list accepts what another item
refuses (`Policy.list_not_conjunction`).
-/

namespace PolicyDecision

/-! ### What is read -/

namespace Restrictor

/-- A list can be read if each of its items can. -/
theorem ofJson_array {items : List Json} (h : ∀ item ∈ items, ∃ r, ofJson item = .ok r) :
    ∃ r, ofJson (.array items) = .ok r := by
  have hread : ∃ read, clausesOfItems items = .ok read := by
    induction items with
    | nil => exact ⟨some [], by rw [clausesOfItems]⟩
    | cons item items ih =>
      obtain ⟨⟨r, hitem⟩, hitems⟩ := List.forall_mem_cons.1 h
      obtain ⟨read, hread⟩ := ih hitems
      rw [clausesOfItems, hitem]
      cases r with
      | wildcard => exact ⟨read, hread⟩
      | noOwner => exact ⟨none, rfl⟩
      | all clauses => exact ⟨read.map (clauses ++ ·), bind_pure_eq_ok.2 ⟨read, hread, rfl⟩⟩
  obtain ⟨read, hread⟩ := hread
  refine ⟨read.elim .noOwner .all, ?_⟩
  rw [ofJson]
  exact bind_pure_eq_ok.2 ⟨read, hread, rfl⟩

theorem eq_wildcard_iff {v : Json} {r : Restrictor} (h : ofJson v = .ok r) :
    r = .wildcard ↔ v = .null ∨ v = .string "*" := by
  cases v with
  | null =>
    cases h
    simp
  | bool b => simp [ofJson] at h
  | number n => simp [ofJson] at h
  | string word =>
    rw [ofJson] at h
    split at h
    · next hstar =>
      cases h
      simp [hstar]
    · next hstar =>
      split at h
      · cases h
        simp [hstar]
      · cases h
  | array items =>
    rw [ofJson] at h
    obtain ⟨read, -, rfl⟩ := bind_pure_eq_ok.1 h
    cases read <;> simp
  | object fields =>
    rw [ofJson] at h
    obtain ⟨read, -, rfl⟩ := bind_pure_eq_ok.1 h
    cases read <;> simp

end Restrictor

/-- The text of a selector for a type of resources, if one is given, with this text for the owner. -/
def Selector.text (type : Option String) (owner : Json) : Json :=
  .object (("resourceOwner", owner) :: (type.map fun t => ("resourceType", Json.string t)).toList)

/-- The owner is left out of a selector where `null` is written, which accepts what `"*"` does. -/
theorem Selector.ofJson_text (type : Option String) {owner : Json} {r : Restrictor}
    (h : Restrictor.ofJson owner = .ok r) :
    ∃ restrictor, ofJson (text type owner) = .ok (.matching type restrictor) ∧
      ∀ ownership : Ownership, restrictor.all ownership.accepted = ownership.accepted r := by
  have htype : ∀ restrictor, ofFields none restrictor
      (type.map fun t => ("resourceType", Json.string t)).toList = .ok (.matching type restrictor) := by
    intro restrictor
    cases type with
    | none => rfl
    | some t => rfl
  by_cases hnull : owner = .null
  · subst hnull
    cases h
    refine ⟨none, htype none, fun ownership => ?_⟩
    cases ownership <;> rfl
  · refine ⟨some r, ?_, fun ownership => rfl⟩
    rw [text, ofJson, ofFields, h]
    · exact htype (some r)
    · exact hnull

/-! ### What is accepted -/

namespace Ownership

/-- For an owner, a restrictor is a conjunction of clauses. -/
theorem accepted_owned (owner : EntityId) (closure : IdSet .entity) (r : Restrictor) :
    (owned owner closure).accepted r = true ↔
      r.Accepts fun clause => satisfies owner closure clause = true := by
  cases r with
  | wildcard => simp [accepted, Restrictor.Accepts]
  | noOwner => simp [accepted, Restrictor.Accepts]
  | all clauses => simp [accepted, Restrictor.Accepts]

/-- Where there is no owner, clauses are not looked at. -/
theorem accepted_unowned (r : Restrictor) :
    unowned.accepted r = true ↔ r = .wildcard ∨ r = .noOwner := by
  cases r with
  | wildcard => simp [accepted]
  | noOwner => simp [accepted]
  | all clauses => simp [accepted]

end Ownership

/-- The policy would be relevant with a selector for this type, and with this text for the owner. -/
def Policy.RelevantWith (policy : Policy) (relevance : Relevance) (type : Option String) (owner : Json) :
    Prop :=
  ∃ selector, Selector.ofJson (Selector.text type owner) = .ok selector ∧
    relevance.accepts { policy with selector := some selector } = true

/-- The type of the selector fits the resource. -/
def Relevance.FitsType (relevance : Relevance) (type : Option String) : Prop :=
  type.all (fun t => t = "*" ∨ t = relevance.type) = true

theorem Policy.relevantWith_iff {policy : Policy} {relevance : Relevance}
    (hunbound : policy.id ∉ relevance.bound) {type : Option String} {owner : Json} {r : Restrictor}
    (h : Restrictor.ofJson owner = .ok r) :
    policy.RelevantWith relevance type owner ↔
      relevance.FitsType type ∧ relevance.ownership.accepted r = true := by
  obtain ⟨restrictor, hread, haccepted⟩ := Selector.ofJson_text type h
  rw [RelevantWith, hread]
  simp [Relevance.accepts, hunbound, Relevance.selects, haccepted, Relevance.FitsType]

/-- What is looked for is the owner of the resource, if it has one. -/
theorem Graph.relevance_eq {resource : Resource} {graph : Graph} {relevance : Relevance}
    (h : (Graph.relevance resource graph).result = .ok relevance) :
    ∃ closure, relevance = .ofResource resource closure := by
  rw [Graph.relevance] at h
  cases howner : resource.owner with
  | none =>
    rw [howner] at h
    cases h
    exact ⟨_, rfl⟩
  | some owner =>
    rw [howner] at h
    obtain ⟨closure, -, hrelevance⟩ := Act.bind_eq_ok.1 h
    cases hrelevance
    exact ⟨closure, rfl⟩

namespace Policy

variable {policy : Policy} {relevance : Relevance} (hunbound : policy.id ∉ relevance.bound)
  {type : Option String}
include hunbound

/-- For an owner, a selector asks whether its text is met. -/
theorem relevantWith_owned {owner : EntityId} {closure : IdSet .entity}
    (howner : relevance.ownership = .owned owner closure) {v : Json}
    (h : ∃ r, Restrictor.ofJson v = .ok r) :
    policy.RelevantWith relevance type v ↔ relevance.FitsType type ∧
      Restrictor.Met (fun clause => Ownership.satisfies owner closure clause = true) v := by
  obtain ⟨r, hr⟩ := h
  rw [relevantWith_iff hunbound hr, howner, Ownership.accepted_owned, Restrictor.accepts_iff_met _ v hr]

/-- Where there is no owner, a selector asks for a wildcard or a `"none"`. -/
theorem relevantWith_unowned (howner : relevance.ownership = .unowned) {v : Json}
    (h : ∃ r, Restrictor.ofJson v = .ok r) :
    policy.RelevantWith relevance type v ↔ relevance.FitsType type ∧
      ((v = .null ∨ v = .string "*") ∨ Restrictor.MentionsNone v) := by
  obtain ⟨r, hr⟩ := h
  rw [relevantWith_iff hunbound hr, howner, Ownership.accepted_unowned, Restrictor.eq_wildcard_iff hr,
    Restrictor.eq_noOwner_iff hr]

end Policy

/-- **A list of restrictors on owners is the conjunction of its items**, as far as it can be. Let each
item be a restrictor on its own. Then the list is one, and for a resource with an owner a policy is
relevant with the list exactly if its type fits and it would be relevant with every item. So it is for a
resource without owner, unless a `"none"` occurs in the list or its items are only wildcards; where a
`"none"` occurs, it is as if there was nothing else in the list. -/
theorem Policy.list_relevant {items : List Json}
    (hitems : ∀ item ∈ items, ∃ r, Restrictor.ofJson item = .ok r)
    {graph : Graph} {resource : Resource} {relevance : Relevance}
    (hrelevance : (Graph.relevance resource graph).result = .ok relevance) {policy : Policy}
    (hunbound : policy.id ∉ resource.boundPolicies) (type : Option String) :
    let list : Json := .array items
    let Relevant := policy.RelevantWith relevance type
    (∃ r, Restrictor.ofJson list = .ok r) ∧
    (resource.owner ≠ none ∨
        (¬Restrictor.MentionsNone list ∧ ∃ item ∈ items, item ≠ .null ∧ item ≠ .string "*") →
      (Relevant list ↔ Relevant .null ∧ ∀ item ∈ items, Relevant item)) ∧
    (resource.owner = none → Restrictor.MentionsNone list →
      (Relevant list ↔ Relevant (.string "none"))) := by
  intro list Relevant
  obtain ⟨closure, rfl⟩ := Graph.relevance_eq hrelevance
  have hlist : ∃ r, Restrictor.ofJson list = .ok r := Restrictor.ofJson_array hitems
  have hnull : ∃ r, Restrictor.ofJson .null = .ok r := ⟨.wildcard, rfl⟩
  have hnone : ∃ r, Restrictor.ofJson (.string "none") = .ok r := ⟨.noOwner, rfl⟩
  refine ⟨hlist, ?_⟩
  cases howner : resource.owner with
  | some owner =>
    have howned : (Relevance.ofResource resource closure).ownership =
        .owned owner (closure.insert owner) := by
      rw [Relevance.ofResource, howner]
    have hrelevant : ∀ v, (∃ r, Restrictor.ofJson v = .ok r) → (Relevant v ↔ _) :=
      fun v h => relevantWith_owned hunbound howned h
    refine ⟨fun _ => ?_, fun hno => absurd hno (Option.some_ne_none owner)⟩
    rw [hrelevant list hlist, hrelevant .null hnull, Restrictor.Met, Restrictor.Met,
      Restrictor.eachMet_iff, and_true]
    refine and_congr_right fun htype => forall₂_congr fun item hitem => ?_
    rw [hrelevant item (hitems item hitem), and_iff_right htype]
  | none =>
    have hunowned : (Relevance.ofResource resource closure).ownership = .unowned := by
      rw [Relevance.ofResource, howner]
    have hrelevant : ∀ v, (∃ r, Restrictor.ofJson v = .ok r) → (Relevant v ↔ _) :=
      fun v h => relevantWith_unowned hunbound hunowned h
    constructor
    · rintro (hsome | ⟨hmentions, item, hitem, hwild, hstar⟩)
      · exact absurd rfl hsome
      · -- Neither the list nor this item is accepted.
        have hitemMet : ¬Restrictor.MentionsNone item := by
          rw [Restrictor.MentionsNone, Restrictor.someMentionNone_iff] at hmentions
          exact fun h => hmentions ⟨item, hitem, h⟩
        have hlistRefused : ¬Relevant list := by
          rw [hrelevant list hlist]
          simp [list, hmentions]
        have hitemRefused : ¬Relevant item := by
          rw [hrelevant item (hitems item hitem)]
          simp [hwild, hstar, hitemMet]
        exact iff_of_false hlistRefused fun h => hitemRefused (h.2 item hitem)
    · intro _ hmentions
      rw [hrelevant list hlist, hrelevant _ hnone]
      simp [hmentions, Restrictor.MentionsNone]

/-- A member of the group owns the resource, and the list holds a list. -/
theorem Policy.list_relevant_nested :
    let member : Entity := .withParents ⟨⟨1⟩⟩ [⟨⟨2⟩⟩]
    let entities : Table Entity := .ofList [member, .withParents ⟨⟨2⟩⟩ []]
    let resource : Resource := { id := ⟨⟨4⟩⟩, owner := some ⟨⟨1⟩⟩ }
    let group : Json := .object [("subof", .string "00000000-0000-0000-0000-000000000002")]
    let self : Json :=
      .array [.string "*", .object [("id", .string "00000000-0000-0000-0000-000000000001")]]
    let policy : Policy := { id := ⟨⟨5⟩⟩ }
    (∀ item ∈ [group, self], ∃ r, Restrictor.ofJson item = .ok r) ∧
      policy.id ∉ resource.boundPolicies ∧
      ∃ relevance, (Graph.relevance resource ⟨entities, none⟩).result = .ok relevance ∧
        policy.RelevantWith relevance none (.array [group, self]) := by
  intro member entities resource group self policy
  have hgroup : Restrictor.ofJson group = .ok (.all [.subOf ⟨⟨2⟩⟩]) := rfl
  have hself : Restrictor.ofJson self = .ok (.all [.id ⟨⟨1⟩⟩]) := rfl
  have hitems : ∀ item ∈ [group, self], ∃ r, Restrictor.ofJson item = .ok r := by
    simp only [List.forall_mem_cons]
    exact ⟨⟨_, hgroup⟩, ⟨_, hself⟩, by simp⟩
  have hunbound : policy.id ∉ resource.boundPolicies := IdSet.not_mem_empty _
  have hresolves : resource.OwnerResolves entities := by
    rintro owner ⟨⟩
    exact Table.resolves_of_parents (Table.stored_of_parent (by decide)) ⟨member, rfl⟩
  obtain ⟨closure, hclosure, hrelevance⟩ := Graph.relevance_found hresolves
  obtain ⟨-, hlist, -⟩ := list_relevant hitems hrelevance hunbound none
  refine ⟨hitems, hunbound, _, hrelevance, (hlist (.inl (by simp [resource]))).2 ⟨?_, ?_⟩⟩
  · exact ⟨.matching none none, rfl, rfl⟩
  · simp only [List.forall_mem_cons]
    refine ⟨?_, ?_, by simp⟩
    · rw [relevantWith_iff hunbound hgroup, Ownership.accepted_iff hclosure]
      have hparent : entities.Ancestor ⟨⟨1⟩⟩ ⟨⟨2⟩⟩ := .single ⟨member, rfl, by decide⟩
      exact ⟨rfl, _, rfl, by simpa [Clause.AcceptsOwner] using hparent⟩
    · rw [relevantWith_iff hunbound hself, Ownership.accepted_iff hclosure]
      exact ⟨rfl, _, rfl, by simp [Clause.AcceptsOwner]⟩

/-- A `"none"` takes the place of the other items: for a resource without owner, a policy is relevant
with the list, though it is not with each of the items. -/
theorem Policy.list_not_conjunction :
    let items : List Json :=
      [.string "none", .object [("subof", .string "00000000-0000-0000-0000-000000000002")]]
    let resource : Resource := { id := ⟨⟨4⟩⟩ }
    let relevance := Relevance.ofResource resource .empty
    let policy : Policy := { id := ⟨⟨5⟩⟩ }
    (∀ item ∈ items, ∃ r, Restrictor.ofJson item = .ok r) ∧
      (Graph.relevance resource ⟨.empty, none⟩).result = .ok relevance ∧
      policy.id ∉ resource.boundPolicies ∧
      ¬(policy.RelevantWith relevance none (.array items) ↔
        ∀ item ∈ items, policy.RelevantWith relevance none item) := by
  intro items resource relevance policy
  have hgroup : Restrictor.ofJson
      (.object [("subof", .string "00000000-0000-0000-0000-000000000002")]) =
        .ok (.all [.subOf ⟨⟨2⟩⟩]) := rfl
  have hitems : ∀ item ∈ items, ∃ r, Restrictor.ofJson item = .ok r := by
    simp only [items, List.forall_mem_cons]
    exact ⟨⟨.noOwner, rfl⟩, ⟨_, hgroup⟩, by simp⟩
  have hunbound : policy.id ∉ resource.boundPolicies := IdSet.not_mem_empty _
  refine ⟨hitems, rfl, hunbound, fun hconjunction => ?_⟩
  have hlist : policy.RelevantWith relevance none (.array items) :=
    ⟨.matching none (some .noOwner), rfl, rfl⟩
  have halone := hconjunction.1 hlist _ (List.mem_cons_of_mem _ List.mem_cons_self)
  rw [relevantWith_iff hunbound hgroup] at halone
  cases halone.2

end PolicyDecision
