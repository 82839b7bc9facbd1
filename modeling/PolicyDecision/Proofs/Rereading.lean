import PolicyDecision.Policy.Json
import PolicyDecision.Proofs.Records
import PolicyDecision.Proofs.Transparency
import PolicyDecision.Relevance
import PolicyDecision.Snapshot

/-!
# Policies that were written and read back

What is read back of a tree need not be the tree: its keys are sorted, and repeated ones stand under
`and`. It can be made a predicate of if the tree can, and where no leaf of the tree fails the two
predicates answer the same (`Checks.compile_reread`).

What is read back of a policy has the identifier and the priority of the policy and is found for the same
resources, for the clauses of an owner may only change places (`Policy.Reread.accepts_eq`). Its contents
are those of the policy with trees that are alike, without the later ones of equal pairs
(`Policy.Reread`). A whole snapshot is read back so, with the entities and resources that it had
(`Snapshot.decode_toJson`).
-/

namespace PolicyDecision

/-- **A tree that is written and read back means the same.** Let no custom key at any depth be named
like a built-in one. Then a tree is read back. With any operators, it can be made a predicate of if the
other can. Over any entities, the two predicates never answer differently, and where no leaf of the tree
fails by itself, they give the same answer. -/
theorem Checks.compile_reread (t : Tree) (ht : Tree.shadowedBuiltin? t = none) :
    ∃ u, Tree.ofJson (Tree.toJson t) = .ok u ∧ ∀ registry : Registry,
      let compiled := fun tree : Tree => (compile tree ⟨registry, none⟩).result
      ((∃ p, compiled u = .ok p) ↔ ∃ q, compiled t = .ok q) ∧
      ∀ p q, compiled u = .ok p → compiled t = .ok q → ∀ entities context,
        let inquiry : Inquiry := ⟨⟨entities, none⟩, none⟩
        (∀ b b', (p.eval context inquiry).result = .ok b → (q.eval context inquiry).result = .ok b' →
          b = b') ∧
        ((registry.valuation entities context).Sure (Tree.leaves t) →
          ∃ b, (p.eval context inquiry).result = .ok b ∧ (q.eval context inquiry).result = .ok b) := by
  obtain ⟨u, hread, halike⟩ := Tree.ofJson_toJson ht
  refine ⟨u, hread, fun registry => ⟨halike.compiles registry, ?_⟩⟩
  intro p q hp hq entities context inquiry
  have hcurrent : inquiry.Current entities context.requester :=
    Inquiry.current_unasked (Graph.current_memoless entities)
  exact eval_alike halike hp hq hcurrent hcurrent

/-- A tree with two conditions under one custom key, two under `and` and a clause that repeats. -/
theorem Checks.compile_reread_repeated :
    let holds : Factory Context := fun arg => .ok fun _ => .ok (arg == .bool true)
    let registry : Registry := { contextOps := ⟨Condition.builtins, [("flag", holds)]⟩ }
    let t : Tree :=
      [.custom "flag" (.bool true), .and [[.access (.one "read")]], .custom "flag" (.bool true),
        .requester (.all [.subOf ⟨⟨1⟩⟩, .subOf ⟨⟨1⟩⟩]), .and [[.resourceId ⟨⟨2⟩⟩]]]
    let entities : Table Entity := .ofList [{ id := ⟨⟨1⟩⟩ }]
    let context : Context := ⟨⟨⟨1⟩⟩, .one "read", ⟨⟨2⟩⟩⟩
    let inquiry : Inquiry := ⟨⟨entities, none⟩, none⟩
    Tree.shadowedBuiltin? t = none ∧ (registry.valuation entities context).Sure (Tree.leaves t) ∧
      ∃ u p q b, Tree.ofJson (Tree.toJson t) = .ok u ∧
        (compile u ⟨registry, none⟩).result = .ok p ∧ (compile t ⟨registry, none⟩).result = .ok q ∧
        (p.eval context inquiry).result = .ok b ∧ (q.eval context inquiry).result = .ok b := by
  intro holds registry t entities context inquiry
  have ht : Tree.shadowedBuiltin? t = none := by cbv
  have hsure : (registry.valuation entities context).Sure (Tree.leaves t) := by
    intro leaf hleaf
    have hleaves : Tree.leaves t = [.custom "flag" (.bool true), .access (.one "read"),
      .custom "flag" (.bool true), .requester, .clause (.subOf ⟨⟨1⟩⟩), .clause (.subOf ⟨⟨1⟩⟩),
      .resourceId ⟨⟨2⟩⟩] := rfl
    rw [hleaves] at hleaf
    simp only [List.mem_cons, List.not_mem_nil, or_false] at hleaf
    rcases hleaf with rfl | rfl | rfl | rfl | rfl | rfl | rfl <;> exact ⟨true, rfl⟩
  obtain ⟨u, hread, hu⟩ := compile_reread t ht
  obtain ⟨hcompiles, hanswers⟩ := hu registry
  have hq : ∃ q, (compile t ⟨registry, none⟩).result = .ok q := ⟨_, rfl⟩
  obtain ⟨q, hq⟩ := hq
  obtain ⟨p, hp⟩ := hcompiles.2 ⟨q, hq⟩
  obtain ⟨b, hb, hb'⟩ := (hanswers p q hp hq entities context).2 hsure
  exact ⟨ht, hsure, u, p, q, b, hread, hp, hq, hb, hb'⟩

/-! ### Selectors -/

theorem Restrictor.toJson_ne_null (r : Restrictor) : r.toJson ≠ .null := by
  cases r with
  | wildcard => simp [toJson]
  | noOwner => simp [toJson]
  | all clauses =>
    rw [toJson]
    split <;> simp [Json.ofFields]

namespace Selector

/-- The restrictor on the owner. -/
def owner? : Selector → Option Restrictor
  | .wildcard => none
  | .matching _ owner => owner

/-- No custom clause is named like a built-in one. -/
def Unshadowed (s : Selector) : Prop :=
  ∀ owner, s.owner? = some owner → owner.shadowedBuiltin? = none

/-- The arguments of custom clauses are in normal form. -/
def Normal (s : Selector) : Prop :=
  ∀ owner, s.owner? = some owner → CustomKey.Normal owner.customKeys

/-- The same selector but for the order of clauses. -/
inductive Reordered : Selector → Selector → Prop
  | wildcard : Reordered .wildcard .wildcard
  | matching (type : Option String) {owner owner' : Option Restrictor}
      (h : Option.Rel Restrictor.Reordered owner owner') :
      Reordered (.matching type owner) (.matching type owner')

theorem ofFields_owner {value : Json} (hvalue : value ≠ .null) (type : Option String)
    (owner : Option Restrictor) {restrictor : Restrictor} (hread : Restrictor.ofJson value = .ok restrictor)
    (fields : List (String × Json)) :
    ofFields type owner (("resourceOwner", value) :: fields) = ofFields type (some restrictor) fields := by
  rw [ofFields]
  · rw [hread]
  · exact hvalue

/-- **A selector is read back**, with clauses in some order. -/
theorem ofJson_toJson {s : Selector} (h : s.Unshadowed) :
    ∃ s', ofJson s.toJson = .ok s' ∧ Reordered s' s := by
  cases s with
  | wildcard => exact ⟨.wildcard, rfl, .wildcard⟩
  | matching type owner =>
    cases owner with
    | none =>
      refine ⟨.matching type none, ?_, .matching type .none⟩
      cases type <;> rfl
    | some owner =>
      obtain ⟨owner', hread, hreordered⟩ := Restrictor.ofJson_toJson (h owner rfl)
      have hnull : owner.toJson ≠ .null := owner.toJson_ne_null
      refine ⟨.matching type (some owner'), ?_, .matching type (.some hreordered)⟩
      cases type with
      | none =>
        show ofFields none none [("resourceOwner", owner.toJson)] = _
        rw [ofFields_owner hnull none none hread]
        rfl
      | some type =>
        -- The fields stand in the order of their names, so the owner is read before the type.
        have hwritten : (matching (some type) (some owner)).toJson =
            .object [("resourceOwner", owner.toJson), ("resourceType", .string type)] := by
          have hlt : "resourceOwner" < "resourceType" := by decide
          rw [toJson, Json.ofFields]
          exact congrArg Json.object (if_pos hlt)
        rw [hwritten, ofJson, ofFields_owner hnull none none hread]
        rfl

theorem normal_toJson {s : Selector} (h : s.Normal) : s.toJson.Normal := by
  cases s with
  | wildcard => exact Json.normal_string "*"
  | matching type owner =>
    apply Json.normal_ofFields
    rw [List.forall_mem_append]
    constructor
    · cases type with
      | none => simp
      | some type => simpa using Json.normal_string type
    · cases owner with
      | none => simp
      | some owner => simpa using Restrictor.normal_toJson (h owner rfl)

theorem decode_toJson {s : Selector} (h : s.Unshadowed) (hnormal : s.Normal) :
    ∃ s', (Document.ofJson s.toJson).asOption decode = .ok (some s') ∧ Reordered s' s := by
  obtain ⟨s', hread, hreordered⟩ := ofJson_toJson h
  refine ⟨s', ?_, hreordered⟩
  have hdecode : decode (.ofJson s.toJson) = .ok s' := by
    rw [decode, Document.asJson_ofJson (normal_toJson hnormal)]
    simp only [bind, Except.bind, hread]
    rfl
  have hpresent : (Document.ofJson s.toJson).asOption decode = some <$> decode (.ofJson s.toJson) := by
    cases s <;> rfl
  rw [hpresent, hdecode]
  rfl

end Selector

theorem Ownership.accepted_eq (o : Ownership) {r s : Restrictor} (h : Restrictor.Reordered r s) :
    o.accepted r = o.accepted s := by
  cases h with
  | wildcard => rfl
  | noOwner => rfl
  | all hperm =>
    cases o with
    | unowned => rfl
    | owned owner closure => exact hperm.all_eq

theorem Relevance.selects_eq (r : Relevance) {s s' : Selector} (h : Selector.Reordered s s') :
    r.selects s = r.selects s' := by
  cases h with
  | wildcard => rfl
  | matching type howner =>
    rw [selects, selects]
    cases howner with
    | none => rfl
    | some hreordered => rw [Option.all_some, Option.all_some, r.ownership.accepted_eq hreordered]

/-! ### Contents -/

/-- The same reaction to a tree that is alike. -/
structure Content.Alike (c d : Content) : Prop where
  check : Tree.Alike c.check d.check
  reaction : c.reaction = d.reaction

namespace Content

/-- The fields of a content, whose tree is read as this one. -/
def entries (c : Content) (read : Tree) : List (Document.Entry Content) :=
  ⟨"check", c.check.toJson, fun draft => { draft with check := read }⟩ ::
    match c.reaction with
    | some b => [⟨"react", .bool b, fun draft => { draft with reaction := some b }⟩]
    | none => []

theorem readBy_entries {c : Content} (hnormal : CustomKey.Normal (Tree.customKeys c.check))
    {read : Tree} (hread : Tree.ofJson c.check.toJson = .ok read) :
    ∀ entry ∈ c.entries read, entry.ReadBy columns Document.passOver := by
  have hcheck : Document.Entry.ReadBy columns Document.passOver
      ⟨"check", c.check.toJson, fun draft => { draft with check := read }⟩ := by
    intro draft
    show (do return { draft with check := ← Tree.decode (.ofJson c.check.toJson) }) = _
    rw [Tree.decode, Document.asJson_ofJson (Tree.normal_toJson hnormal)]
    simp only [bind, Except.bind, hread]
    rfl
  have hreact : ∀ b, Document.Entry.ReadBy columns Document.passOver
      ⟨"react", .bool b, fun draft => { draft with reaction := some b }⟩ :=
    fun b draft => rfl
  rw [entries]
  cases c.reaction with
  | none => simpa using hcheck
  | some b => simpa using ⟨hcheck, hreact b⟩

/-- **A content is read back**, with a tree that is alike. -/
theorem decode_toJson {c : Content} (h : Tree.shadowedBuiltin? c.check = none)
    (hnormal : CustomKey.Normal (Tree.customKeys c.check)) :
    ∃ c', decode .value (.ofJson c.toJson) = .ok c' ∧ Alike c' c := by
  obtain ⟨read, hread, halike⟩ := Tree.ofJson_toJson h
  refine ⟨⟨read, c.reaction⟩, ?_, halike, rfl⟩
  have hwritten : c.toJson = .ofFields ((c.entries read).map Document.Entry.field) := by
    rw [toJson, entries]
    cases c.reaction <;> rfl
  rw [decode, hwritten, Document.asRecord_ofFields]
  · rw [entries]
    cases c.reaction <;> rfl
  · rw [entries]
    cases c.reaction <;> simp
  · exact readBy_entries hnormal hread
  · rw [entries]
    cases c.reaction <;> simp [Document.Entry.Commute]

theorem normal_toJson {c : Content} (h : CustomKey.Normal (Tree.customKeys c.check)) :
    c.toJson.Normal := by
  apply Json.normal_ofFields
  rw [List.forall_mem_cons]
  refine ⟨Tree.normal_toJson h, ?_⟩
  cases c.reaction with
  | none => simp
  | some b => simpa using Json.normal_bool b

end Content

/-! ### Policies -/

namespace Policy

/-- No custom key and no custom clause is named like a built-in one. -/
structure Unshadowed (p : Policy) : Prop where
  checks : ∀ c ∈ p.contents, Tree.shadowedBuiltin? c.check = none
  selector : ∀ s, p.selector = some s → s.Unshadowed

/-- The arguments of custom keys are in normal form, and the priority fits 32 bits. -/
structure Normal (p : Policy) : Prop where
  checks : ∀ c ∈ p.contents, CustomKey.Normal (Tree.customKeys c.check)
  selector : ∀ s, p.selector = some s → s.Normal
  priority : -0x80000000 ≤ p.priority ∧ p.priority ≤ 0x7FFFFFFF

/-- The policy is what may be read back of another. -/
structure Reread (p' p : Policy) : Prop where
  id : p'.id = p.id
  selector : Option.Rel Selector.Reordered p'.selector p.selector
  contents : ∃ read, p'.contents = distinct read ∧ List.Forall₂ Content.Alike read p.contents
  priority : p'.priority = p.priority

/-- The fields of a policy, whose selector and contents are read as these. -/
def entries (p : Policy) (selector : Option Selector) (contents : List Content) :
    List (Document.Entry Policy) :=
  ⟨"id", .string (toString p.id), fun draft => { draft with id := p.id }⟩ ::
  (match p.selector with
    | some s => [⟨"selector", s.toJson, fun draft => { draft with selector }⟩]
    | none => []) ++
  [⟨"contents", .array (p.contents.map Content.toJson), fun draft => { draft with contents }⟩,
   ⟨"priority", .int p.priority, fun draft => { draft with priority := p.priority }⟩]

theorem readBy_entries {p : Policy} {selector : Option Selector} {read : List Content}
    (hselector : ∀ s, p.selector = some s →
      (Document.ofJson s.toJson).asOption Selector.decode = .ok selector)
    (hcontents : (Document.ofJson (.array (p.contents.map Content.toJson))).asList
      (Content.decode .value) = .ok read)
    (hpriority : -0x80000000 ≤ p.priority ∧ p.priority ≤ 0x7FFFFFFF) :
    ∀ entry ∈ p.entries selector (distinct read), entry.ReadBy (columns .value) Document.passOver := by
  have hid : Document.Entry.ReadBy (columns .value) Document.passOver
      ⟨"id", .string (toString p.id), fun draft => { draft with id := p.id }⟩ := by
    intro draft
    show (do return { draft with id := ← (Document.ofJson _).asId .policy }) = _
    rw [Document.asId_ofJson]
    rfl
  have hsome : ∀ s, p.selector = some s → Document.Entry.ReadBy (columns .value) Document.passOver
      ⟨"selector", s.toJson, fun draft => { draft with selector }⟩ := by
    intro s hs draft
    show (do return { draft with
      selector := ← (Document.ofJson s.toJson).asOption Selector.decode }) = _
    rw [hselector s hs]
    rfl
  have harray : Document.Entry.ReadBy (columns .value) Document.passOver
      ⟨"contents", .array (p.contents.map Content.toJson),
        fun draft => { draft with contents := distinct read }⟩ := by
    intro draft
    show (do return { draft with
      contents := distinct (← (Document.ofJson _).asList (Content.decode .value)) }) = _
    rw [hcontents]
    rfl
  have hint : Document.Entry.ReadBy (columns .value) Document.passOver
      ⟨"priority", .int p.priority, fun draft => { draft with priority := p.priority }⟩ := by
    intro draft
    show (do return { draft with priority := ← (Document.number (.int p.priority)).asInt32 }) = _
    rw [Document.asInt32, Document.asInt, if_pos hpriority]
    rfl
  rw [entries]
  cases hs : p.selector with
  | none => simpa using ⟨hid, harray, hint⟩
  | some s => simpa using ⟨hid, hsome s hs, harray, hint⟩

/-- **A policy is read back** up to the order of clauses and conditions, without the later ones of
contents that are equal then. -/
theorem decode_toJson {p : Policy} (h : p.Unshadowed) (hnormal : p.Normal) (fresh : PolicyId) :
    ∃ p', decode fresh .value (.ofJson p.toJson) = .ok p' ∧ Reread p' p := by
  obtain ⟨selector, hselector, hreordered⟩ : ∃ selector,
      (∀ s, p.selector = some s →
        (Document.ofJson s.toJson).asOption Selector.decode = .ok selector) ∧
      Option.Rel Selector.Reordered selector p.selector := by
    cases hs : p.selector with
    | none => exact ⟨none, by simp, .none⟩
    | some s =>
      obtain ⟨s', hread, hreordered⟩ :=
        Selector.decode_toJson (h.selector s hs) (hnormal.selector s hs)
      exact ⟨some s', by simpa using hread, .some hreordered⟩
  obtain ⟨read, hcontents, halike⟩ := Document.asList_ofJson Content.toJson Content.Alike
    fun c hc => Content.decode_toJson (h.checks c hc) (hnormal.checks c hc)
  have hwritten : p.toJson =
      .ofFields ((p.entries selector (distinct read)).map Document.Entry.field) := by
    rw [toJson, entries]
    cases p.selector <;> rfl
  refine ⟨⟨p.id, selector, distinct read, p.priority⟩, ?_, rfl, hreordered, ⟨read, rfl, halike⟩, rfl⟩
  rw [decode, hwritten, Document.asRecord_ofFields]
  · rw [entries]
    cases hs : p.selector with
    | some s => rfl
    | none =>
      -- A selector that is missing is not written, and none is read.
      rw [hs] at hreordered
      cases hreordered
      rfl
  · rw [entries]
    cases p.selector <;> simp
  · exact readBy_entries hselector hcontents hnormal.priority
  · rw [entries]
    cases p.selector <;> simp [Document.Entry.Commute]

theorem normal_toJson {p : Policy} (h : p.Normal) : p.toJson.Normal := by
  apply Json.normal_ofFields
  rw [List.cons_append, List.forall_mem_cons, List.forall_mem_append]
  refine ⟨Json.normal_string _, ?_, ?_⟩
  · cases hs : p.selector with
    | none => simp
    | some s => simpa using Selector.normal_toJson (h.selector s hs)
  · simp only [List.forall_mem_cons, List.not_mem_nil, false_implies, implies_true, and_true]
    refine ⟨Json.normal_array fun item hitem => ?_, Json.normal_int _⟩
    obtain ⟨c, hc, rfl⟩ := List.mem_map.1 hitem
    exact Content.normal_toJson (h.checks c hc)

/-- **What is read back of a policy is found for the same resources.** -/
theorem Reread.accepts_eq {p' p : Policy} (h : Reread p' p) (r : Relevance) :
    r.accepts p' = r.accepts p := by
  obtain ⟨hid, hselector, -, -⟩ := h
  rw [Relevance.accepts, Relevance.accepts, hid]
  generalize p'.selector = selector at hselector
  generalize p.selector = selector' at hselector
  cases hselector with
  | none => rfl
  | some hreordered => rw [Option.any_some, Option.any_some, r.selects_eq hreordered]

end Policy

/-! ### Snapshots -/

namespace Snapshot

/-- Policies are read back one by one, wherever they stand. -/
theorem decodePolicies_toJson {policies : List Policy} (h : ∀ p ∈ policies, p.Unshadowed)
    (hnormal : ∀ p ∈ policies, p.Normal) (fresh : Nat → PolicyId) :
    ∃ read, decodePolicies fresh .value (.ofJson (.array (policies.map Policy.toJson))) = .ok read ∧
      List.Forall₂ Policy.Reread read policies := by
  let decodeAt (item : Document × Nat) : Decoded Policy := Policy.decode (fresh item.2) .value item.1
  -- The position matters to policies without an identifier only, and these have one.
  have hitems : ∀ start, ∃ read,
      ((Document.ofItems (policies.map Policy.toJson)).zipIdx start).mapM decodeAt = .ok read ∧
      List.Forall₂ Policy.Reread read policies := by
    induction policies with
    | nil => exact fun _ => ⟨[], rfl, .nil⟩
    | cons p policies ih =>
      intro start
      obtain ⟨hp, hpolicies⟩ := List.forall_mem_cons.1 h
      obtain ⟨hpnormal, hnormal⟩ := List.forall_mem_cons.1 hnormal
      obtain ⟨p', hread, hreread⟩ := Policy.decode_toJson hp hpnormal (fresh start)
      obtain ⟨read, hreads, hrereads⟩ := ih hpolicies hnormal (start + 1)
      refine ⟨p' :: read, ?_, .cons hreread hrereads⟩
      rw [List.map_cons, Document.ofItems, List.zipIdx_cons, List.mapM_cons]
      simp only [decodeAt, hread, hreads]
      rfl
  obtain ⟨read, hreads, hrereads⟩ := hitems 0
  refine ⟨read, ?_, hrereads⟩
  show (do
    let read ← ((Document.ofItems (policies.map Policy.toJson)).zipIdx 0).mapM decodeAt
    if true then .ok read else .error .malformed) = _
  rw [hreads]
  rfl

/-- No attribute is named like a field, and no custom key or clause like a built-in one. -/
structure Unshadowed (s : Snapshot) : Prop where
  entities : ∀ e ∈ s.entities, e.Plain
  resources : ∀ r ∈ s.resources, r.Plain
  policies : ∀ p ∈ s.policies, p.Unshadowed

/-- The values inside are in normal form, and the priorities fit 32 bits. -/
structure Normal (s : Snapshot) : Prop where
  entities : ∀ e ∈ s.entities, e.attributes.Normal
  resources : ∀ r ∈ s.resources, r.attributes.Normal
  policies : ∀ p ∈ s.policies, p.Normal

variable {s : Snapshot}

theorem normal_toJson (h : s.Normal) : s.toJson.Normal := by
  apply Json.normal_ofFields
  simp only [List.forall_mem_cons, List.not_mem_nil, false_implies, implies_true, and_true]
  refine ⟨Json.normal_array ?_, Json.normal_array ?_, Json.normal_array ?_⟩
  · intro item hitem
    obtain ⟨e, he, rfl⟩ := List.mem_map.1 hitem
    exact Entity.normal_toJson (h.entities e he)
  · intro item hitem
    obtain ⟨r, hr, rfl⟩ := List.mem_map.1 hitem
    exact Resource.normal_toJson (h.resources r hr)
  · intro item hitem
    obtain ⟨p, hp, rfl⟩ := List.mem_map.1 hitem
    exact Policy.normal_toJson (h.policies p hp)

/-- The fields of a snapshot, whose policies are read as these. -/
def entries (s : Snapshot) (read : List Policy) : List (Document.Entry Snapshot) :=
  [⟨"entities", .array (s.entities.map Entity.toJson),
    fun draft => { draft with entities := s.entities }⟩,
   ⟨"resources", .array (s.resources.map Resource.toJson),
    fun draft => { draft with resources := s.resources }⟩,
   ⟨"policies", .array (s.policies.map Policy.toJson), fun draft => { draft with policies := read }⟩]

/-- **A snapshot is read back** with the entities and resources that it had, and with what may be read
back of its policies. -/
theorem decode_toJson (h : s.Unshadowed) (hnormal : s.Normal) (fresh : Nat → PolicyId) :
    ∃ read, s.toJson.decode (decode fresh) = .ok { s with policies := read } ∧
      List.Forall₂ Policy.Reread read s.policies := by
  obtain ⟨entities, hentities, hsame⟩ := Document.asList_ofJson Entity.toJson Eq
    fun e he => ⟨e, Entity.decode_toJson (h.entities e he) (hnormal.entities e he), rfl⟩
  obtain ⟨resources, hresources, hsame'⟩ := Document.asList_ofJson Resource.toJson Eq
    fun r hr => ⟨r, Resource.decode_toJson (h.resources r hr) (hnormal.resources r hr), rfl⟩
  rw [List.forall₂_eq_eq_eq] at hsame hsame'
  rw [hsame] at hentities
  rw [hsame'] at hresources
  obtain ⟨read, hpolicies, hreread⟩ := decodePolicies_toJson h.policies hnormal.policies fresh
  refine ⟨read, ?_, hreread⟩
  have hwritten : s.toJson = .ofFields ((s.entries read).map Document.Entry.field) := rfl
  have hread : ∀ entry ∈ s.entries read,
      entry.ReadBy (columns fresh .value) Document.passOver := by
    simp only [entries, List.forall_mem_cons, List.not_mem_nil, false_implies, implies_true, and_true]
    refine ⟨fun draft => ?_, fun draft => ?_, fun draft => ?_⟩
    · show (do return { draft with entities := ← (Document.ofJson _).asList Entity.decode }) = _
      rw [hentities]
      rfl
    · show (do return { draft with resources := ← (Document.ofJson _).asList Resource.decode }) = _
      rw [hresources]
      rfl
    · show (do return { draft with policies := ← decodePolicies fresh .value (.ofJson _) }) = _
      rw [hpolicies]
      rfl
  rw [Json.decode, Json.normalize_of_normal _ (normal_toJson hnormal), decode, hwritten,
    Document.asRecord_ofFields]
  · rfl
  · simp [entries]
  · exact hread
  · simp [entries, Document.Entry.Commute]

end Snapshot
end PolicyDecision
