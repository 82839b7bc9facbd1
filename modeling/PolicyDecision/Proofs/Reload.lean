import PolicyDecision.Proofs.Equality
import PolicyDecision.Proofs.Lockstep
import PolicyDecision.Proofs.Rereading

/-!
# Stores that were dumped and loaded again

A store that is loaded from what was written of another has the same entities and resources, and of each
policy what may be read back of it (`Policy.Reread`): conditions may stand in another order, and of
contents that have become equal one is left. This makes no difference to the reaction of a policy where
no leaf fails (`Policy.Reread.outcome_agrees`), and neither to a verdict, if the compounder looks at the
policies only to count them (`Compounder.Blind`). So a store decides after it was loaded as it did before
(`Store.reload_faithful`).

A policy that fails may fail with another error after it was loaded, for its conditions are tried in another
order. What a factory fails with is not restricted, so this may make the difference between no decision and
another failure (`Store.reload_faithful_undecided`).
-/

namespace PolicyDecision

/-! ### Reactions -/

section Reaction

variable {registry : Registry} {entities : Table Entity} {context : Context} {p p' : Policy}

/-- Whether some content has a property that like ones and equal ones share. -/
theorem Policy.Reread.exists_iff (h : Reread p' p) {P : Content → Prop}
    (halike : ∀ c d, Content.Alike c d → (P c ↔ P d))
    (hequal : ∀ c d : Content, (c == d) = true → (P c ↔ P d)) :
    (∃ c ∈ p'.contents, P c) ↔ ∃ c ∈ p.contents, P c := by
  obtain ⟨read, hcontents, hread⟩ := h.contents
  rw [hcontents, exists_distinct_iff hequal]
  clear hcontents
  generalize p.contents = contents at hread
  induction hread with
  | nil => simp
  | cons hfirst _ ih => rw [List.exists_mem_cons_iff, List.exists_mem_cons_iff, halike _ _ hfirst, ih]

theorem Registry.faultless_contents_iff (contents : List Content) :
    registry.Faultless (Content.customKeys contents) ↔
      ¬∃ c ∈ contents, ¬registry.Faultless (Tree.customKeys c.check) := by
  rw [Content.customKeys, Faultless, List.forall_mem_flatMap]
  simp [Faultless]

variable (hrespect : registry.Respectful)
include hrespect

theorem Policy.Reread.faultless_iff (h : Reread p' p) :
    registry.Faultless (Content.customKeys p'.contents) ↔
      registry.Faultless (Content.customKeys p.contents) := by
  rw [registry.faultless_contents_iff, registry.faultless_contents_iff]
  refine not_congr (h.exists_iff (fun c d halike => not_congr ?_) fun c d hequal => not_congr ?_)
  · simp only [Registry.Faultless, halike.check.customKeys.mem_iff]
  · -- What the leaves answer does not matter for the keys.
    have hnone : Valuation.Respectful fun _ => none := ⟨fun _ _ _ _ => rfl, fun _ _ _ _ => rfl⟩
    exact hrespect.faultless_iff (Content.means_of_beq hnone hequal).1.keys

theorem Policy.Reread.verdict_eq (h : Reread p' p) :
    Content.verdict (registry.valuation entities context) false p'.contents =
      Content.verdict (registry.valuation entities context) false p.contents := by
  apply Content.verdict_congr
  intro reaction
  apply h.exists_iff
  · intro c d halike
    rw [Content.Says, Content.Says, halike.check.truth, halike.reaction]
  · intro c d hequal
    obtain ⟨hmeans, hreaction⟩ := Content.means_of_beq (hrespect.valuation entities context) hequal
    rw [Content.Says, Content.Says, hmeans.truth, hreaction]

/-- **What is read back of a policy reacts as the policy does**, or both have a fault. -/
theorem Policy.Reread.outcome_agrees (h : Reread p' p) :
    Agrees registry.Refuses (p'.outcome registry entities context)
      (p.outcome registry entities context) := by
  have hfaultless := h.faultless_iff hrespect
  rw [Policy.outcome, Policy.outcome]
  cases hfirst : (Content.customKeys p'.contents).findSome? registry.fault? with
  | none =>
    have hnone := List.findSome?_eq_none_iff.2 (hfaultless.1 (List.findSome?_eq_none_iff.1 hfirst))
    rw [hnone, h.verdict_eq hrespect]
    exact .same _
  | some e =>
    cases hsecond : (Content.customKeys p.contents).findSome? registry.fault? with
    | none =>
      have hnone := List.findSome?_eq_none_iff.2 (hfaultless.2 (List.findSome?_eq_none_iff.1 hsecond))
      rw [hnone] at hfirst
      cases hfirst
    | some e' =>
      obtain ⟨key, -, hkey⟩ := List.exists_of_findSome?_eq_some hfirst
      obtain ⟨key', -, hkey'⟩ := List.exists_of_findSome?_eq_some hsecond
      exact .failed (.inr ⟨key, hkey⟩) (.inr ⟨key', hkey'⟩)

end Reaction

/-! ### Decisions -/

/-- The compounder looks at the policies only to count them. -/
def Compounder.Blind (compounder : Compounder) : Prop :=
  ∀ policies policies' reactions index current, policies'.length = policies.length →
    compounder.compound ⟨policies', reactions, index, current⟩ =
      compounder.compound ⟨policies, reactions, index, current⟩

theorem CompounderKind.blind (kind : CompounderKind) : kind.compounder.Blind := by
  intro policies policies' reactions index current hlength
  cases kind with
  | firstApplicable => rfl
  | denyOverrides =>
    have hfinal : Consultation.isFinal ⟨policies', reactions, index, current⟩ =
        Consultation.isFinal ⟨policies, reactions, index, current⟩ := by
      rw [Consultation.isFinal, Consultation.isFinal, hlength]
    simp only [compounder, Compounder.denyOverrides, hfinal]
    rfl

/-- **Decisions on reactions that agree, agree**, if the compounder looks at the policies only to count
them. -/
theorem Compounder.settleFrom_agrees {compounder : Compounder} (hblind : compounder.Blind)
    {react react' : Policy → Except Error Reaction} {Q : Error → Prop}
    {candidates candidates' : List Policy} (hlength : candidates'.length = candidates.length)
    {rest rest' : List Policy}
    (h : List.Forall₂ (fun p' p => Agrees Q (react' p') (react p)) rest' rest)
    (reactions : List Reaction) :
    Agrees Q (compounder.settleFrom react' candidates' reactions rest')
      (compounder.settleFrom react candidates reactions rest) := by
  induction h generalizing reactions with
  | nil =>
    rw [settleFrom, settleFrom, hlength, hblind candidates candidates' _ _ _ hlength]
    exact .same _
  | @cons p' p rest' rest hreact _ ih =>
    unfold settleFrom
    generalize react' p' = reaction' at hreact
    generalize react p = reaction at hreact
    -- Either both stop here with an error, or both go on with the same reaction.
    cases hreact with
    | failed he he' => exact .failed he he'
    | same =>
      cases reaction' with
      | error e => exact .same _
      | ok reaction =>
        simp only [bind, Except.bind, hblind candidates candidates' _ _ _ hlength]
        split
        · cases compounder.compound ⟨candidates, reactions ++ [reaction], reactions.length, reaction⟩ with
          | error e => exact .same _
          | ok step =>
            cases step with
            | conclude verdict => exact .same _
            | proceed => exact ih _
        · exact ih _

/-! ### Candidates -/

section Candidates

variable {α β : Type} {R : α → β → Prop} {as : List α} {bs : List β}

/-- Two lists that are related one by one are the two sides of a list of related pairs. -/
theorem forall₂_iff_exists_pairs :
    List.Forall₂ R as bs ↔ ∃ pairs : List (α × β), as = pairs.map Prod.fst ∧ bs = pairs.map Prod.snd ∧
      ∀ pair ∈ pairs, R pair.1 pair.2 := by
  constructor
  · intro h
    induction h with
    | nil => exact ⟨[], rfl, rfl, by simp⟩
    | @cons a b as bs hab _ ih =>
      obtain ⟨pairs, rfl, rfl, hpairs⟩ := ih
      exact ⟨(a, b) :: pairs, rfl, rfl, List.forall_mem_cons.2 ⟨hab, hpairs⟩⟩
  · rintro ⟨pairs, rfl, rfl, hpairs⟩
    rw [List.forall₂_map_left_iff, List.forall₂_map_right_iff]
    exact List.forall₂_same.2 hpairs

/-- What is related one by one is still so when both lists are sorted by the same measure. -/
theorem forall₂_mergeSort {le : α → α → Bool} {le' : β → β → Bool} (h : List.Forall₂ R as bs)
    (hle : ∀ a b a' b', R a b → R a' b' → le a a' = le' b b') :
    List.Forall₂ R (as.mergeSort le) (bs.mergeSort le') := by
  obtain ⟨pairs, rfl, rfl, hpairs⟩ := forall₂_iff_exists_pairs.1 h
  refine forall₂_iff_exists_pairs.2 ⟨pairs.mergeSort fun x y => le x.1 y.1, ?_, ?_, ?_⟩
  · refine (List.map_mergeSort fun x hx y hy => ?_).symm
    rfl
  · refine (List.map_mergeSort fun x hx y hy => ?_).symm
    exact hle x.1 x.2 y.1 y.2 (hpairs x hx) (hpairs y hy)
  · intro pair hpair
    exact hpairs pair (List.mem_mergeSort.1 hpair)

end Candidates

section Reread

variable {policies policies' : List Policy} (h : List.Forall₂ Policy.Reread policies' policies)
include h

/-- What is read back of policies is sorted as the policies are, for no priority changes. -/
theorem Policy.byPriority_reread : List.Forall₂ Reread (byPriority policies') (byPriority policies) := by
  apply forall₂_mergeSort h
  intro p' p q' q hp hq
  rw [hp.priority, hq.priority]

/-- What is read back of policies is found as the policies are. -/
theorem Relevance.candidates_reread (r : Relevance) :
    List.Forall₂ Policy.Reread (r.candidates policies') (r.candidates policies) := by
  apply Policy.byPriority_reread
  refine List.rel_filter ?_ h
  intro p' p hreread
  show r.accepts p' = true ↔ r.accepts p = true
  rw [hreread.accepts_eq r]

end Reread

/-! ### Documents -/

/-- **What the documents say** is the same when policies are replaced by what may be read back of
them. -/
theorem Documents.decide_agrees {docs docs' : Documents} (hentities : docs'.entities = docs.entities)
    (hresources : docs'.resources = docs.resources) (hregistry : docs'.registry = docs.registry)
    (hpolicies : List.Forall₂ Policy.Reread docs'.policies.docs docs.policies.docs)
    (hrespect : docs.registry.Respectful) (request : Request) {compounder : Compounder}
    (hblind : compounder.Blind) :
    Agrees docs.registry.Refuses (docs'.decide request compounder) (docs.decide request compounder) := by
  have hresource : docs'.resource request.resource = docs.resource request.resource := by
    cases request.resource with
    | given resource => rfl
    | byId id => rw [resource, resource, hresources]
  rw [decide, decide, hresource]
  cases docs.resource request.resource with
  | error e => exact .same _
  | ok resource =>
    have hrelevance : docs'.relevance resource = docs.relevance resource := by
      rw [relevance, relevance, hentities]
    simp only [bind, Except.bind, candidates, hrelevance, hentities, hregistry]
    cases docs.relevance resource with
    | error e => exact .same _
    | ok relevance =>
      have hcandidates := Policy.byPriority_reread (relevance.candidates_reread hpolicies)
      exact Compounder.settleFrom_agrees hblind hcandidates.length_eq
        (hcandidates.imp fun p' p h => h.outcome_agrees hrespect) []

/-! ### Stores -/

namespace Table

variable {α : Type} {kind : Kind} [Identified α kind]

/-- Documents of distinct identifiers are all kept, in order. -/
theorem docs_ofList {docs : List α} (h : docs.Pairwise fun a b => idOf a ≠ idOf b) :
    (ofList docs : Table α).docs = docs := by
  suffices hfold : ∀ t : Table α, (t.docs ++ docs).Pairwise (fun a b => idOf a ≠ idOf b) →
      (docs.foldl upsert t).docs = t.docs ++ docs from hfold empty h
  clear h
  induction docs with
  | nil => exact fun t _ => (List.append_nil _).symm
  | cons doc docs ih =>
    intro t h
    have hnew : ∀ a ∈ t.docs, idOf a ≠ idOf doc :=
      fun a ha => (List.pairwise_append.1 h).2.2 a ha doc List.mem_cons_self
    have hput : (t.upsert doc).docs = t.docs ++ [doc] := put_of_new hnew
    rw [List.foldl_cons, ih, hput, List.append_assoc, List.singleton_append]
    rwa [hput, List.append_assoc, List.singleton_append]

theorem ofList_docs (t : Table α) : ofList t.docs = t := by
  have hdocs : (ofList t.docs : Table α).docs = t.docs := docs_ofList t.distinct
  generalize ofList t.docs = loaded at hdocs
  cases loaded
  cases t
  cases hdocs
  rfl

end Table

namespace Store

/-- **A store decides after it was dumped and loaded as it did before.** Let no attribute of an entity or
resource be named like one of its fields, and no custom key or clause of a policy like a built-in one.
Then what is written of the store can be read. The store that is loaded from it has the same entities and
resources, and in the same order policies of the same identifiers and priorities, which are found for the
same resources.

Let further no leaf fail, and the operators respect equality. Then over both stores, whatever is
remembered, a request comes to the same result, or fails, with either store with a name that is not
registered or with an error that a factory has for some value. So it comes to the same verdict, or to no
decision with both, or fails otherwise with both, if no factory refuses a value by claiming that there is
no decision.

That values are in normal form and priorities fit 32 bits is no restriction, for nothing else is ever
stored. -/
theorem reload_faithful {store : Store} (h : store.snapshot.Unshadowed)
    (hnormal : store.snapshot.Normal) (fresh : Nat → PolicyId) :
    ∃ snapshot, store.snapshot.toJson.decode (Snapshot.decode fresh) = .ok snapshot ∧
      let loaded := ofSnapshot snapshot
      (loaded.entities = store.entities ∧ loaded.resources = store.resources) ∧
      List.Forall₂ (fun p' p => p'.id = p.id ∧ p'.priority = p.priority ∧
        ∀ r : Relevance, r.accepts p' = r.accepts p) loaded.policies.docs store.policies.docs ∧
      ∀ registry : Registry, registry.Lawful → registry.Respectful →
        ∀ (config config' : Config) (request : Request) (kind : CompounderKind),
          Fair registry store.entities request.requester →
          let result' := (Engine.check request kind.compounder (Engine.new loaded config registry)).result
          let result := (Engine.check request kind.compounder (Engine.new store config' registry)).result
          Agrees registry.Refuses result' result ∧
            (¬registry.Refuses .noDecision → Engine.Concur result' result) := by
  obtain ⟨policies, hdecode, hreread⟩ := Snapshot.decode_toJson h hnormal fresh
  refine ⟨_, hdecode, ?_⟩
  intro loaded
  have hentities : loaded.entities = store.entities := Table.ofList_docs store.entities
  have hresources : loaded.resources = store.resources := Table.ofList_docs store.resources
  have hpolicies : List.Forall₂ Policy.Reread loaded.policies.docs store.policies.docs := by
    -- No two policies have the same identifier, so none replaces another when they are loaded.
    have hids : policies.map idOf = store.policies.docs.map idOf := by
      rw [← List.forall₂_eq_eq_eq, List.forall₂_map_left_iff, List.forall₂_map_right_iff]
      exact hreread.imp fun p' p hp => hp.id
    have hdistinct : policies.Pairwise fun a b => idOf a ≠ idOf b := by
      rw [← List.pairwise_map (f := idOf) (R := (· ≠ ·)), hids, List.pairwise_map]
      exact store.policies.distinct
    rw [show loaded.policies.docs = policies from Table.docs_ofList hdistinct]
    exact hreread
  refine ⟨⟨hentities, hresources⟩, hpolicies.imp fun p' p hp =>
    ⟨hp.id, hp.priority, hp.accepts_eq⟩, ?_⟩
  intro registry hlawful hrespect config config' request kind hfair result' result
  have hfair' : Fair registry loaded.entities request.requester := by
    rwa [hentities]
  let docs : Documents := ⟨store, registry⟩
  let docs' : Documents := ⟨loaded, registry⟩
  have hregistry : docs'.registry = docs.registry := rfl
  have hdecide : Agrees registry.Refuses (docs'.decide request kind.compounder)
      (docs.decide request kind.compounder) :=
    Documents.decide_agrees hentities hresources hregistry hpolicies hrespect request kind.blind
  -- Each engine decides what its documents say, and remembers nothing that would say otherwise.
  have hloaded := (Engine.ensures_check hlawful request kind.compounder).result _
    (Engine.current_new loaded config registry) hfair'
  have hstore := (Engine.ensures_check hlawful request kind.compounder).result _
    (Engine.current_new store config' registry) hfair
  have hagrees : Agrees registry.Refuses result' result := (hloaded.trans hdecide).trans hstore.symm
  exact ⟨hagrees, Engine.concur_of_agrees hagrees⟩

/-- Two contents that differ only in the order of their conditions, and so are equal once they are read
back. -/
theorem reload_faithful_merged :
    let holds : Factory Context := fun _ => .ok fun _ => .ok true
    let registry : Registry := { contextOps := ⟨Condition.builtins, [("calm", holds)]⟩ }
    let policy : Policy :=
      { id := ⟨⟨4⟩⟩, selector := some (.matching none (some (.all [.subOf ⟨⟨2⟩⟩, .id ⟨⟨1⟩⟩]))),
        contents := [⟨[.access (.one "read"), .custom "calm" .null], some true⟩,
          ⟨[.custom "calm" .null, .access (.one "read")], some true⟩] }
    let group : Entity := { id := ⟨⟨2⟩⟩ }
    let owner : Entity :=
      { id := ⟨⟨1⟩⟩, parents := .ofList [⟨⟨2⟩⟩], attributes := .ofList [("level", .bool true)] }
    let resource : Resource := { id := ⟨⟨3⟩⟩, owner := some ⟨⟨1⟩⟩ }
    let store : Store :=
      { entities := .ofList [group, owner], resources := .ofList [resource],
        policies := .ofList [policy] }
    let request : Request := ⟨⟨⟨1⟩⟩, .one "read", .byId ⟨⟨3⟩⟩⟩
    (store.snapshot.Unshadowed ∧ store.snapshot.Normal ∧ registry.Lawful ∧ registry.Respectful ∧
      Fair registry store.entities request.requester ∧ ¬registry.Refuses .noDecision) ∧
    ∃ snapshot, store.snapshot.toJson.decode (Snapshot.decode fun _ => ⟨⟨9⟩⟩) = .ok snapshot ∧
      Engine.Concur
        (Engine.check request .denyOverrides (Engine.new (ofSnapshot snapshot) {} registry)).result
        (Engine.check request .denyOverrides (Engine.new store {} registry)).result := by
  intro holds registry policy group owner resource store request
  have hunshadowed : store.snapshot.Unshadowed := by
    refine ⟨?_, ?_, ?_⟩
    · intro e he
      have he : e ∈ [group, owner] := he
      simp only [List.mem_cons, List.not_mem_nil, or_false] at he
      rcases he with rfl | rfl <;> simp only [Entity.Plain, Entity.columns, List.forall_mem_cons] <;>
        exact ⟨rfl, rfl, by simp⟩
    · intro r hr
      rw [List.mem_singleton.1 (show r ∈ [resource] from hr)]
      simp only [Resource.Plain, Resource.columns, List.forall_mem_cons]
      exact ⟨rfl, rfl, rfl, rfl, by simp⟩
    · intro p hp
      rw [List.mem_singleton.1 (show p ∈ [policy] from hp)]
      constructor
      · intro c hc
        simp only [policy, List.mem_cons, List.not_mem_nil, or_false] at hc
        rcases hc with rfl | rfl <;> cbv
      · rintro s ⟨⟩ r ⟨⟩
        cbv
  have hnormal : store.snapshot.Normal := by
    refine ⟨?_, ?_, ?_⟩
    · intro e he
      have he : e ∈ [group, owner] := he
      simp only [List.mem_cons, List.not_mem_nil, or_false] at he
      rcases he with rfl | rfl
      · exact List.forall_mem_nil _
      · exact List.forall_mem_singleton.2 (Json.normal_bool true)
    · intro r hr
      rw [List.mem_singleton.1 (show r ∈ [resource] from hr)]
      exact List.forall_mem_nil _
    · intro p hp
      rw [List.mem_singleton.1 (show p ∈ [policy] from hp)]
      refine ⟨?_, ?_, by decide⟩
      · have hkey : CustomKey.Normal [.condition "calm" .null] :=
          List.forall_mem_singleton.2 (by simp [CustomKey.arg, Json.Normal])
        intro c hc
        simp only [policy, List.mem_cons, List.not_mem_nil, or_false] at hc
        rcases hc with rfl | rfl <;> exact hkey
      · rintro s ⟨⟩ r ⟨⟩
        exact List.forall_mem_nil _
  have honly : ∀ name factory, registry.contextOps.find? name = some factory → factory = holds :=
    Operators.forall_of_entries (List.forall_mem_singleton.2 rfl)
  have hlawful : registry.Lawful := by
    refine ⟨rfl, rfl, Registry.lawful_empty.entityOps, Operators.lawful_of_entries ?_⟩
    simp [registry, Condition.builtins]
  have hrespect : registry.Respectful := by
    constructor
    · intro name factory hfind
      cases hfind
    · intro name factory hfind arg arg' _
      rw [honly name factory hfind]
  have hfair : Fair registry store.entities request.requester := by
    refine ⟨Table.stored_of_parent (by decide), ⟨owner, rfl⟩, ?_, ?_⟩
    · intro name factory arg test hfind
      cases hfind
    · intro name factory arg test hfind hmade subject
      rw [honly name factory hfind] at hmade
      cases hmade
      exact ⟨true, rfl⟩
  have hdecided : ¬registry.Refuses .noDecision := by
    apply Engine.not_refuses_noDecision
    constructor
    · intro name factory hfind
      cases hfind
    · intro name factory hfind arg
      rw [honly name factory hfind]
      exact ⟨by simp [holds], by rintro test ⟨⟩ subject; simp⟩
  refine ⟨⟨hunshadowed, hnormal, hlawful, hrespect, hfair, hdecided⟩, ?_⟩
  obtain ⟨snapshot, hdecode, -, -, hconcur⟩ := reload_faithful hunshadowed hnormal fun _ => ⟨⟨9⟩⟩
  have hboth := hconcur registry hlawful hrespect {} {} request .denyOverrides hfair
  exact ⟨snapshot, hdecode, hboth.2 hdecided⟩

/-- The last assumption is needed. Conditions are read back in the order of their keys, so another factory
is run first, and only one of the two claims that there is no decision. -/
theorem reload_faithful_undecided :
    let silent : Factory Context := fun _ => .error .noDecision
    let audit : Factory Context := fun _ => .error .io
    let registry : Registry :=
      { contextOps := ⟨Condition.builtins, [("silent", silent), ("audit", audit)]⟩ }
    let policy : Policy :=
      { id := ⟨⟨2⟩⟩, selector := some .wildcard,
        contents := [⟨[.custom "silent" .null, .custom "audit" .null], some true⟩] }
    let reread : Policy :=
      { policy with contents := [⟨[.custom "audit" .null, .custom "silent" .null], some true⟩] }
    let requester : Entity := { id := ⟨⟨1⟩⟩ }
    let store : Store := { entities := .ofList [requester], policies := .ofList [policy] }
    let snapshot : Snapshot := { entities := [requester], policies := [reread] }
    let request : Request := ⟨⟨⟨1⟩⟩, .one "read", .given { id := ⟨⟨3⟩⟩ }⟩
    let engine := Engine.new store {} registry
    let engine' := Engine.new (ofSnapshot snapshot) {} registry
    (store.snapshot.Unshadowed ∧ store.snapshot.Normal ∧ registry.Lawful ∧ registry.Respectful ∧
      Fair registry store.entities request.requester) ∧
    store.snapshot.toJson.decode (Snapshot.decode fun _ => ⟨⟨9⟩⟩) = .ok snapshot ∧
    (Engine.check request .denyOverrides engine').result = .error .io ∧
    (Engine.check request .denyOverrides engine).result = .error .noDecision ∧
    ¬Engine.Concur (Engine.check request .denyOverrides engine').result
      (Engine.check request .denyOverrides engine).result := by
  intro silent audit registry policy reread requester store snapshot request engine engine'
  have hunshadowed : store.snapshot.Unshadowed := by
    refine ⟨List.forall_mem_singleton.2 fun column _ => rfl, List.forall_mem_nil _,
      List.forall_mem_singleton.2 ⟨List.forall_mem_singleton.2 rfl, ?_⟩⟩
    rintro s ⟨⟩ r ⟨⟩
  have hnormal : store.snapshot.Normal := by
    refine ⟨List.forall_mem_singleton.2 (List.forall_mem_nil _), List.forall_mem_nil _,
      List.forall_mem_singleton.2 ⟨List.forall_mem_singleton.2 ?_, ?_, by decide⟩⟩
    · show CustomKey.Normal [.condition "silent" .null, .condition "audit" .null]
      simp [CustomKey.Normal, CustomKey.arg, Json.Normal]
    · rintro s ⟨⟩ r ⟨⟩
  have hrefuses : ∀ name factory, registry.contextOps.find? name = some factory →
      ∃ e, factory = fun _ => .error e :=
    Operators.forall_of_entries
      (List.forall_mem_cons.2 ⟨⟨.noDecision, rfl⟩, List.forall_mem_singleton.2 ⟨.io, rfl⟩⟩)
  have hlawful : registry.Lawful := by
    refine ⟨rfl, rfl, Registry.lawful_empty.entityOps, Operators.lawful_of_entries ?_⟩
    simp [registry, Condition.builtins]
  have hrespect : registry.Respectful := by
    constructor
    · intro name factory hfind
      cases hfind
    · intro name factory hfind arg arg' _
      obtain ⟨e, rfl⟩ := hrefuses name factory hfind
      rfl
  have hfair : Fair registry store.entities request.requester := by
    refine ⟨Table.stored_of_parent (by decide), ⟨requester, rfl⟩, ?_, ?_⟩
    · intro name factory arg test hfind
      cases hfind
    · intro name factory arg test hfind hmade
      obtain ⟨e, rfl⟩ := hrefuses name factory hfind
      cases hmade
  have hdecode : store.snapshot.toJson.decode (Snapshot.decode fun _ => ⟨⟨9⟩⟩) = .ok snapshot := by
    dsimp only [store, snapshot, policy, reread, requester]
    rfl
  have hfinds : engine.Finds request { id := ⟨⟨3⟩⟩ } [policy] := by
    refine ⟨rfl, ?_⟩
    show Except.ok (Policy.byPriority (Policy.byPriority [policy])) = _
    simp only [Policy.byPriority_singleton]
  have hfinds' : engine'.Finds request { id := ⟨⟨3⟩⟩ } [reread] := by
    refine ⟨rfl, ?_⟩
    show Except.ok (Policy.byPriority (Policy.byPriority [reread])) = _
    simp only [Policy.byPriority_singleton]
  have hresult : (Engine.check request .denyOverrides engine).result = .error .noDecision :=
    (Engine.check_of_finds hfinds .denyOverrides).1.trans rfl
  have hresult' : (Engine.check request .denyOverrides engine').result = .error .io :=
    (Engine.check_of_finds hfinds' .denyOverrides).1.trans rfl
  refine ⟨⟨hunshadowed, hnormal, hlawful, hrespect, hfair⟩, hdecode, hresult', hresult, ?_⟩
  rw [hresult, hresult']
  exact Engine.not_concur_noDecision (by simp)

end Store
end PolicyDecision
