import PolicyDecision.Proofs.Run

/-!
# What a history leaves in the store of policies

The policies of a store in terms of the operations that led to it (`Engine.PoliciesAfter`): which
policy an identifier has (`Engine.LastGiven`), and in which order the policies stand, which is that in
which their identifiers came into the store (`Engine.Entered`). A policy that is replaced keeps its
place; one that is deleted and given again has a new one.

That the policies are what the history says is kept by each operation, which makes the history longer by
itself (`Engine.Recounts.perform`). So it holds after any run, from the store of any snapshot
(`Engine.policies_after_history`).
-/

namespace PolicyDecision.Engine

variable {history : List Operation} {operation : Operation} {policy : Policy} {id : PolicyId}
  {place : Nat} {policies : Table Policy}

/-! ### Histories -/

/-- The operation gives a policy for the identifier or deletes that of the identifier. -/
def Operation.Writes (id : PolicyId) : Operation → Prop
  | .upsertPolicy policy => policy.id = id
  | .deletePolicy other => other = id
  | _ => False

/-- The policy is the last that was given for its identifier, and it has not been deleted since. -/
def LastGiven (history : List Operation) (policy : Policy) : Prop :=
  ∃ before after, history = before ++ .upsertPolicy policy :: after ∧
    ∀ operation ∈ after, ¬operation.Writes policy.id

/-- The identifier has a policy. -/
def Held (history : List Operation) (id : PolicyId) : Prop :=
  ∃ policy : Policy, policy.id = id ∧ LastGiven history policy

/-- At this place of the history a policy was given for the identifier, which had none then, and none has
been deleted for it since. -/
def Entered (history : List Operation) (id : PolicyId) (place : Nat) : Prop :=
  ∃ before policy after, history = before ++ .upsertPolicy policy :: after ∧
    before.length = place ∧ policy.id = id ∧ ¬Held before id ∧ .deletePolicy id ∉ after

/-- `x` came into the store before `y`. -/
def EnteredBefore (history : List Operation) (x y : PolicyId) : Prop :=
  ∃ i j, Entered history x i ∧ Entered history y j ∧ i < j

/-! ### What an identifier has -/

theorem not_lastGiven_nil : ¬LastGiven [] policy := by
  rintro ⟨before, after, h, -⟩
  cases before <;> cases h

theorem lastGiven_snoc :
    LastGiven (history ++ [operation]) policy ↔
      operation = .upsertPolicy policy ∨ ¬operation.Writes policy.id ∧ LastGiven history policy := by
  constructor
  · rintro ⟨before, after, h, hafter⟩
    rcases snoc_eq_iff.1 h with ⟨rfl, rfl, rfl⟩ | ⟨rest, rfl, rfl⟩
    · exact .inl rfl
    · have hrest : ∀ later ∈ rest, ¬later.Writes policy.id :=
        fun later hlater => hafter later (List.mem_append_left _ hlater)
      exact .inr ⟨hafter operation (by simp), before, rest, rfl, hrest⟩
  · rintro (rfl | ⟨hkept, before, rest, rfl, hrest⟩)
    · exact ⟨history, [], rfl, by simp⟩
    · refine ⟨before, rest ++ [operation], by simp, ?_⟩
      intro later hlater
      rcases List.mem_append.1 hlater with hlater | hlater
      · exact hrest later hlater
      · rwa [List.mem_singleton.1 hlater]

theorem not_held_nil : ¬Held [] id := by
  rintro ⟨policy, -, h⟩
  exact not_lastGiven_nil h

/-- An identifier has a policy if one is given, and keeps it unless it is deleted. -/
theorem held_snoc :
    Held (history ++ [operation]) id ↔
      (∃ policy, operation = .upsertPolicy policy ∧ policy.id = id) ∨
        operation ≠ .deletePolicy id ∧ Held history id := by
  constructor
  · rintro ⟨policy, rfl, h⟩
    rcases lastGiven_snoc.1 h with rfl | ⟨hkept, h⟩
    · exact .inl ⟨policy, rfl, rfl⟩
    · refine .inr ⟨?_, policy, rfl, h⟩
      rintro rfl
      exact hkept rfl
  · rintro (⟨policy, rfl, rfl⟩ | ⟨hkept, policy, rfl, h⟩)
    · exact ⟨policy, rfl, lastGiven_snoc.2 (.inl rfl)⟩
    · by_cases hwrites : operation.Writes policy.id
      · -- What writes to the identifier and does not delete gives it another policy.
        cases operation with
        | upsertPolicy other => exact ⟨other, hwrites, lastGiven_snoc.2 (.inl rfl)⟩
        | deletePolicy other => exact absurd (congrArg Operation.deletePolicy hwrites) hkept
        | _ => exact hwrites.elim
      · exact ⟨policy, rfl, lastGiven_snoc.2 (.inr ⟨hwrites, h⟩)⟩

/-! ### Where an identifier stands -/

theorem not_entered_nil : ¬Entered [] id place := by
  rintro ⟨before, policy, after, h, -⟩
  cases before <;> cases h

theorem entered_snoc :
    Entered (history ++ [operation]) id place ↔
      (place = history.length ∧ ¬Held history id ∧
          ∃ policy, operation = .upsertPolicy policy ∧ policy.id = id) ∨
        operation ≠ .deletePolicy id ∧ Entered history id place := by
  constructor
  · rintro ⟨before, policy, after, h, rfl, hid, hnew, hafter⟩
    rcases snoc_eq_iff.1 h with ⟨rfl, rfl, rfl⟩ | ⟨rest, rfl, rfl⟩
    · exact .inl ⟨rfl, hnew, policy, rfl, hid⟩
    · simp only [List.mem_append, List.mem_singleton, not_or] at hafter
      exact .inr ⟨fun h => hafter.2 h.symm, before, policy, rest, rfl, rfl, hid, hnew, hafter.1⟩
  · rintro (⟨rfl, hnew, policy, rfl, hid⟩ | ⟨hkept, before, policy, rest, rfl, rfl, hid, hnew, hrest⟩)
    · exact ⟨history, policy, [], rfl, rfl, hid, hnew, by simp⟩
    · refine ⟨before, policy, rest ++ [operation], by simp, rfl, hid, hnew, ?_⟩
      simp only [List.mem_append, List.mem_singleton, not_or]
      exact ⟨hrest, fun h => hkept h.symm⟩

theorem Entered.lt (h : Entered history id place) : place < history.length := by
  obtain ⟨before, policy, after, rfl, rfl, -⟩ := h
  simp

/-- An identifier that has a policy came into the store at some place, and the other way around. -/
theorem held_iff_entered : Held history id ↔ ∃ place, Entered history id place := by
  induction history using List.reverseRecOn with
  | nil => simp [not_held_nil, not_entered_nil]
  | append_singleton history operation ih =>
    simp only [held_snoc, entered_snoc]
    constructor
    · rintro (⟨policy, rfl, rfl⟩ | ⟨hkept, hheld⟩)
      · by_cases hheld : Held history policy.id
        · obtain ⟨place, hplace⟩ := ih.1 hheld
          exact ⟨place, .inr ⟨nofun, hplace⟩⟩
        · exact ⟨history.length, .inl ⟨rfl, hheld, policy, rfl, rfl⟩⟩
      · obtain ⟨place, hplace⟩ := ih.1 hheld
        exact ⟨place, .inr ⟨hkept, hplace⟩⟩
    · rintro ⟨place, ⟨-, -, hgiven⟩ | ⟨hkept, hplace⟩⟩
      · exact .inl hgiven
      · exact .inr ⟨hkept, ih.2 ⟨place, hplace⟩⟩

/-- An identifier stands at one place only. -/
theorem Entered.unique {i j : Nat} (hi : Entered history id i) (hj : Entered history id j) : i = j := by
  induction history using List.reverseRecOn with
  | nil => exact absurd hi not_entered_nil
  | append_singleton history operation ih =>
    rcases entered_snoc.1 hi with ⟨hi, hnew, -⟩ | ⟨-, hi⟩
    · rcases entered_snoc.1 hj with ⟨hj, -, -⟩ | ⟨-, hj⟩
      · rw [hi, hj]
      · exact absurd (held_iff_entered.2 ⟨j, hj⟩) hnew
    · rcases entered_snoc.1 hj with ⟨-, hnew, -⟩ | ⟨-, hj⟩
      · exact absurd (held_iff_entered.2 ⟨i, hi⟩) hnew
      · exact ih hi hj

theorem EnteredBefore.snoc {x y : PolicyId} (h : EnteredBefore history x y)
    (hx : operation ≠ .deletePolicy x) (hy : operation ≠ .deletePolicy y) :
    EnteredBefore (history ++ [operation]) x y := by
  obtain ⟨i, j, hi, hj, hij⟩ := h
  exact ⟨i, j, entered_snoc.2 (.inr ⟨hx, hi⟩), entered_snoc.2 (.inr ⟨hy, hj⟩), hij⟩

/-! ### One operation -/

/-- The table holds the policies that were given last, in the order in which their identifiers came
in. -/
structure Recounts (history : List Operation) (policies : Table Policy) : Prop where
  members : ∀ policy, policy ∈ policies.docs ↔ LastGiven history policy
  ordered : policies.docs.Pairwise fun a b => EnteredBefore history a.id b.id

theorem recounts_empty : Recounts [] .empty where
  members policy := by simp [Table.empty, not_lastGiven_nil]
  ordered := .nil

namespace Recounts

variable (h : Recounts history policies)
include h

theorem held_iff : Held history id ↔ ∃ policy ∈ policies.docs, policy.id = id := by
  simp only [Held, h.members, and_comm]

theorem upsert (policy : Policy) :
    Recounts (history ++ [.upsertPolicy policy]) (policies.upsert policy) where
  members other := by
    rw [Table.mem_upsert, lastGiven_snoc, h.members, Operation.upsertPolicy.injEq, eq_comm]
    rfl
  ordered := by
    have hkept : policies.docs.Pairwise fun a b =>
        EnteredBefore (history ++ [.upsertPolicy policy]) a.id b.id :=
      h.ordered.imp fun hab => hab.snoc nofun nofun
    by_cases hheld : Held history policy.id
    · -- It takes the place of another, so the identifiers stand as before.
      rw [Table.docs_upsert_of_old (h.held_iff.1 hheld), List.pairwise_map]
      have hid : ∀ a : Policy, (if idOf a = idOf policy then policy else a).id = a.id := by
        intro a
        split
        · next heq => exact heq.symm
        · rfl
      simpa only [hid] using hkept
    · have hnew : policies.find? policy.id = none := by
        rw [Table.find?_eq_none_iff]
        exact fun a ha hid => hheld (h.held_iff.2 ⟨a, ha, hid⟩)
      rw [Table.docs_upsert_of_new hnew, List.pairwise_append]
      refine ⟨hkept, List.pairwise_singleton _ _, fun a ha b hb => ?_⟩
      obtain rfl : b = policy := List.mem_singleton.1 hb
      obtain ⟨i, hi⟩ := held_iff_entered.1 (h.held_iff.2 ⟨a, ha, rfl⟩)
      exact ⟨i, history.length, entered_snoc.2 (.inr ⟨nofun, hi⟩),
        entered_snoc.2 (.inl ⟨rfl, hheld, b, rfl, rfl⟩), hi.lt⟩

theorem erase (id : PolicyId) :
    Recounts (history ++ [.deletePolicy id]) (policies.erase id) where
  members policy := by
    rw [Table.mem_erase, lastGiven_snoc, h.members, or_iff_right nofun, ne_comm]
    rfl
  ordered := by
    have hother : ∀ a ∈ (policies.erase id).docs, Operation.deletePolicy id ≠ .deletePolicy a.id := by
      intro a ha hid
      exact (Table.mem_erase.1 ha).1 (Operation.deletePolicy.inj hid).symm
    exact (h.ordered.filter _).imp_of_mem fun ha hb hab => hab.snoc (hother _ ha) (hother _ hb)

/-- An operation that writes no policy. -/
theorem idle (hidle : ∀ id, ¬operation.Writes id) : Recounts (history ++ [operation]) policies where
  members policy := by
    have hother : operation ≠ .upsertPolicy policy := by
      rintro rfl
      exact hidle policy.id rfl
    rw [lastGiven_snoc, h.members, or_iff_right hother, and_iff_right (hidle policy.id)]
  ordered := by
    have hother : ∀ id, operation ≠ .deletePolicy id := by
      rintro id rfl
      exact hidle id rfl
    exact h.ordered.imp fun hab => hab.snoc (hother _) (hother _)

end Recounts

/-- A request writes no policy. -/
theorem keeps_policies (request : Request) (compounder : Compounder) :
    Act.Keeps (fun engine : Engine => engine.policies = policies) (check request compounder) := by
  apply keeps_check (J := fun _ _ => True)
  · exact fun resource => keeps_candidates (Act.keeps_true _) (fun _ _ => trivial) fun _ _ h _ => h
  · exact fun _ _ => Act.keeps_true _
  · exact fun _ _ _ => trivial
  · exact fun _ _ _ h _ => h

/-- **One operation.** -/
theorem Recounts.perform {engine : Engine} (h : Recounts history engine.policies)
    (operation : Operation) : Recounts (history ++ [operation]) (operation.perform engine).policies := by
  cases operation with
  | upsertPolicy policy => exact h.upsert policy
  | deletePolicy id => exact h.erase id
  | check request compounder =>
    have hpolicies : (Operation.perform engine (.check request compounder)).policies = engine.policies :=
      (keeps_policies request compounder).keeps engine rfl
    rw [hpolicies]
    exact h.idle fun _ => id
  | _ => exact h.idle fun _ => id

/-- **Every run.** -/
theorem Recounts.run {engine : Engine} (h : Recounts history engine.policies)
    (operations : List Operation) : Recounts (history ++ operations) (engine.run operations).policies := by
  induction operations generalizing history engine with
  | nil => rwa [List.append_nil]
  | cons operation rest ih =>
    rw [run_cons, List.append_cons]
    exact ih (h.perform operation)

/-! ### Snapshots -/

/-- The policies of a snapshot are loaded as if they were given one after the other. -/
theorem recounts_ofList (given : List Policy) :
    Recounts (given.map .upsertPolicy) (.ofList given) := by
  induction given using List.reverseRecOn with
  | nil => exact recounts_empty
  | append_singleton given policy ih =>
    rw [List.map_append, Table.ofList, List.foldl_append]
    exact ih.upsert policy

/-- The documents of a snapshot, one after the other. -/
def writes (s : Snapshot) : List Operation :=
  s.entities.map .upsertEntity ++ s.resources.map .upsertResource ++ s.policies.map .upsertPolicy

/-- Writing documents of one kind, where a table of them makes up the store. -/
theorem store_run_map {α : Type} {kind : Kind} [Identified α kind] (put : Table α → Store)
    (write : α → Operation) (hwrite : ∀ (engine : Engine) t doc, engine.store = put t →
      ((write doc).perform engine).store = put (t.upsert doc))
    {engine : Engine} {t : Table α} (hstore : engine.store = put t) (docs : List α) :
    (engine.run (docs.map write)).store = put (docs.foldl Table.upsert t) := by
  induction docs generalizing engine t with
  | nil => exact hstore
  | cons doc docs ih => exact ih (hwrite engine t doc hstore)

/-- Writing the documents of a snapshot into an empty store is to load it. -/
theorem store_run_writes (s : Snapshot) (config : Config) (registry : Registry) :
    ((new {} config registry).run (writes s)).store = .ofSnapshot s := by
  rw [writes, run_append, run_append]
  have hentities := store_run_map (fun entities => ⟨entities, .empty, .empty⟩) .upsertEntity
    (fun engine t entity hstore => by
      show { engine.store with entities := engine.store.entities.upsert entity } = _
      rw [hstore])
    (rfl : (new {} config registry).store = _) s.entities
  have hresources := store_run_map (fun resources => ⟨.ofList s.entities, resources, .empty⟩)
    .upsertResource
    (fun engine t resource hstore => by
      show { engine.store with resources := engine.store.resources.upsert resource } = _
      rw [hstore])
    hentities s.resources
  exact store_run_map (fun policies => ⟨.ofList s.entities, .ofList s.resources, policies⟩)
    .upsertPolicy
    (fun engine t policy hstore => by
      show { engine.store with policies := engine.store.policies.upsert policy } = _
      rw [hstore])
    hresources s.policies

/-! ### What can be seen of it -/

/-- What a history has made of the policies of an engine. -/
structure PoliciesAfter (history : List Operation) (engine : Engine) : Prop where
  distinct : engine.policies.docs.Pairwise fun a b => a.id ≠ b.id
  /-- An identifier has the policy that was given last. -/
  given : ∀ id policy, (retrievePolicy id engine).result = .ok policy ↔
    policy.id = id ∧ LastGiven history policy
  missing : ∀ id, ¬Held history id → (retrievePolicy id engine).result = .error (.notFound id)
  placed : ∀ policy ∈ engine.policies.docs, ∃! place, Entered history policy.id place
  /-- The policies stand in the order in which their identifiers came into the store. -/
  ordered : engine.policies.docs.Pairwise fun a b =>
    ∀ i j, Entered history a.id i → Entered history b.id j → i < j
  /-- A policy that replaces another takes its place, whatever its priority is. -/
  replaced : ∀ policy : Policy, Held history policy.id →
    (upsertPolicy policy engine).state.policies.docs =
      engine.policies.docs.map fun p => if p.id = policy.id then policy else p
  /-- The policies that are found are those that match, each once, the highest priority first and
  otherwise as they stand. -/
  found : ∀ r : Relevance,
    (∀ policy, policy ∈ r.candidates engine.policies.docs ↔
      policy ∈ engine.policies.docs ∧ r.accepts policy = true) ∧
    (r.candidates engine.policies.docs).Pairwise (fun a b => a.id ≠ b.id) ∧
    (r.candidates engine.policies.docs).Pairwise (Policy.Precedes engine.policies.docs)

/-- What fetching a policy comes to. -/
theorem retrievePolicy_apply (id : PolicyId) (engine : Engine) :
    retrievePolicy id engine =
      ⟨(engine.policies.find? id).elim (.error (.notFound id)) .ok, engine, [.fetched id]⟩ := by
  simp only [retrievePolicy, Act.bind_apply, Act.record_apply, Act.get_apply]
  cases engine.policies.find? id with
  | none => rfl
  | some policy => rfl

theorem Recounts.policiesAfter {engine : Engine} (h : Recounts history engine.policies) :
    PoliciesAfter history engine where
  distinct := engine.policies.distinct
  given id policy := by
    have hfind : engine.policies.find? id = some policy ↔
        policy ∈ engine.policies.docs ∧ policy.id = id := Table.find?_eq_some_iff
    rw [retrievePolicy_apply, ← h.members, and_comm, ← hfind]
    cases engine.policies.find? id with
    | none => simp
    | some found => simp
  missing id hmissing := by
    have hnone : engine.policies.find? id = none :=
      Table.find?_eq_none_iff.2 fun p hp hid => hmissing (h.held_iff.2 ⟨p, hp, hid⟩)
    rw [retrievePolicy_apply, hnone]
    rfl
  placed policy hpolicy := by
    obtain ⟨place, hplace⟩ := held_iff_entered.1 (h.held_iff.2 ⟨policy, hpolicy, rfl⟩)
    exact ⟨place, hplace, fun other hother => hother.unique hplace⟩
  ordered := by
    refine h.ordered.imp fun {a b} hab i j hi hj => ?_
    obtain ⟨i', j', hi', hj', hlt⟩ := hab
    rwa [hi.unique hi', hj.unique hj']
  replaced policy hheld := Table.docs_upsert_of_old (h.held_iff.1 hheld)
  found r :=
    ⟨fun _ => r.mem_candidates, r.distinct_candidates engine.policies,
      r.precedes_candidates engine.policies.docs⟩

/-- **What the store holds is what its history says.** Load any snapshot, in which identifiers may repeat,
and perform any operations. The policies are then those that the history of both left, in the order in
which their identifiers came into the store. The history of a snapshot is that of its policies given one
after the other; and so all of its documents, written one after the other into an empty store, make up
the store that is loaded. -/
theorem policies_after_history (s : Snapshot) (config : Config) (registry : Registry)
    (operations : List Operation) :
    PoliciesAfter (s.policies.map .upsertPolicy ++ operations)
      ((new (.ofSnapshot s) config registry).run operations) ∧
    ((new {} config registry).run (writes s)).store = .ofSnapshot s := by
  have hloaded : Recounts (s.policies.map .upsertPolicy)
      (new (.ofSnapshot s) config registry).policies := recounts_ofList s.policies
  exact ⟨(hloaded.run operations).policiesAfter, store_run_writes s config registry⟩

/-- The first policy is replaced and stays the first; it is deleted, and given again it is the last. -/
example :
    let policy (n : Nat) (priority : Int) : Policy := { id := ⟨⟨n⟩⟩, priority }
    let engine := new (.ofSnapshot { policies := [policy 1 0, policy 2 0] }) {} {}
    let replaced := engine.run [.upsertPolicy (policy 1 5)]
    let again := replaced.run [.deletePolicy ⟨⟨1⟩⟩, .upsertPolicy (policy 1 5)]
    replaced.policies.docs = [policy 1 5, policy 2 0] ∧
      again.policies.docs = [policy 2 0, policy 1 5] :=
  ⟨rfl, rfl⟩

end PolicyDecision.Engine
