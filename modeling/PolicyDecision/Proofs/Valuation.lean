import PolicyDecision.Proofs.Compilation
import PolicyDecision.Proofs.Current
import PolicyDecision.Proofs.Truth

/-!
# Evaluation agrees with truth

Evaluating a tree goes from left to right and stops early, so which leaves it asks depends on the
order, and with it whether a failing leaf is met. What it answers does not: if it answers at all, then
with the truth value of the tree, and if no leaf fails, it answers (`Tree.tells_holds`).

So trees that are alike never answer differently (`Tree.Alike.holds_eq`).
-/

namespace PolicyDecision

/-- What the leaves of a tree answer to a request, each by itself, with these operators and
entities. -/
def Registry.valuation (registry : Registry) (entities : Table Entity) (context : Context) :
    Valuation
  | .requester => (entities.find? context.requester).map fun _ => true
  | .clause clause => (entities.find? context.requester).bind fun requester =>
    (clause.holds registry.entityOps requester ⟨entities, none⟩).result.toOption
  | .resourceId id => some (context.resource = id)
  | .access allowed => some (context.access.isWithin allowed)
  | .custom name arg => (registry.contextOps.ask name arg context).toOption

/-- None of these leaves fails. -/
def Valuation.Sure (v : Valuation) (leaves : List Leaf) : Prop :=
  ∀ leaf ∈ leaves, ∃ b, v leaf = some b

/-! ### Telling the truth -/

/-- The result is no other answer than `truth`, and it is an answer if `sure`. -/
structure Tells (sure : Prop) (truth : Option Bool) (result : Except Error Bool) : Prop where
  sound : ∀ b, result = .ok b → truth = some b
  answers : sure → ∃ b, result = .ok b

namespace Tells

variable {sure sure' : Prop} {truth truth' : Option Bool} {b : Bool} {e : Error}

theorem ok (h : truth = some b) : Tells sure truth (.ok b) where
  sound b' hb' := by
    cases hb'
    exact h
  answers _ := ⟨b, rfl⟩

theorem error (h : ¬sure) : Tells sure truth (.error e) :=
  ⟨nofun, fun hsure => absurd hsure h⟩

theorem not_sure (h : Tells sure truth (.error e)) : ¬sure := by
  intro hsure
  obtain ⟨b, hb⟩ := h.answers hsure
  cases hb

theorem toOption (result : Except Error Bool) :
    Tells (∃ b, result.toOption = some b) result.toOption result := by
  cases result with
  | ok b => exact ok rfl
  | error e => exact error fun ⟨b, hb⟩ => nomatch hb

theorem weaken {result : Except Error Bool} (h : Tells sure truth result) (hsure : sure' → sure) :
    Tells sure' truth result :=
  ⟨h.sound, fun h' => h.answers (hsure h')⟩

variable {σ : Type} {I : σ → Prop} {x y : Act σ Bool}

/-- A conjunction that stops at the first part that does not hold. -/
theorem and (hx : Act.Ensures I (Tells sure truth) x) (hy : Act.Ensures I (Tells sure' truth') y) :
    Act.Ensures I (Tells (sure ∧ sure') (Kleene.and truth truth'))
      (do if ← x then y else return false) := by
  refine hx.bind (fun e he => error fun h => he.not_sure h.1) fun b hb => ?_
  rw [hb.sound b rfl]
  cases b with
  | true => exact hy.mono fun r hr => hr.weaken And.right
  | false => exact Act.ensures_pure (ok rfl)

/-- A disjunction that stops at the first part that holds. -/
theorem or (hx : Act.Ensures I (Tells sure truth) x) (hy : Act.Ensures I (Tells sure' truth') y) :
    Act.Ensures I (Tells (sure ∧ sure') (Kleene.or truth truth'))
      (do if ← x then return true else y) := by
  refine hx.bind (fun e he => error fun h => he.not_sure h.1) fun b hb => ?_
  rw [hb.sound b rfl]
  cases b with
  | true => exact Act.ensures_pure (ok rfl)
  | false => exact hy.mono fun r hr => hr.weaken And.right

theorem not (hx : Act.Ensures I (Tells sure truth) x) :
    Act.Ensures I (Tells sure (truth.map (!·))) (do return !(← x)) := by
  refine hx.bind (fun e he => error he.not_sure) fun b hb => ?_
  rw [hb.sound b rfl]
  exact Act.ensures_pure (ok rfl)

end Tells

/-! ### Restrictors -/

section Restrictor

variable {entities : Table Entity} {entity : Entity}
  (h : entities.find? entity.id = some entity) (ops : Operators Entity)
include h

theorem Clause.steady_holds (clause : Clause) :
    Act.Steady (Graph.Current entities) (clause.holds ops entity) :=
  clause.steady_holds_of (Graph.steady_isSubOf_of_stored h) ops

/-- Asked of a stored entity, a clause answers as it does by itself. -/
theorem Clause.tells_holds (clause : Clause) :
    let answer := (clause.holds ops entity ⟨entities, none⟩).result.toOption
    Act.Ensures (Graph.Current entities) (Tells (∃ b, answer = some b) answer)
      (clause.holds ops entity) :=
  ((clause.steady_holds h ops).ensures (Graph.current_memoless entities)).mono fun r hr => by
    rw [hr]
    exact Tells.toOption _

theorem Clause.tells_allHold (clauses : List Clause) :
    let answer := fun clause : Clause => (clause.holds ops entity ⟨entities, none⟩).result.toOption
    Act.Ensures (Graph.Current entities)
      (Tells (∀ clause ∈ clauses, ∃ b, answer clause = some b) (Kleene.all (clauses.map answer)))
      (Clause.allHold ops entity clauses) := by
  intro answer
  induction clauses with
  | nil =>
    rw [Clause.allHold]
    exact Act.ensures_pure (.ok rfl)
  | cons clause clauses ih =>
    rw [Clause.allHold]
    exact (Tells.and (clause.tells_holds h ops) ih).mono fun r hr =>
      hr.weaken List.forall_mem_cons.1

end Restrictor

/-! ### Trees -/

section Tree

variable (registry : Registry) (entities : Table Entity) (context : Context)

/-- What is asked of the requester, who is looked up first. -/
theorem Inquiry.tells_fetchRequester {sure : Prop} {truth : Option Bool}
    {ask : Entity → Act Graph Bool} (hmissing : entities.find? context.requester = none → ¬sure)
    (hask : ∀ requester, entities.find? context.requester = some requester →
      Act.Ensures (Graph.Current entities) (Tells sure truth) (ask requester)) :
    Act.Ensures (Inquiry.Current entities context.requester) (Tells sure truth) (do
      Act.record (.reached .requester)
      let requester ← Inquiry.fetchRequester context.requester
      Inquiry.onGraph (ask requester)) := by
  apply Act.Ensures.record
  have hfetch : Act.Ensures (Inquiry.Current entities context.requester) _
    (Inquiry.fetchRequester context.requester) := Inquiry.ensures_fetchRequester
  cases hfind : entities.find? context.requester with
  | none =>
    rw [hfind] at hfetch
    exact hfetch.bind (fun e _ => .error (hmissing hfind)) fun _ he => nomatch he
  | some requester =>
    rw [hfind] at hfetch
    refine hfetch.bind (fun _ he => nomatch he) fun requester' he => ?_
    cases he
    exact Inquiry.ensures_onGraph (hask requester hfind)

/-- A condition on the requester; a wildcard does not ask for the requester. -/
theorem Restrictor.tells_requester (restrictor : Restrictor) :
    Act.Ensures (Inquiry.Current entities context.requester)
      (Tells ((registry.valuation entities context).Sure restrictor.leaves)
        (restrictor.truth (registry.valuation entities context)))
      ((Condition.requester restrictor).holds registry context) := by
  have hmissing : entities.find? context.requester = none →
      ¬∃ b, registry.valuation entities context .requester = some b := by
    rintro hfind ⟨b, hb⟩
    rw [Registry.valuation, hfind] at hb
    cases hb
  cases restrictor with
  | wildcard =>
    rw [Condition.holds]
    exact Act.ensures_pure (.ok rfl)
  | noOwner =>
    rw [Condition.holds]
    · refine Inquiry.tells_fetchRequester entities context (fun hfind hsure => ?_) ?_
      · exact hmissing hfind (hsure .requester List.mem_cons_self)
      · intro requester hfind
        rw [Restrictor.holds, Restrictor.truth, Registry.valuation, hfind]
        exact Act.ensures_pure (.ok rfl)
    · rintro ⟨⟩
  | all clauses =>
    rw [Condition.holds]
    · refine Inquiry.tells_fetchRequester entities context (fun hfind hsure => ?_) ?_
      · exact hmissing hfind (hsure .requester List.mem_cons_self)
      · intro requester hfind
        have hstored : entities.find? requester.id = some requester := by
          rwa [show requester.id = context.requester from Table.idOf_of_find? hfind]
        have hclause : ∀ clause : Clause, registry.valuation entities context (.clause clause) =
            (clause.holds registry.entityOps requester ⟨entities, none⟩).result.toOption := by
          intro clause
          rw [Registry.valuation, hfind]
          rfl
        have hall := Clause.tells_allHold hstored registry.entityOps clauses
        simp only [← hclause] at hall
        rw [Restrictor.holds, Restrictor.truth,
          show registry.valuation entities context .requester = some true by
            rw [Registry.valuation, hfind]; rfl]
        refine hall.mono fun r hr => hr.weaken fun hsure clause hmem => ?_
        exact hsure (.clause clause) (List.mem_cons_of_mem _ (List.mem_map_of_mem hmem))
    · rintro ⟨⟩

mutual

theorem Condition.tells_holds : (condition : Condition) →
    Act.Ensures (Inquiry.Current entities context.requester)
      (Tells ((registry.valuation entities context).Sure condition.leaves)
        (condition.truth (registry.valuation entities context)))
      (condition.holds registry context)
  | .requester restrictor => by
    rw [Condition.leaves, Condition.truth]
    exact Restrictor.tells_requester registry entities context restrictor
  | .resourceId id => by
    rw [Condition.truth, Condition.holds]
    exact Act.Ensures.record _ (Act.ensures_pure (.ok rfl))
  | .access allowed => by
    rw [Condition.truth, Condition.holds]
    exact Act.Ensures.record _ (Act.ensures_pure (.ok rfl))
  | .not tree => by
    rw [Condition.leaves, Condition.truth, Condition.holds]
    exact Tells.not (Tree.tells_holds tree)
  | .nor trees => by
    rw [Condition.leaves, Condition.truth, Condition.holds]
    exact Tells.not (Tree.tells_anyHolds trees)
  | .or trees => by
    rw [Condition.leaves, Condition.truth, Condition.holds]
    exact Tree.tells_anyHolds trees
  | .and trees => by
    rw [Condition.leaves, Condition.truth, Condition.holds]
    exact Tree.tells_allHold trees
  | .custom name arg => by
    rw [Condition.leaves, Condition.truth, Condition.holds]
    refine Act.Ensures.record _ (Act.Ensures.record _ (Act.ensures_ofExcept ?_))
    exact (Tells.toOption _).weaken fun hsure => hsure _ List.mem_cons_self

/-- **A tree answers no other than its truth value, and it answers if no leaf fails.** -/
theorem Tree.tells_holds : (tree : Tree) →
    Act.Ensures (Inquiry.Current entities context.requester)
      (Tells ((registry.valuation entities context).Sure (Tree.leaves tree))
        (Tree.truth (registry.valuation entities context) tree))
      (Tree.holds registry context tree)
  | [] => by
    rw [Tree.truth, Tree.holds]
    exact Act.ensures_pure (.ok rfl)
  | condition :: conditions => by
    rw [Tree.leaves, Tree.truth, Tree.holds]
    exact (Tells.and (Condition.tells_holds condition) (Tree.tells_holds conditions)).mono
      fun r hr => hr.weaken List.forall_mem_append.1

theorem Tree.tells_allHold : (trees : List Tree) →
    Act.Ensures (Inquiry.Current entities context.requester)
      (Tells ((registry.valuation entities context).Sure (Tree.leavesOfEach trees))
        (Tree.truthOfAll (registry.valuation entities context) trees))
      (Tree.allHold registry context trees)
  | [] => by
    rw [Tree.truthOfAll, Tree.allHold]
    exact Act.ensures_pure (.ok rfl)
  | tree :: trees => by
    rw [Tree.leavesOfEach, Tree.truthOfAll, Tree.allHold]
    exact (Tells.and (Tree.tells_holds tree) (Tree.tells_allHold trees)).mono
      fun r hr => hr.weaken List.forall_mem_append.1

theorem Tree.tells_anyHolds : (trees : List Tree) →
    Act.Ensures (Inquiry.Current entities context.requester)
      (Tells ((registry.valuation entities context).Sure (Tree.leavesOfEach trees))
        (Tree.truthOfAny (registry.valuation entities context) trees))
      (Tree.anyHolds registry context trees)
  | [] => by
    rw [Tree.truthOfAny, Tree.anyHolds]
    exact Act.ensures_pure (.ok rfl)
  | tree :: trees => by
    rw [Tree.leavesOfEach, Tree.truthOfAny, Tree.anyHolds]
    exact (Tells.or (Tree.tells_holds tree) (Tree.tells_anyHolds trees)).mono
      fun r hr => hr.weaken List.forall_mem_append.1

end

end Tree

/-! ### Trees that are alike -/

namespace Tree.Alike

variable {t u : Tree} (h : Tree.Alike t u) (registry : Registry)
include h

/-- The custom keys of one are those of the other, in some order. -/
theorem customKeys : (Tree.customKeys t).Perm (Tree.customKeys u) := by
  rw [Tree.customKeys_eq, Tree.customKeys_eq]
  exact h.leaves.filterMap _

/-- One can be made a predicate of if the other can. -/
theorem compiles :
    (∃ p, (Tree.compile registry t ()).result = .ok p) ↔
      ∃ p, (Tree.compile registry u ()).result = .ok p := by
  refine (Tree.makes_compile registry t).ok_iff.trans
    (Iff.trans ?_ (Tree.makes_compile registry u).ok_iff.symm)
  simp only [h.customKeys.mem_iff]

variable {entities : Table Entity} {context : Context}

theorem sure (v : Valuation) : v.Sure (Tree.leaves t) ↔ v.Sure (Tree.leaves u) := by
  simp only [Valuation.Sure, h.leaves.mem_iff]

/-- **Trees that are alike never answer differently.** -/
theorem holds_eq {s s' : Inquiry} (hs : Inquiry.Current entities context.requester s)
    (hs' : Inquiry.Current entities context.requester s') {b b' : Bool}
    (hb : (Tree.holds registry context t s).result = .ok b)
    (hb' : (Tree.holds registry context u s').result = .ok b') : b = b' := by
  have htruth := ((Tree.tells_holds registry entities context t).result s hs).sound b hb
  have htruth' := ((Tree.tells_holds registry entities context u).result s' hs').sound b' hb'
  rw [h.truth, htruth'] at htruth
  cases htruth
  rfl

end Tree.Alike
end PolicyDecision
