import PolicyDecision.Policy
import PolicyDecision.Proofs.Settled

/-!
# Contents that are equal

A policy that is read keeps one of several contents that are equal. Equal trees need not be the same tree,
for the arguments of custom keys are compared as values and `0.0` equals `-0.0`. If the operators respect
this (`Registry.Respectful`), then equal trees have the same truth value and are at fault alike
(`Tree.means_of_same`), and dropping a content that equals another changes neither
(`Policy.exists_distinct_iff`).

The verdict of contents depends on no more than which reactions go with a tree that is true
(`Content.verdict_congr`).
-/

namespace PolicyDecision

/-! ### Operators that respect equality -/

/-- For equal arguments a factory makes the same test, or for neither of them one. -/
def Operators.Respectful {α : Type} (ops : Operators α) : Prop :=
  ∀ name factory, ops.find? name = some factory → ∀ arg arg', arg == arg' →
    (factory arg).toOption = (factory arg').toOption

structure Registry.Respectful (registry : Registry) : Prop where
  entityOps : registry.entityOps.Respectful
  contextOps : registry.contextOps.Respectful

/-- The leaves of equal arguments answer alike. -/
structure Valuation.Respectful (v : Valuation) : Prop where
  clause : ∀ name arg arg', arg == arg' → v (.clause (.custom name arg)) = v (.clause (.custom name arg'))
  custom : ∀ name arg arg', arg == arg' → v (.custom name arg) = v (.custom name arg')

/-- The custom keys are equal. -/
inductive CustomKey.Same : CustomKey → CustomKey → Prop
  | clause (name : String) {arg arg' : Json} (h : arg == arg') : Same (.clause name arg) (.clause name arg')
  | condition (name : String) {arg arg' : Json} (h : arg == arg') :
      Same (.condition name arg) (.condition name arg')

namespace Operators

variable {α : Type} {ops : Operators α} {name : String} {factory : Factory α}

theorem toOption_ask (hfind : ops.find? name = some factory) (arg : Json) (subject : α) :
    (ops.ask name arg subject).toOption =
      (factory arg).toOption.bind fun test => (test subject).toOption := by
  rw [ask, hfind]
  cases h : factory arg with
  | error e => simp only [h]; rfl
  | ok test => simp only [h]; rfl

theorem fault?_eq_none_iff (hfind : ops.find? name = some factory) (arg : Json) :
    ops.fault? name arg = none ↔ (factory arg).toOption ≠ none := by
  rw [fault?, hfind]
  cases h : factory arg <;> simp [h, Except.toOption]

variable (h : ops.Respectful) {arg arg' : Json} (harg : arg == arg')
include h harg

theorem Respectful.ask_eq (name : String) (subject : α) :
    (ops.ask name arg subject).toOption = (ops.ask name arg' subject).toOption := by
  cases hfind : ops.find? name with
  | none => rw [ask, ask, hfind]
  | some factory => rw [toOption_ask hfind, toOption_ask hfind, h name factory hfind arg arg' harg]

theorem Respectful.faultless_iff (name : String) :
    ops.fault? name arg = none ↔ ops.fault? name arg' = none := by
  cases hfind : ops.find? name with
  | none => rw [fault?, fault?, hfind]
  | some factory =>
    rw [fault?_eq_none_iff hfind, fault?_eq_none_iff hfind, h name factory hfind arg arg' harg]

end Operators

variable {registry : Registry}

theorem Registry.Respectful.valuation (h : registry.Respectful) (entities : Table Entity)
    (context : Context) : (registry.valuation entities context).Respectful where
  clause name arg arg' harg := by
    rw [Registry.valuation, Registry.valuation]
    refine congrArg _ (funext fun requester => ?_)
    exact h.entityOps.ask_eq harg name requester
  custom name arg arg' harg := h.contextOps.ask_eq harg name context

theorem Registry.Respectful.faultless_iff (h : registry.Respectful) {keys keys' : List CustomKey}
    (hsame : List.Forall₂ CustomKey.Same keys keys') : registry.Faultless keys ↔ registry.Faultless keys' := by
  induction hsame with
  | nil => rfl
  | @cons key key' keys keys' hkey _ ih =>
    have hfault : registry.fault? key = none ↔ registry.fault? key' = none := by
      cases hkey with
      | clause name harg => exact h.entityOps.faultless_iff harg name
      | condition name harg => exact h.contextOps.faultless_iff harg name
    rw [Faultless, Faultless, List.forall_mem_cons, List.forall_mem_cons, hfault]
    exact and_congr_right fun _ => ih

/-! ### Equal trees -/

/-- The trees have the same truth value and equal custom keys. -/
structure Tree.Means (v : Valuation) (t u : Tree) : Prop where
  truth : Tree.truth v t = Tree.truth v u
  keys : List.Forall₂ CustomKey.Same (Tree.customKeys t) (Tree.customKeys u)

/-- The same for conditions. -/
structure Condition.Means (v : Valuation) (c d : Condition) : Prop where
  truth : c.truth v = d.truth v
  keys : List.Forall₂ CustomKey.Same c.customKeys d.customKeys

section Same

variable {v : Valuation}

theorem Tree.truthOfAll_eq {ts us : List Tree} (h : List.Forall₂ (Tree.Means v) ts us) :
    Tree.truthOfAll v ts = Tree.truthOfAll v us := by
  induction h with
  | nil => rfl
  | cons h _ ih => rw [Tree.truthOfAll, Tree.truthOfAll, h.truth, ih]

theorem Tree.truthOfAny_eq {ts us : List Tree} (h : List.Forall₂ (Tree.Means v) ts us) :
    Tree.truthOfAny v ts = Tree.truthOfAny v us := by
  induction h with
  | nil => rfl
  | cons h _ ih => rw [Tree.truthOfAny, Tree.truthOfAny, h.truth, ih]

theorem Tree.keysOfEach {ts us : List Tree} (h : List.Forall₂ (Tree.Means v) ts us) :
    List.Forall₂ CustomKey.Same (Tree.customKeysOfEach ts) (Tree.customKeysOfEach us) := by
  induction h with
  | nil => exact .nil
  | cons h _ ih =>
    rw [Tree.customKeysOfEach, Tree.customKeysOfEach]
    exact List.rel_append h.keys ih

theorem Clause.means_of_same (hv : v.Respectful) {c d : Clause} (h : c.same d = true) :
    v (.clause c) = v (.clause d) ∧ List.Forall₂ CustomKey.Same c.customKeys d.customKeys := by
  cases c with
  | id target =>
    cases d with
    | id target' =>
      obtain rfl : target = target' := by simpa [Clause.same] using h
      exact ⟨rfl, .nil⟩
    | _ => cases h
  | subOf target =>
    cases d with
    | subOf target' =>
      obtain rfl : target = target' := by simpa [Clause.same] using h
      exact ⟨rfl, .nil⟩
    | _ => cases h
  | custom name arg =>
    cases d with
    | custom name' arg' =>
      obtain ⟨rfl, harg⟩ : name = name' ∧ arg == arg' := by simpa [Clause.same] using h
      exact ⟨hv.clause name arg arg' harg, .cons (.clause name harg) .nil⟩
    | _ => cases h

theorem Clause.mean_of_beq (hv : v.Respectful) {cs ds : List Clause} (h : (cs == ds) = true) :
    (cs.map fun c => v (.clause c)) = (ds.map fun d => v (.clause d)) ∧
      List.Forall₂ CustomKey.Same (cs.flatMap Clause.customKeys) (ds.flatMap Clause.customKeys) := by
  induction cs generalizing ds with
  | nil =>
    cases ds with
    | nil => exact ⟨rfl, .nil⟩
    | cons d ds => cases h
  | cons c cs ih =>
    cases ds with
    | nil => cases h
    | cons d ds =>
      rw [List.cons_beq_cons, Bool.and_eq_true] at h
      obtain ⟨htruth, hkeys⟩ := Clause.means_of_same hv h.1
      obtain ⟨htruths, hkeyss⟩ := ih h.2
      rw [List.map_cons, List.map_cons, htruth, htruths, List.flatMap_cons, List.flatMap_cons]
      exact ⟨rfl, List.rel_append hkeys hkeyss⟩

theorem Restrictor.means_of_same (hv : v.Respectful) {r s : Restrictor} (h : r.same s = true) :
    r.truth v = s.truth v ∧ List.Forall₂ CustomKey.Same r.customKeys s.customKeys := by
  cases r with
  | wildcard =>
    cases s with
    | wildcard => exact ⟨rfl, .nil⟩
    | _ => cases h
  | noOwner =>
    cases s with
    | noOwner => exact ⟨rfl, .nil⟩
    | _ => cases h
  | all cs =>
    cases s with
    | all ds =>
      obtain ⟨htruth, hkeys⟩ := Clause.mean_of_beq hv h
      refine ⟨?_, hkeys⟩
      rw [Restrictor.truth, Restrictor.truth, htruth]
    | _ => cases h

mutual

theorem Condition.means_of_same (hv : v.Respectful) : (c d : Condition) → c.same d = true →
    Condition.Means v c d
  | .requester r, d, h => by
    cases d with
    | requester s =>
      rw [Condition.same] at h
      obtain ⟨htruth, hkeys⟩ := Restrictor.means_of_same hv h
      constructor
      · rw [Condition.truth, Condition.truth, htruth]
      · rw [Condition.customKeys, Condition.customKeys]
        exact hkeys
    | _ => simp [Condition.same] at h
  | .resourceId id, d, h => by
    cases d with
    | resourceId id' =>
      obtain rfl : id = id' := by simpa [Condition.same] using h
      exact ⟨rfl, by rw [Condition.customKeys]; exact .nil⟩
    | _ => simp [Condition.same] at h
  | .access a, d, h => by
    cases d with
    | access a' =>
      obtain rfl : a = a' := by simpa [Condition.same] using h
      exact ⟨rfl, by rw [Condition.customKeys]; exact .nil⟩
    | _ => simp [Condition.same] at h
  | .not t, d, h => by
    cases d with
    | not u =>
      rw [Condition.same] at h
      have hmeans := Tree.means_of_same hv t u h
      constructor
      · rw [Condition.truth, Condition.truth, hmeans.truth]
      · rw [Condition.customKeys, Condition.customKeys]
        exact hmeans.keys
    | _ => simp [Condition.same] at h
  | .nor ts, d, h => by
    cases d with
    | nor us =>
      rw [Condition.same] at h
      have hmean := Tree.mean_of_sameList hv ts us h
      constructor
      · rw [Condition.truth, Condition.truth, Tree.truthOfAny_eq hmean]
      · rw [Condition.customKeys, Condition.customKeys]
        exact Tree.keysOfEach hmean
    | _ => simp [Condition.same] at h
  | .or ts, d, h => by
    cases d with
    | or us =>
      rw [Condition.same] at h
      have hmean := Tree.mean_of_sameList hv ts us h
      constructor
      · rw [Condition.truth, Condition.truth, Tree.truthOfAny_eq hmean]
      · rw [Condition.customKeys, Condition.customKeys]
        exact Tree.keysOfEach hmean
    | _ => simp [Condition.same] at h
  | .and ts, d, h => by
    cases d with
    | and us =>
      rw [Condition.same] at h
      have hmean := Tree.mean_of_sameList hv ts us h
      constructor
      · rw [Condition.truth, Condition.truth, Tree.truthOfAll_eq hmean]
      · rw [Condition.customKeys, Condition.customKeys]
        exact Tree.keysOfEach hmean
    | _ => simp [Condition.same] at h
  | .custom name arg, d, h => by
    cases d with
    | custom name' arg' =>
      obtain ⟨rfl, harg⟩ : name = name' ∧ arg == arg' := by simpa [Condition.same] using h
      constructor
      · rw [Condition.truth, Condition.truth, hv.custom name arg arg' harg]
      · rw [Condition.customKeys, Condition.customKeys]
        exact .cons (.condition name harg) .nil
    | _ => simp [Condition.same] at h

/-- **Equal trees have the same truth value and equal custom keys.** -/
theorem Tree.means_of_same (hv : v.Respectful) : (t u : Tree) → Tree.same t u = true → Tree.Means v t u
  | [], u, h => by
    cases u with
    | nil => exact ⟨rfl, by rw [Tree.customKeys]; exact .nil⟩
    | cons d ds => simp [Tree.same] at h
  | c :: cs, u, h => by
    cases u with
    | nil => simp [Tree.same] at h
    | cons d ds =>
      rw [Tree.same, Bool.and_eq_true] at h
      have hfirst := Condition.means_of_same hv c d h.1
      have hrest := Tree.means_of_same hv cs ds h.2
      constructor
      · rw [Tree.truth, Tree.truth, hfirst.truth, hrest.truth]
      · rw [Tree.customKeys, Tree.customKeys]
        exact List.rel_append hfirst.keys hrest.keys

theorem Tree.mean_of_sameList (hv : v.Respectful) : (ts us : List Tree) → Tree.sameList ts us = true →
    List.Forall₂ (Tree.Means v) ts us
  | [], us, h => by
    cases us with
    | nil => exact .nil
    | cons u us => simp [Tree.sameList] at h
  | t :: ts, us, h => by
    cases us with
    | nil => simp [Tree.sameList] at h
    | cons u us =>
      rw [Tree.sameList, Bool.and_eq_true] at h
      exact .cons (Tree.means_of_same hv t u h.1) (Tree.mean_of_sameList hv ts us h.2)

end

theorem Content.means_of_beq (hv : v.Respectful) {c d : Content} (h : (c == d) = true) :
    Tree.Means v c.check d.check ∧ c.reaction = d.reaction := by
  have h : (Tree.same c.check d.check && decide (c.reaction = d.reaction)) = true := h
  rw [Bool.and_eq_true, decide_eq_true_eq] at h
  exact ⟨Tree.means_of_same hv _ _ h.1, h.2⟩

end Same

/-! ### Distinct contents -/

namespace Policy

/-- The contents that are kept when one more is met. -/
def keep (kept : List Content) (c : Content) : List Content :=
  if kept.contains c then kept else kept ++ [c]

variable {kept contents : List Content} {c d : Content}

theorem mem_keep_of_mem (h : d ∈ kept) : d ∈ keep kept c := by
  rw [keep]
  split
  · exact h
  · exact List.mem_append_left _ h

theorem mem_of_mem_keep (h : d ∈ keep kept c) : d ∈ kept ∨ d = c := by
  rw [keep] at h
  split at h
  · exact .inl h
  · exact (List.mem_append.1 h).imp_right List.mem_singleton.1

/-- The content that is met is kept, or equals one that is. -/
theorem exists_mem_keep (kept : List Content) (c : Content) :
    ∃ d ∈ keep kept c, c = d ∨ (c == d) = true := by
  rw [keep]
  split
  · next h =>
    rw [List.contains_eq_any_beq, List.any_eq_true] at h
    obtain ⟨d, hd, hequal⟩ := h
    exact ⟨d, hd, .inr hequal⟩
  · exact ⟨c, List.mem_append_right kept List.mem_cons_self, .inl rfl⟩

theorem mem_foldl_keep (h : d ∈ kept) : d ∈ contents.foldl keep kept := by
  induction contents generalizing kept with
  | nil => exact h
  | cons c contents ih => exact ih (mem_keep_of_mem h)

theorem mem_of_mem_foldl_keep (h : d ∈ contents.foldl keep kept) : d ∈ kept ∨ d ∈ contents := by
  induction contents generalizing kept with
  | nil => exact .inl h
  | cons c contents ih =>
    rcases ih h with hkept | hrest
    · rcases mem_of_mem_keep hkept with hkept | rfl
      · exact .inl hkept
      · exact .inr List.mem_cons_self
    · exact .inr (List.mem_cons_of_mem c hrest)

theorem mem_of_mem_distinct (h : d ∈ distinct contents) : d ∈ contents := by
  have hfold : d ∈ [] ∨ d ∈ contents := mem_of_mem_foldl_keep h
  simpa using hfold

/-- Every content is kept, or one that it equals. -/
theorem exists_mem_distinct (h : c ∈ contents) : ∃ d ∈ distinct contents, c = d ∨ (c == d) = true := by
  obtain ⟨before, after, rfl⟩ := List.append_of_mem h
  -- It is kept when it is met, or one that it equals is, and what is kept stays.
  obtain ⟨d, hd, hequal⟩ := exists_mem_keep (before.foldl keep []) c
  refine ⟨d, ?_, hequal⟩
  show d ∈ (before ++ c :: after).foldl keep []
  rw [List.foldl_append, List.foldl_cons]
  exact mem_foldl_keep hd

/-- **Whether some content has a property that equal ones share** does not depend on whether later ones
of equal contents are dropped. -/
theorem exists_distinct_iff {P : Content → Prop}
    (hP : ∀ c d : Content, (c == d) = true → (P c ↔ P d)) :
    (∃ c ∈ distinct contents, P c) ↔ ∃ c ∈ contents, P c := by
  constructor
  · rintro ⟨c, hc, hPc⟩
    exact ⟨c, mem_of_mem_distinct hc, hPc⟩
  · rintro ⟨c, hc, hPc⟩
    obtain ⟨d, hd, rfl | hequal⟩ := exists_mem_distinct hc
    · exact ⟨c, hd, hPc⟩
    · exact ⟨d, hd, (hP c d hequal).1 hPc⟩

end Policy

/-! ### Verdicts -/

namespace Content

/-- A content whose tree is true has this reaction. -/
def Says (v : Valuation) (reaction : Bool) (c : Content) : Prop :=
  Tree.truth v c.check = some true ∧ c.reaction = some reaction

theorem verdict_eq_false_iff {v : Valuation} {allowed : Bool} {contents : List Content} :
    verdict v allowed contents = some false ↔ ∃ c ∈ contents, c.Says v false := by
  induction contents generalizing allowed with
  | nil => cases allowed <;> simp [verdict]
  | cons c contents ih =>
    rw [verdict, List.exists_mem_cons_iff]
    split
    · next htrue =>
      cases hreaction : c.reaction with
      | none => simp [ih, Says, hreaction]
      | some b => cases b <;> simp [ih, Says, hreaction, htrue]
    · next htrue => simp [ih, Says, htrue]

theorem verdict_eq_true_iff {v : Valuation} {allowed : Bool} {contents : List Content} :
    verdict v allowed contents = some true ↔
      (¬∃ c ∈ contents, c.Says v false) ∧ (allowed = true ∨ ∃ c ∈ contents, c.Says v true) := by
  induction contents generalizing allowed with
  | nil => cases allowed <;> simp [verdict]
  | cons c contents ih =>
    rw [verdict, List.exists_mem_cons_iff, List.exists_mem_cons_iff]
    split
    · next htrue =>
      cases hreaction : c.reaction with
      | none => simp [ih, Says, hreaction]
      | some b => cases b <;> simp [ih, Says, hreaction, htrue]
    · next htrue => simp [ih, Says, htrue]

/-- **The verdict depends on which reactions go with a tree that is true**, and on nothing else. -/
theorem verdict_congr {v : Valuation} {contents contents' : List Content}
    (h : ∀ reaction, (∃ c ∈ contents, c.Says v reaction) ↔ ∃ c ∈ contents', c.Says v reaction)
    (allowed : Bool) : verdict v allowed contents = verdict v allowed contents' := by
  have hfalse : verdict v allowed contents = some false ↔ verdict v allowed contents' = some false := by
    rw [verdict_eq_false_iff, verdict_eq_false_iff, h]
  have htrue : verdict v allowed contents = some true ↔ verdict v allowed contents' = some true := by
    rw [verdict_eq_true_iff, verdict_eq_true_iff, h, h]
  exact Kleene.ext htrue hfalse

end Content
end PolicyDecision
