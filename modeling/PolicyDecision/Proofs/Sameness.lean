import PolicyDecision.Policy

/-!
# Equality of values

Values are equal if they differ in nothing but the signs of zeros. A value in standard form has no such sign
(`Json.standard`), and two values are equal exactly if they have the same standard form (`Json.beq_iff`). The
same goes for whatever has values in it: clauses, restrictors, trees and contents. So their equality is
reflexive, symmetric and transitive.
-/

namespace PolicyDecision

/-- What is told by a function is told by equality of its results. -/
theorem equivBEq_of_beq_iff {α β : Type} [BEq α] {f : α → β}
    (h : ∀ a b : α, (a == b) = true ↔ f a = f b) : EquivBEq α where
  rfl {a} := (h a a).2 rfl
  symm {a b} hab := (h b a).2 ((h a b).1 hab).symm
  trans {a b c} hab hbc := (h a c).2 (((h a b).1 hab).trans ((h b c).1 hbc))

theorem list_beq_iff {α β : Type} [BEq α] {f : α → β} (h : ∀ a b : α, (a == b) = true ↔ f a = f b)
    (as bs : List α) : (as == bs) = true ↔ as.map f = bs.map f := by
  induction as generalizing bs with
  | nil => cases bs <;> simp
  | cons a as ih =>
    cases bs with
    | nil => simp
    | cons b bs =>
      rw [List.cons_beq_cons, Bool.and_eq_true, h, ih, List.map_cons, List.map_cons, List.cons.injEq]

/-! ### Numbers -/

/-- The number, without the sign of a zero. -/
def Binary64.standard (x : Binary64) : Binary64 :=
  if x.mantissa = 0 then zero false else x

theorem Binary64.sameValue_iff (x y : Binary64) : x.sameValue y = true ↔ x.standard = y.standard := by
  rw [sameValue, decide_eq_true_eq, standard, standard]
  by_cases hx : x.mantissa = 0 <;> by_cases hy : y.mantissa = 0
  · simp [hx, hy]
  · rw [if_pos hx, if_neg hy]
    refine iff_of_false ?_ ?_
    · rintro (rfl | h)
      · exact hy hx
      · exact hy h.2
    · rintro rfl
      exact hy rfl
  · rw [if_neg hx, if_pos hy]
    refine iff_of_false ?_ ?_
    · rintro (rfl | h)
      · exact hx hy
      · exact hx h.1
    · rintro rfl
      exact hx rfl
  · simp [hx, hy]

@[simp] theorem Binary64.standard_standard (x : Binary64) : x.standard.standard = x.standard := by
  by_cases hzero : x.mantissa = 0
  · simp [standard, hzero, zero]
  · simp [standard, hzero]

def Number.standard : Number → Number
  | .int n => .int n
  | .float x => .float x.standard

theorem Number.sameValue_iff (m n : Number) : m.sameValue n = true ↔ m.standard = n.standard := by
  cases m with
  | int m => cases n <;> simp [sameValue, standard]
  | float x =>
    cases n with
    | int n => simp [sameValue, standard]
    | float y => rw [sameValue, Binary64.sameValue_iff, standard, standard, Number.float.injEq]

@[simp] theorem Number.standard_standard (n : Number) : n.standard.standard = n.standard := by
  cases n <;> simp [standard]

/-! ### Values -/

namespace Json

mutual

/-- The value, without the signs of zeros. -/
def standard : Json → Json
  | .null => .null
  | .bool b => .bool b
  | .number n => .number n.standard
  | .string s => .string s
  | .array items => .array (standardItems items)
  | .object fields => .object (standardFields fields)

def standardItems : List Json → List Json
  | [] => []
  | item :: items => item.standard :: standardItems items

def standardFields : List (String × Json) → List (String × Json)
  | [] => []
  | (key, value) :: fields => (key, value.standard) :: standardFields fields

end

mutual

theorem sameValue_iff : (a b : Json) → (a.sameValue b = true ↔ a.standard = b.standard)
  | .null, b => by cases b <;> simp [sameValue, standard]
  | .bool a, b => by cases b <;> simp [sameValue, standard]
  | .number m, b => by
    cases b with
    | number n => rw [sameValue, Number.sameValue_iff, standard, standard, Json.number.injEq]
    | _ => simp [sameValue, standard]
  | .string s, b => by cases b <;> simp [sameValue, standard]
  | .array as, b => by
    cases b with
    | array bs => rw [sameValue, sameItems_iff as bs, standard, standard, Json.array.injEq]
    | _ => simp [sameValue, standard]
  | .object as, b => by
    cases b with
    | object bs => rw [sameValue, sameFields_iff as bs, standard, standard, Json.object.injEq]
    | _ => simp [sameValue, standard]

theorem sameItems_iff : (as bs : List Json) → (sameItems as bs = true ↔ standardItems as = standardItems bs)
  | [], bs => by cases bs <;> simp [sameItems, standardItems]
  | a :: as, bs => by
    cases bs with
    | nil => simp [sameItems, standardItems]
    | cons b bs =>
      rw [sameItems, Bool.and_eq_true, sameValue_iff a b, sameItems_iff as bs, standardItems, standardItems,
        List.cons.injEq]

theorem sameFields_iff : (as bs : List (String × Json)) →
    (sameFields as bs = true ↔ standardFields as = standardFields bs)
  | [], bs => by cases bs <;> simp [sameFields, standardFields]
  | (key, a) :: as, bs => by
    cases bs with
    | nil => simp [sameFields, standardFields]
    | cons field bs =>
      obtain ⟨key', b⟩ := field
      rw [sameFields, Bool.and_eq_true, Bool.and_eq_true, beq_iff_eq, sameValue_iff a b, sameFields_iff as bs,
        standardFields, standardFields, List.cons.injEq, Prod.mk.injEq]

end

/-- **Values are equal exactly if they have the same standard form.** -/
theorem beq_iff (a b : Json) : (a == b) = true ↔ a.standard = b.standard :=
  sameValue_iff a b

mutual

/-- Standard forms are their own standard forms. -/
theorem standard_standard : (j : Json) → j.standard.standard = j.standard
  | .null => by simp [standard]
  | .bool b => by simp [standard]
  | .number n => by simp [standard]
  | .string s => by simp [standard]
  | .array items => by rw [standard, standard, standardItems_standardItems items]
  | .object fields => by rw [standard, standard, standardFields_standardFields fields]

theorem standardItems_standardItems : (items : List Json) →
    standardItems (standardItems items) = standardItems items
  | [] => by rw [standardItems, standardItems]
  | item :: items => by
    rw [standardItems, standardItems, standard_standard item, standardItems_standardItems items]

theorem standardFields_standardFields : (fields : List (String × Json)) →
    standardFields (standardFields fields) = standardFields fields
  | [] => by rw [standardFields, standardFields]
  | (key, value) :: fields => by
    rw [standardFields, standardFields, standard_standard value, standardFields_standardFields fields]

end

theorem beq_standard (j : Json) : (j == j.standard) = true :=
  (beq_iff _ _).2 (standard_standard j).symm

instance : EquivBEq Json :=
  equivBEq_of_beq_iff beq_iff

theorem standardItems_eq (items : List Json) : standardItems items = items.map standard := by
  induction items with
  | nil => rw [standardItems, List.map_nil]
  | cons item items ih => rw [standardItems, ih, List.map_cons]

theorem standardFields_eq (fields : List (String × Json)) :
    standardFields fields = fields.map fun field => (field.1, field.2.standard) := by
  induction fields with
  | nil => rw [standardFields, List.map_nil]
  | cons field fields ih => rw [standardFields, ih, List.map_cons]

end Json

/-! ### Clauses and restrictors -/

namespace Clause

def standard : Clause → Clause
  | .id target => .id target
  | .subOf target => .subOf target
  | .custom name arg => .custom name arg.standard

theorem beq_iff (c d : Clause) : (c == d) = true ↔ c.standard = d.standard := by
  show c.same d = true ↔ _
  cases c with
  | id target => cases d <;> simp [same, standard]
  | subOf target => cases d <;> simp [same, standard]
  | custom name arg =>
    cases d with
    | custom name' arg' =>
      rw [same, Bool.and_eq_true, decide_eq_true_eq, Json.beq_iff, standard, standard, Clause.custom.injEq]
    | _ => simp [same, standard]

end Clause

namespace Restrictor

def standard : Restrictor → Restrictor
  | .wildcard => .wildcard
  | .noOwner => .noOwner
  | .all clauses => .all (clauses.map Clause.standard)

theorem beq_iff (r s : Restrictor) : (r == s) = true ↔ r.standard = s.standard := by
  show r.same s = true ↔ _
  cases r with
  | wildcard => cases s <;> simp [same, standard]
  | noOwner => cases s <;> simp [same, standard]
  | all cs =>
    cases s with
    | all ds => rw [same, list_beq_iff Clause.beq_iff, standard, standard, Restrictor.all.injEq]
    | _ => simp [same, standard]

end Restrictor

/-! ### Trees and contents -/

mutual

def Condition.standard : Condition → Condition
  | .requester restrictor => .requester restrictor.standard
  | .resourceId id => .resourceId id
  | .access allowed => .access allowed
  | .not tree => .not (Tree.standard tree)
  | .nor trees => .nor (Tree.standardList trees)
  | .or trees => .or (Tree.standardList trees)
  | .and trees => .and (Tree.standardList trees)
  | .custom name arg => .custom name arg.standard

def Tree.standard : List Condition → List Condition
  | [] => []
  | c :: cs => c.standard :: Tree.standard cs

def Tree.standardList : List (List Condition) → List (List Condition)
  | [] => []
  | t :: ts => Tree.standard t :: Tree.standardList ts

end

mutual

theorem Condition.same_iff : (c d : Condition) → (c.same d = true ↔ c.standard = d.standard)
  | .requester r, d => by
    cases d with
    | requester s =>
      rw [Condition.same, Restrictor.beq_iff, Condition.standard, Condition.standard, Condition.requester.injEq]
    | _ => simp [Condition.same, Condition.standard]
  | .resourceId id, d => by cases d <;> simp [Condition.same, Condition.standard]
  | .access a, d => by cases d <;> simp [Condition.same, Condition.standard]
  | .not t, d => by
    cases d with
    | not u =>
      rw [Condition.same, Tree.same_iff t u, Condition.standard, Condition.standard, Condition.not.injEq]
    | _ => simp [Condition.same, Condition.standard]
  | .nor ts, d => by
    cases d with
    | nor us =>
      rw [Condition.same, Tree.sameList_iff ts us, Condition.standard, Condition.standard, Condition.nor.injEq]
    | _ => simp [Condition.same, Condition.standard]
  | .or ts, d => by
    cases d with
    | or us =>
      rw [Condition.same, Tree.sameList_iff ts us, Condition.standard, Condition.standard, Condition.or.injEq]
    | _ => simp [Condition.same, Condition.standard]
  | .and ts, d => by
    cases d with
    | and us =>
      rw [Condition.same, Tree.sameList_iff ts us, Condition.standard, Condition.standard, Condition.and.injEq]
    | _ => simp [Condition.same, Condition.standard]
  | .custom name arg, d => by
    cases d with
    | custom name' arg' =>
      rw [Condition.same, Bool.and_eq_true, decide_eq_true_eq, Json.beq_iff, Condition.standard,
        Condition.standard, Condition.custom.injEq]
    | _ => simp [Condition.same, Condition.standard]

/-- **Trees are equal exactly if they have the same standard form.** -/
theorem Tree.same_iff : (t u : Tree) → (Tree.same t u = true ↔ Tree.standard t = Tree.standard u)
  | [], u => by cases u <;> simp [Tree.same, Tree.standard]
  | c :: cs, u => by
    cases u with
    | nil => simp [Tree.same, Tree.standard]
    | cons d ds =>
      rw [Tree.same, Bool.and_eq_true, Condition.same_iff c d, Tree.same_iff cs ds, Tree.standard,
        Tree.standard, List.cons.injEq]

theorem Tree.sameList_iff : (ts us : List Tree) →
    (Tree.sameList ts us = true ↔ Tree.standardList ts = Tree.standardList us)
  | [], us => by cases us <;> simp [Tree.sameList, Tree.standardList]
  | t :: ts, us => by
    cases us with
    | nil => simp [Tree.sameList, Tree.standardList]
    | cons u us =>
      rw [Tree.sameList, Bool.and_eq_true, Tree.same_iff t u, Tree.sameList_iff ts us, Tree.standardList,
        Tree.standardList, List.cons.injEq]

end

namespace Content

def standard (c : Content) : Content :=
  ⟨Tree.standard c.check, c.reaction⟩

theorem beq_iff_same (c d : Content) :
    (c == d) = true ↔ Tree.same c.check d.check = true ∧ c.reaction = d.reaction := by
  show (Tree.same c.check d.check && decide (c.reaction = d.reaction)) = true ↔ _
  rw [Bool.and_eq_true, decide_eq_true_eq]

theorem beq_iff (c d : Content) : (c == d) = true ↔ c.standard = d.standard := by
  rw [beq_iff_same, Tree.same_iff, standard, standard, Content.mk.injEq]

/-- Contents are equal by an equivalence. -/
instance : EquivBEq Content :=
  equivBEq_of_beq_iff beq_iff

end Content
end PolicyDecision
