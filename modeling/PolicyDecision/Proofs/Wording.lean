import PolicyDecision.Proofs.Compilation
import PolicyDecision.Proofs.Memoless

/-!
# What the text of a restrictor says

A restrictor is written as a word, an object or a list, and each of them says something of an entity: an
object is the conjunction of its fields, a list that of its items, to any depth (`Restrictor.Met`).
Reading the text brings all of it into one list of clauses, and stops at the first `"none"`. No matter
which clauses are met, what is read accepts exactly if the text is met (`Restrictor.accepts_iff_met`).

With the law that compiled restrictors do what restrictors say, a predicate on entities has the value of
the text that it was made of (`Restrictor.compile_wording`).
-/

namespace PolicyDecision

/-- The value is the text of this identifier. -/
def Json.Names (value : Json) (target : EntityId) : Prop :=
  ∃ text, value = .string text ∧ Id.parse? .entity text = some target

section Except

variable {ε α β : Type} {x : Except ε α} {b : β}

theorem bind_eq_ok {f : α → Except ε β} : x >>= f = .ok b ↔ ∃ a, x = .ok a ∧ f a = .ok b := by
  cases x with
  | error e => simp [bind, Except.bind]
  | ok a => simp [bind, Except.bind]

theorem bind_pure_eq_ok {f : α → β} :
    (x >>= fun a => pure (f a)) = .ok b ↔ ∃ a, x = .ok a ∧ f a = b := by
  simp only [bind_eq_ok, pure, Except.pure, Except.ok.injEq]

theorem map_eq_ok {f : α → β} : f <$> x = .ok b ↔ ∃ a, x = .ok a ∧ f a = b := by
  cases x with
  | error e => simp [Functor.map, Except.map]
  | ok a => simp [Functor.map, Except.map]

end Except

theorem Json.Names.exists_iff {value : Json} {target : EntityId} (h : value.Names target)
    {Q : EntityId → Prop} : (∃ id, value.Names id ∧ Q id) ↔ Q target := by
  obtain ⟨text, rfl, hparse⟩ := h
  simp [Json.Names, hparse]

namespace Restrictor

variable (P : Clause → Prop)

/-- Whether a field of an object is met, where `P` tells which clauses are. -/
def FieldMet (key : String) (value : Json) : Prop :=
  if key = "id" then
    value = .string "*" ∨ (value ≠ .string "none" ∧ ∃ target, value.Names target ∧ P (.id target))
  else if key = "subof" then
    value = .string "*" ∨ ∃ target, value.Names target ∧ P (.subOf target)
  else P (.custom key value)

mutual

/-- Whether a text is met, where `P` tells which clauses are. -/
def Met : Json → Prop
  | .null => True
  | .string word => word = "*"
  | .object fields => ∀ field ∈ fields, FieldMet P field.1 field.2
  | .array items => EachMet items
  | .bool _ | .number _ => False

/-- Whether each text of a list is met. -/
def EachMet : List Json → Prop
  | [] => True
  | item :: items => Met item ∧ EachMet items

end

mutual

/-- A `"none"` occurs in the text. -/
def MentionsNone : Json → Prop
  | .string word => word = "none"
  | .object fields => ("id", .string "none") ∈ fields
  | .array items => SomeMentionNone items
  | .null | .bool _ | .number _ => False

def SomeMentionNone : List Json → Prop
  | [] => False
  | item :: items => MentionsNone item ∨ SomeMentionNone items

end

theorem eachMet_iff {items : List Json} : EachMet P items ↔ ∀ item ∈ items, Met P item := by
  induction items with
  | nil => simp [EachMet]
  | cons item items ih => simp [EachMet, ih]

theorem someMentionNone_iff {items : List Json} :
    SomeMentionNone items ↔ ∃ item ∈ items, MentionsNone item := by
  induction items with
  | nil => simp [SomeMentionNone]
  | cons item items ih => simp [SomeMentionNone, ih]

mutual

/-- Nothing meets a text with a `"none"`. -/
theorem not_met_of_mentionsNone : (v : Json) → MentionsNone v → ¬Met P v
  | .null => by simp [MentionsNone]
  | .bool _ => by simp [MentionsNone]
  | .number _ => by simp [MentionsNone]
  | .string word => by
    rw [MentionsNone, Met]
    rintro rfl
    decide
  | .object fields => by
    rw [MentionsNone, Met]
    intro hnone hmet
    simpa [FieldMet] using hmet _ hnone
  | .array items => by
    rw [MentionsNone, Met]
    exact not_eachMet_of_someMentionNone items

theorem not_eachMet_of_someMentionNone : (items : List Json) → SomeMentionNone items →
    ¬EachMet P items
  | [] => by simp [SomeMentionNone]
  | item :: items => by
    rw [SomeMentionNone, EachMet]
    rintro (hitem | hitems) ⟨hmet, hmets⟩
    · exact not_met_of_mentionsNone item hitem hmet
    · exact not_eachMet_of_someMentionNone items hitems hmets

end

/-! ### What is read of a text -/

/-- Whether a restrictor accepts, where `P` tells which clauses are met. -/
def Accepts : Restrictor → Prop
  | .wildcard => True
  | .noOwner => False
  | .all clauses => ∀ clause ∈ clauses, P clause

/-- One more clause. -/
theorem accepts_cons (clause : Clause) (rest : Option (List Clause)) :
    ((rest.map (clause :: ·)).elim noOwner all).Accepts P ↔
      P clause ∧ (rest.elim noOwner all).Accepts P := by
  cases rest with
  | none => simp [Accepts]
  | some clauses => simp [Accepts]

theorem accepts_append (clauses : List Clause) (rest : Option (List Clause)) :
    ((rest.map (clauses ++ ·)).elim noOwner all).Accepts P ↔
      (∀ clause ∈ clauses, P clause) ∧ (rest.elim noOwner all).Accepts P := by
  cases rest with
  | none => simp [Accepts]
  | some clauses' => simp [Accepts, or_imp, forall_and]

theorem isWord_iff {word : String} {value : Json} : isWord word value = true ↔ value = .string word := by
  cases value <;> simp [isWord]

theorem target_eq_ok_iff {key : String} {value : Json} {target : EntityId} :
    Restrictor.target key value = .ok target ↔ value.Names target := by
  cases value with
  | string text =>
    rw [Restrictor.target]
    cases hparse : Id.parse? .entity text with
    | none => simp [Json.Names, hparse]
    | some id => simp [Json.Names, hparse]
  | _ => simp [Restrictor.target, Json.Names]

/-- What a field of an object can be read as: nothing, a refusal of everything, or a clause, which is met
if the field is. -/
theorem clausesOfFields_cons_cases {key : String} {value : Json} {fields : List (String × Json)}
    {read : Option (List Clause)} (h : clausesOfFields ((key, value) :: fields) = .ok read) :
    ((∀ P, FieldMet P key value) ∧ clausesOfFields fields = .ok read) ∨
    (key = "id" ∧ value = .string "none" ∧ read = none) ∨
    ∃ clause rest, (∀ P, FieldMet P key value ↔ P clause) ∧ clausesOfFields fields = .ok rest ∧
      rest.map (clause :: ·) = read := by
  rw [clausesOfFields] at h
  split at h
  · next hstar =>
    obtain ⟨hkey, hword⟩ := hstar
    obtain rfl := isWord_iff.1 hword
    refine .inl ⟨fun P => ?_, h⟩
    simp only [Clause.builtins, List.mem_cons, List.not_mem_nil, or_false] at hkey
    rcases hkey with rfl | rfl
    · simp [FieldMet]
    · simp [FieldMet]
  · next hstar =>
    rw [isWord_iff] at hstar
    split at h
    · next hnone =>
      obtain ⟨rfl, hword⟩ := hnone
      obtain rfl := isWord_iff.1 hword
      cases h
      exact .inr (.inl ⟨rfl, rfl, rfl⟩)
    · next hnone =>
      rw [isWord_iff] at hnone
      refine .inr (.inr ?_)
      split at h
      · next hid =>
        subst hid
        obtain ⟨clause, hclause, h⟩ := bind_eq_ok.1 h
        obtain ⟨rest, hrest, hread⟩ := bind_pure_eq_ok.1 h
        obtain ⟨target, htarget, rfl⟩ := map_eq_ok.1 hclause
        refine ⟨.id target, rest, fun P => ?_, hrest, hread⟩
        have hstar' : value ≠ .string "*" := fun hvalue => hstar ⟨by decide, hvalue⟩
        have hnone' : value ≠ .string "none" := fun hvalue => hnone ⟨rfl, hvalue⟩
        simp [FieldMet, hstar', hnone', (target_eq_ok_iff.1 htarget).exists_iff]
      · next hid =>
        split at h
        · next hsubof =>
          subst hsubof
          obtain ⟨clause, hclause, h⟩ := bind_eq_ok.1 h
          obtain ⟨rest, hrest, hread⟩ := bind_pure_eq_ok.1 h
          obtain ⟨target, htarget, rfl⟩ := map_eq_ok.1 hclause
          refine ⟨.subOf target, rest, fun P => ?_, hrest, hread⟩
          have hstar' : value ≠ .string "*" := fun hvalue => hstar ⟨by decide, hvalue⟩
          simp [FieldMet, hstar', (target_eq_ok_iff.1 htarget).exists_iff]
        · next hsubof =>
          obtain ⟨rest, hrest, hread⟩ := bind_pure_eq_ok.1 h
          refine ⟨.custom key value, rest, fun P => ?_, hrest, hread⟩
          simp [FieldMet, hid, hsubof]

/-- What is read of an object accepts what its fields say. -/
theorem accepts_clausesOfFields {fields : List (String × Json)} {read : Option (List Clause)}
    (h : clausesOfFields fields = .ok read) :
    (read.elim noOwner all).Accepts P ↔ ∀ field ∈ fields, FieldMet P field.1 field.2 := by
  induction fields generalizing read with
  | nil =>
    cases h
    simp [Accepts]
  | cons field fields ih =>
    obtain ⟨key, value⟩ := field
    rw [List.forall_mem_cons]
    rcases clausesOfFields_cons_cases h with
      ⟨hmet, hrest⟩ | ⟨rfl, rfl, rfl⟩ | ⟨clause, rest, hmet, hrest, rfl⟩
    · rw [ih hrest, and_iff_right (hmet P)]
    · simp [Accepts, FieldMet]
    · rw [accepts_cons, ih hrest, hmet P]

mutual

/-- **What is read of a text accepts if the text is met.** -/
theorem accepts_iff_met : (v : Json) → {r : Restrictor} → ofJson v = .ok r →
    (r.Accepts P ↔ Met P v)
  | .null, r, h => by
    cases h
    simp [Accepts, Met]
  | .bool b, r, h => by simp [ofJson] at h
  | .number n, r, h => by simp [ofJson] at h
  | .string word, r, h => by
    rw [ofJson] at h
    rw [Met]
    split at h
    · next hstar =>
      cases h
      simp [Accepts, hstar]
    · next hstar =>
      split at h
      · cases h
        simp [Accepts, hstar]
      · cases h
  | .object fields, r, h => by
    rw [ofJson] at h
    obtain ⟨read, hread, rfl⟩ := bind_pure_eq_ok.1 h
    rw [Met]
    exact accepts_clausesOfFields P hread
  | .array items, r, h => by
    rw [ofJson] at h
    obtain ⟨read, hread, rfl⟩ := bind_pure_eq_ok.1 h
    rw [Met]
    exact accepts_clausesOfItems items hread

theorem accepts_clausesOfItems : (items : List Json) → {read : Option (List Clause)} →
    clausesOfItems items = .ok read → ((read.elim noOwner all).Accepts P ↔ EachMet P items)
  | [], read, h => by
    rw [clausesOfItems] at h
    cases h
    simp [Accepts, EachMet]
  | item :: items, read, h => by
    rw [clausesOfItems] at h
    obtain ⟨r, hitem, h⟩ := bind_eq_ok.1 h
    rw [EachMet, ← accepts_iff_met item hitem]
    cases r with
    | wildcard =>
      rw [accepts_clausesOfItems items h]
      simp [Accepts]
    | noOwner =>
      cases h
      simp [Accepts]
    | all clauses =>
      obtain ⟨rest, hrest, rfl⟩ := bind_pure_eq_ok.1 h
      rw [accepts_append, accepts_clausesOfItems items hrest]
      simp [Accepts]

end

/-- A text is read as no owner at all if a `"none"` occurs in it. -/
theorem eq_noOwner_of_mentionsNone {v : Json} {r : Restrictor} (h : ofJson v = .ok r)
    (hnone : MentionsNone v) : r = .noOwner := by
  have hrefused : ¬r.Accepts fun _ => True :=
    mt (accepts_iff_met _ v h).1 (not_met_of_mentionsNone _ v hnone)
  cases r with
  | wildcard => exact absurd trivial hrefused
  | noOwner => rfl
  | all clauses => exact absurd (fun _ _ => trivial) hrefused

theorem mem_of_clausesOfFields {fields : List (String × Json)} (h : clausesOfFields fields = .ok none) :
    ("id", .string "none") ∈ fields := by
  induction fields with
  | nil => cases h
  | cons field fields ih =>
    obtain ⟨key, value⟩ := field
    rcases clausesOfFields_cons_cases h with
      ⟨-, hrest⟩ | ⟨rfl, rfl, -⟩ | ⟨clause, rest, -, hrest, hread⟩
    · exact List.mem_cons_of_mem _ (ih hrest)
    · exact List.mem_cons_self
    · cases rest with
      | none => exact List.mem_cons_of_mem _ (ih hrest)
      | some clauses => cases hread

mutual

/-- A text is read as no owner at all only if a `"none"` occurs in it. -/
theorem mentionsNone_of_ofJson : (v : Json) → ofJson v = .ok .noOwner → MentionsNone v
  | .null, h => by cases h
  | .bool b, h => by simp [ofJson] at h
  | .number n, h => by simp [ofJson] at h
  | .string word, h => by
    rw [ofJson] at h
    rw [MentionsNone]
    split at h
    · cases h
    · split at h
      · assumption
      · cases h
  | .object fields, h => by
    rw [ofJson] at h
    obtain ⟨read, hread, helim⟩ := bind_pure_eq_ok.1 h
    cases read with
    | some clauses => cases helim
    | none =>
      rw [MentionsNone]
      exact mem_of_clausesOfFields hread
  | .array items, h => by
    rw [ofJson] at h
    obtain ⟨read, hread, helim⟩ := bind_pure_eq_ok.1 h
    cases read with
    | some clauses => cases helim
    | none =>
      rw [MentionsNone]
      exact someMentionNone_of_clausesOfItems items hread

theorem someMentionNone_of_clausesOfItems : (items : List Json) → clausesOfItems items = .ok none →
    SomeMentionNone items
  | [], h => by simp [clausesOfItems] at h
  | item :: items, h => by
    rw [clausesOfItems] at h
    obtain ⟨r, hitem, h⟩ := bind_eq_ok.1 h
    rw [SomeMentionNone]
    cases r with
    | wildcard => exact .inr (someMentionNone_of_clausesOfItems items h)
    | noOwner => exact .inl (mentionsNone_of_ofJson item hitem)
    | all clauses =>
      obtain ⟨rest, hrest, hread⟩ := bind_pure_eq_ok.1 h
      cases rest with
      | none => exact .inr (someMentionNone_of_clausesOfItems items hrest)
      | some clauses' => cases hread

end

theorem eq_noOwner_iff {v : Json} {r : Restrictor} (h : ofJson v = .ok r) :
    r = .noOwner ↔ MentionsNone v := by
  refine ⟨?_, eq_noOwner_of_mentionsNone h⟩
  rintro rfl
  exact mentionsNone_of_ofJson v h

end Restrictor

/-! ### Clauses of an entity -/

section Holds

variable {entities : Table Entity} {entity : Entity} {ops : Operators Entity}

/-- Whether an entity meets a clause. -/
def Clause.IsMet (entities : Table Entity) (ops : Operators Entity) (entity : Entity) : Clause → Prop
  | .id target => entity.id = target
  | .subOf target => target = entity.id ∨ (entities.upsert entity).Ancestor entity.id target
  | .custom name arg => ops.ask name arg entity = .ok true

/-- Whether a clause can be told of an entity: nothing is missing on the way up, and no custom operator
fails. -/
def Clause.IsTold (entities : Table Entity) (ops : Operators Entity) (entity : Entity)
    (clause : Clause) : Prop :=
  ∃ holds, (clause.holds ops entity ⟨entities, none⟩).result = .ok holds

theorem Clause.holds_sound {clause : Clause} {holds : Bool}
    (h : (clause.holds ops entity ⟨entities, none⟩).result = .ok holds) :
    holds = true ↔ clause.IsMet entities ops entity := by
  cases clause with
  | id target =>
    cases h
    exact decide_eq_true_iff
  | subOf target => exact Graph.isSubOf_sound h
  | custom name arg =>
    have hask : ops.ask name arg entity = .ok holds := h
    rw [IsMet, hask, Except.ok.injEq]

variable (entities entity ops)

/-- Without a memo, a list of clauses is told one by one: it holds if all of them are met, and if all of
them can be told, it can be. -/
theorem Clause.allHold_told (clauses : List Clause) :
    let told := (Clause.allHold ops entity clauses ⟨entities, none⟩).result
    (∀ holds, told = .ok holds → (holds = true ↔ ∀ c ∈ clauses, c.IsMet entities ops entity)) ∧
      ((∀ c ∈ clauses, c.IsTold entities ops entity) → ∃ holds, told = .ok holds) := by
  induction clauses with
  | nil =>
    refine ⟨fun holds h => ?_, fun _ => ⟨true, rfl⟩⟩
    cases h
    simp
  | cons clause clauses ih =>
    obtain ⟨hsound, htold⟩ := ih
    simp only [Clause.allHold, List.forall_mem_cons]
    have hstate : (clause.holds ops entity ⟨entities, none⟩).state = ⟨entities, none⟩ :=
      (clause.steady_holds_of (Graph.steady_isSubOf entities entity) ops).inv rfl
    cases hclause : (clause.holds ops entity ⟨entities, none⟩).result with
    | error e =>
      rw [Act.bind_error hclause]
      constructor
      · intro holds h
        cases h
      · rintro ⟨⟨holds, hholds⟩, -⟩
        rw [hclause] at hholds
        cases hholds
    | ok first =>
      rw [Act.bind_ok hclause, hstate, ← Clause.holds_sound hclause]
      cases first with
      | false =>
        refine ⟨fun holds h => ?_, fun _ => ⟨false, rfl⟩⟩
        cases h
        simp
      | true => exact ⟨fun holds h => by simpa using hsound holds h, fun h => htold h.2⟩

theorem Restrictor.holds_told (restrictor : Restrictor) :
    let told := (restrictor.holds ops entity ⟨entities, none⟩).result
    (∀ holds, told = .ok holds →
        (holds = true ↔ restrictor.Accepts (Clause.IsMet entities ops entity))) ∧
      (restrictor.Accepts (Clause.IsTold entities ops entity) → ∃ holds, told = .ok holds) := by
  cases restrictor with
  | wildcard =>
    refine ⟨fun holds h => ?_, fun _ => ⟨true, rfl⟩⟩
    cases h
    simp [Accepts]
  | noOwner =>
    refine ⟨fun holds h => ?_, fun _ => ⟨false, rfl⟩⟩
    cases h
    simp [Accepts]
  | all clauses => exact Clause.allHold_told entities entity ops clauses

end Holds

/-- **A compiled restrictor has the value of its text.** Without memos, let a text be read and made a
predicate of. If the predicate answers, it answers whether the entity meets the text; it answers if each
clause of the text can be told of the entity; and where a `"none"` occurs, it answers no, whatever else
the text says. -/
theorem Restrictor.compile_wording {ops : Operators Entity} {v : Json} {restrictor : Restrictor}
    (hread : ofJson v = .ok restrictor) {p : EntityPredicate}
    (hp : (restrictor.compile ops ()).result = .ok p) (entities : Table Entity) (entity : Entity) :
    let evaluated := (p.eval entity ⟨entities, none⟩).result
    (∀ holds, evaluated = .ok holds → (holds = true ↔ Met (Clause.IsMet entities ops entity) v)) ∧
      (Met (Clause.IsTold entities ops entity) v → ∃ holds, evaluated = .ok holds) ∧
      (MentionsNone v → evaluated = .ok false) := by
  intro evaluated
  have hmakes := Restrictor.makes_compile { entityOps := ops } restrictor
  have hholds : evaluated = (restrictor.holds ops entity ⟨entities, none⟩).result := by
    rw [← (hmakes.ok p hp).2 entity]
  obtain ⟨hsound, htold⟩ := restrictor.holds_told entities entity ops
  rw [hholds, ← accepts_iff_met _ v hread, ← accepts_iff_met _ v hread]
  refine ⟨hsound, htold, fun hnone => ?_⟩
  rw [eq_noOwner_of_mentionsNone hread hnone]
  rfl

/-- Who is in the group meets a list of lists, and nobody does once `"none"` is in it. -/
theorem Restrictor.compile_wording_nested :
    let entity : Entity := .withParents ⟨⟨1⟩⟩ [⟨⟨2⟩⟩]
    let group : Json := .object [("subof", .string "00000000-0000-0000-0000-000000000002")]
    let members : Json := .array [.null, .array [group, .string "*"], .object [("id", .string "*")]]
    let nobody : Json := .array [group, .array [.object [("id", .string "none")]]]
    ofJson members = .ok (.all [.subOf ⟨⟨2⟩⟩]) ∧ ofJson nobody = .ok .noOwner ∧
      Met (Clause.IsMet .empty .forEntities entity) members ∧
      (EntityPredicate.eval (.constant false) entity ⟨.empty, none⟩).result = .ok false := by
  intro entity group members nobody
  have hmembers : ofJson members = .ok (.all [.subOf ⟨⟨2⟩⟩]) := rfl
  have hnobody : ofJson nobody = .ok .noOwner := rfl
  have hcompiled : (compile .forEntities (.all [.subOf ⟨⟨2⟩⟩]) ()).result =
      .ok (.test (.isSubOf ⟨⟨2⟩⟩)) := rfl
  have hconstant : (compile .forEntities .noOwner ()).result = .ok (.constant false) := rfl
  obtain ⟨hsound, -, -⟩ := compile_wording hmembers hcompiled .empty entity
  obtain ⟨-, -, hnone⟩ := compile_wording hnobody hconstant .empty entity
  refine ⟨hmembers, hnobody, (hsound true rfl).1 rfl, hnone ?_⟩
  simp [nobody, MentionsNone, SomeMentionNone]

end PolicyDecision
