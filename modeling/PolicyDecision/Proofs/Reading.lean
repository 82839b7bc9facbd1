import Mathlib.Data.List.Perm.Basic
import PolicyDecision.Proofs.Printing
import PolicyDecision.Proofs.Truth

/-!
# What is written is read back alike

A tree in which no custom key is named like a built-in one is read back from its written form, as a
tree that is alike (`Tree.ofJson_toJson`). It need not be the same tree: an object has its names in
order, and of several conditions under one key all but the first are written under `and`.

Reading depends on nothing but the written form, so two such trees that are written alike are alike
(`Tree.alike_of_compact_eq`). This is what makes a written form fit to stand for a tree.
-/

namespace PolicyDecision

/-! ### Identifiers -/

namespace Uuid

theorem length_group {ds : List Char} (h : ds.length = 32) : (group ds).length = 36 := by
  simp [group, h]

/-- Groups of digits are read as the digits. -/
theorem ofGrouped?_group {ds : List Char} (h : ds.length = 32) :
    ofGrouped? (group ds) = ofBare? ds := by
  have hjoin : ∀ n m, (ds.drop n).take m ++ ds.drop (n + m) = ds.drop n := by
    intro n m
    rw [← List.drop_drop, List.take_append_drop]
  rw [ofGrouped?, group, if_pos]
  · congr 1
    have hgroups : ds.take 8 ++ ((ds.drop 8).take 4 ++ ((ds.drop 12).take 4 ++
        ((ds.drop 16).take 4 ++ ds.drop 20))) = ds := by
      rw [hjoin 16 4, hjoin 12 4, hjoin 8 4, List.take_append_drop]
    simpa [h, List.take_append, List.drop_append, List.drop_eq_nil_of_le] using hgroups
  · simp [h]

theorem parse?_toString (u : Uuid) : parse? u.toString = some u := by
  have hlength : (Hex.digits 32 u.bits.toNat).length = 32 := Hex.length_digits _ _
  have hbare : ofBare? (group (Hex.digits 32 u.bits.toNat)) = none := by
    rw [ofBare?, if_neg]
    rw [length_group hlength]
    decide
  have hread : ofBare? (Hex.digits 32 u.bits.toNat) = some u := by
    have hpow : Nat.pow 16 32 = 2 ^ 128 := by decide
    rw [ofBare?, if_pos hlength, Hex.read_digits, hpow, Nat.mod_eq_of_lt u.bits.isLt,
      Option.map_some, BitVec.ofNat_toNat, BitVec.setWidth_eq]
  rw [parse?, toString, String.toList_ofList, hbare, ofGrouped?_group hlength, hread]
  rfl

end Uuid

namespace Id

variable {kind : Kind} (id : Id kind)

/-- An identifier is read from its printed form. -/
@[simp] theorem parse?_toString : parse? kind (toString id) = some id := by
  show (Uuid.parse? id.uuid.toString).map Id.mk = some id
  rw [Uuid.parse?_toString]
  rfl

theorem length_toString : (toString id).length = 36 := by
  show (Uuid.toString id.uuid).length = 36
  rw [Uuid.toString, String.length_ofList, Uuid.length_group (Hex.length_digits _ _)]

/-- The printed form is none of the words that may stand in its place. -/
theorem toString_ne {word : String} (h : word.length ≠ 36) : toString id ≠ word := by
  rintro rfl
  exact h (length_toString id)

end Id

/-! ### Objects -/

namespace Fields

variable {β : Type} {key : String} {fields : List (String × β)}

/-- A new name is put somewhere among the others. -/
theorem perm_insert (value : β) (h : fields.lookup key = none) :
    (insert key value fields).Perm ((key, value) :: fields) := by
  induction fields with
  | nil => exact .refl _
  | cons field rest ih =>
    obtain ⟨k, v⟩ := field
    rw [List.lookup_cons] at h
    rw [insert]
    split
    · exact .refl _
    · split
      · split at h
        · cases h
        · exact ((ih h).cons (k, v)).trans (.swap _ _ _)
      · next hlt hgt =>
        rw [eq_of_not_lt hlt hgt, beq_self_eq_true] at h
        cases h

/-- A name in use gets another value in place of the one that it has. -/
theorem perm_replace {value : β} (hinc : Increasing fields) (h : fields.lookup key = some value) :
    ∃ rest, fields.Perm ((key, value) :: rest) ∧
      ∀ value', (insert key value' fields).Perm ((key, value') :: rest) := by
  induction fields with
  | nil => cases h
  | cons field rest ih =>
    obtain ⟨k, v⟩ := field
    obtain ⟨hk, hrest⟩ := List.pairwise_cons.1 hinc
    rw [List.lookup_cons] at h
    by_cases hkey : key = k
    · subst hkey
      rw [beq_self_eq_true] at h
      cases h
      refine ⟨rest, .refl _, fun value' => ?_⟩
      rw [insert, if_neg (String.lt_irrefl key), if_neg (String.lt_irrefl key)]
    · have hne : (key == k) = false := beq_eq_false_iff_ne.2 hkey
      rw [hne] at h
      -- The names that follow are greater, so the one that is looked for is not less than `k`.
      have hlt : ¬key < k := by
        intro hlt
        obtain ⟨before, after, hsplit, -⟩ := List.lookup_eq_some_iff.1 h
        have hmem : (key, value) ∈ rest := by
          rw [hsplit]
          exact List.mem_append_right before List.mem_cons_self
        exact String.lt_irrefl key (String.lt_trans hlt (hk _ hmem))
      have hgt : k < key := by
        by_contra hgt
        exact hkey (eq_of_not_lt hlt hgt)
      obtain ⟨others, hperm, hperm'⟩ := ih hrest h
      refine ⟨(k, v) :: others, (hperm.cons _).trans (.swap _ _ _), fun value' => ?_⟩
      rw [insert, if_neg hlt, if_pos hgt]
      exact ((hperm' value').cons _).trans (.swap _ _ _)

theorem lookup_eq_none (h : key ∉ fields.map Prod.fst) : fields.lookup key = none := by
  rw [List.lookup_eq_none_iff]
  intro field hfield
  have hne : key ≠ field.1 := fun heq => h (heq ▸ List.mem_map_of_mem hfield)
  simpa using hne

section Nodup

variable {kept rest : List (String × β)} {field : String × β}
  (h : ((kept ++ field :: rest).map Prod.fst).Nodup)
include h

/-- Where names are distinct, the next one is not among those that were kept. -/
theorem lookup_of_nodup : kept.lookup field.1 = none := by
  apply lookup_eq_none
  intro hmem
  rw [List.map_append] at h
  exact (List.nodup_append.1 h).2.2 _ hmem _ List.mem_cons_self rfl

theorem perm_insert_append : (insert field.1 field.2 kept ++ rest).Perm (kept ++ field :: rest) :=
  ((perm_insert field.2 (lookup_of_nodup h)).append_right rest).trans List.perm_middle.symm

theorem nodup_insert_append : ((insert field.1 field.2 kept ++ rest).map Prod.fst).Nodup :=
  ((perm_insert_append h).map Prod.fst).nodup_iff.2 h

end Nodup

/-- Fields of distinct names are all kept. -/
theorem perm_ofList (h : (fields.map Prod.fst).Nodup) : (ofList fields).Perm fields := by
  suffices hfold : ∀ kept : List (String × β), ((kept ++ fields).map Prod.fst).Nodup →
      (fields.foldl (fun kept field => insert field.1 field.2 kept) kept).Perm (kept ++ fields) from
    hfold [] h
  clear h
  induction fields with
  | nil => intro kept _; rw [List.append_nil]; exact .refl _
  | cons field rest ih =>
    intro kept hnodup
    rw [List.foldl_cons]
    exact (ih _ (nodup_insert_append hnodup)).trans (perm_insert_append hnodup)

end Fields

/-- A list that is a reordering of the images of some others is the images of a reordering. -/
theorem exists_perm_of_map {α β : Type} {f : α → β} {as : List α} {bs : List β}
    (h : bs.Perm (as.map f)) : ∃ as' : List α, as'.Perm as ∧ bs = as'.map f := by
  have hforall : List.Forall₂ (fun b a => b = f a) (as.map f) as := by
    rw [List.forall₂_map_left_iff]
    exact List.forall₂_same.2 fun _ _ => rfl
  obtain ⟨as', hbs, hperm⟩ := List.perm_comp_forall₂ h hforall
  refine ⟨as', hperm, ?_⟩
  clear h hperm
  induction hbs with
  | nil => rfl
  | cons heq _ ih => rw [heq, ih, List.map_cons]

/-! ### Restrictors -/

/-- The clause is not a custom one named like a built-in key. -/
def Clause.Unshadowed (clause : Clause) : Prop :=
  ∀ name arg, clause = .custom name arg → name ∉ Clause.builtins

namespace Restrictor

/-- The same truth value whatever the leaves answer, and the same leaves up to order. -/
structure Alike (r s : Restrictor) : Prop where
  truth : ∀ v, r.truth v = s.truth v
  leaves : r.leaves.Perm s.leaves

theorem alike_all {clauses clauses' : List Clause} (h : clauses.Perm clauses') :
    Alike (.all clauses) (.all clauses') where
  truth v := by
    rw [truth, truth, Kleene.all_perm (h.map fun c => v (.clause c))]
  leaves := (h.map Leaf.clause).cons _

/-- The same restrictor but for the order of its clauses. -/
inductive Reordered : Restrictor → Restrictor → Prop
  | wildcard : Reordered .wildcard .wildcard
  | noOwner : Reordered .noOwner .noOwner
  | all {clauses clauses' : List Clause} (h : clauses.Perm clauses') :
      Reordered (.all clauses) (.all clauses')

theorem Reordered.alike {r s : Restrictor} (h : Reordered r s) : Alike r s := by
  cases h with
  | wildcard => exact ⟨fun _ => rfl, .refl _⟩
  | noOwner => exact ⟨fun _ => rfl, .refl _⟩
  | all hperm => exact alike_all hperm

theorem unshadowed_of_mem {clauses : List Clause} (h : (all clauses).shadowedBuiltin? = none)
    {clause : Clause} (hclause : clause ∈ clauses) : clause.Unshadowed := by
  rintro name arg rfl
  simpa using List.findSome?_eq_none_iff.1 h _ hclause

variable {clause : Clause} (hclause : clause.Unshadowed)
include hclause

/-- A clause is read from its key and value, before the fields that follow. -/
theorem clausesOfFields_cons (fields : List (String × Json)) :
    clausesOfFields ((clause.key, clause.value) :: fields) =
      (do return (← clausesOfFields fields).map (clause :: ·)) := by
  rw [clausesOfFields]
  cases clause with
  | id target =>
    have hstar : toString target ≠ "*" := target.toString_ne (by decide)
    have hnone : toString target ≠ "none" := target.toString_ne (by decide)
    simp [Clause.key, Clause.value, isWord, hstar, hnone, Restrictor.target, Functor.map,
      Except.map, bind, Except.bind]
  | subOf target =>
    have hstar : toString target ≠ "*" := target.toString_ne (by decide)
    simp [Clause.key, Clause.value, isWord, hstar, Restrictor.target, Functor.map,
      Except.map, bind, Except.bind]
  | custom name arg =>
    have hname := hclause name arg rfl
    have hid : name ≠ "id" := fun h => hname (by simp [h, Clause.builtins])
    have hsubof : name ≠ "subof" := fun h => hname (by simp [h, Clause.builtins])
    simp [Clause.key, Clause.value, hname, hid, hsubof]

/-- A clause that is written as an object of its own is read as a restrictor of its own. -/
theorem ofJson_single : ofJson (.single clause.key clause.value) = .ok (.all [clause]) := by
  rw [Json.single, ofJson, clausesOfFields_cons hclause]
  rfl

end Restrictor

namespace Restrictor

theorem clausesOfFields_map {clauses : List Clause} (h : ∀ c ∈ clauses, c.Unshadowed) :
    clausesOfFields (clauses.map fun c => (c.key, c.value)) = .ok (some clauses) := by
  induction clauses with
  | nil => rfl
  | cons clause clauses ih =>
    obtain ⟨hclause, hclauses⟩ := List.forall_mem_cons.1 h
    rw [List.map_cons, clausesOfFields_cons hclause, ih hclauses]
    rfl

theorem clausesOfItems_map {clauses : List Clause} (h : ∀ c ∈ clauses, c.Unshadowed) :
    clausesOfItems (clauses.map fun c => .single c.key c.value) = .ok (some clauses) := by
  induction clauses with
  | nil => rfl
  | cons clause clauses ih =>
    obtain ⟨hclause, hclauses⟩ := List.forall_mem_cons.1 h
    rw [List.map_cons, clausesOfItems, ofJson_single hclause, ih hclauses]
    rfl

/-- Clauses of distinct keys are read back in the order of their keys. -/
theorem ofJson_toJson_of_nodup {clauses : List Clause} (h : ∀ c ∈ clauses, c.Unshadowed)
    (hnodup : (clauses.map Clause.key).Nodup) :
    ∃ clauses', clauses'.Perm clauses ∧
      clauses'.map (fun c => (c.key, c.value)) = Fields.ofList (clauses.map fun c => (c.key, c.value)) ∧
      ofJson (all clauses).toJson = .ok (.all clauses') := by
  have hperm : (Fields.ofList (clauses.map fun c => (c.key, c.value))).Perm
      (clauses.map fun c => (c.key, c.value)) := Fields.perm_ofList (by rwa [List.map_map])
  obtain ⟨clauses', hclauses', hfields⟩ := exists_perm_of_map hperm
  refine ⟨clauses', hclauses', hfields.symm, ?_⟩
  rw [toJson, if_pos hnodup, Json.ofFields, ofJson, hfields,
    clausesOfFields_map fun c hc => h c (hclauses'.mem_iff.1 hc)]
  rfl

/-- Clauses with a repeated key are read back as they are. -/
theorem ofJson_toJson_of_repeated {clauses : List Clause} (h : ∀ c ∈ clauses, c.Unshadowed)
    (hrepeated : ¬(clauses.map Clause.key).Nodup) : ofJson (all clauses).toJson = .ok (.all clauses) := by
  rw [toJson, if_neg hrepeated, ofJson, clausesOfItems_map h]
  rfl

/-- **A restrictor is read back**, with its clauses in some order. -/
theorem ofJson_toJson {r : Restrictor} (h : r.shadowedBuiltin? = none) :
    ∃ r', ofJson r.toJson = .ok r' ∧ Reordered r' r := by
  cases r with
  | wildcard => exact ⟨.wildcard, rfl, .wildcard⟩
  | noOwner => exact ⟨.noOwner, rfl, .noOwner⟩
  | all clauses =>
    have hclauses : ∀ c ∈ clauses, c.Unshadowed := fun _ => unshadowed_of_mem h
    by_cases hnodup : (clauses.map Clause.key).Nodup
    · obtain ⟨clauses', hperm, -, hread⟩ := ofJson_toJson_of_nodup hclauses hnodup
      exact ⟨.all clauses', hread, .all hperm⟩
    · exact ⟨.all clauses, ofJson_toJson_of_repeated hclauses hnodup, .all (.refl _)⟩

end Restrictor

/-! ### Objects that hold conditions -/

/-- Read the condition under a key. -/
def Condition.ofField (key : String) (value : Json) : Except PolicyFault Condition :=
  match key with
  | "requester" => Condition.requester <$> Restrictor.ofJson value
  | "resourceId" => Condition.resourceOfJson value
  | "access" => Condition.accessOfJson value
  | "not" => Condition.not <$> Tree.ofJson value
  | "nor" => Condition.nor <$> Tree.listOfJson key value
  | "or" => Condition.or <$> Tree.listOfJson key value
  | "and" => Condition.and <$> Tree.listOfJson key value
  | name => pure (.custom name value)

/-- What stands under no built-in key is the argument of a custom operator. -/
theorem Condition.ofField_custom {name : String} (h : name ∉ Condition.builtins) (arg : Json) :
    Condition.ofField name arg = .ok (.custom name arg) := by
  unfold Condition.ofField
  split <;> first | rfl | exact absurd (by decide) h

/-- The fields are read as these conditions, one by one. -/
abbrev Tree.ReadAs (fields : List (String × Json)) (conditions : List Condition) : Prop :=
  List.Forall₂ (fun field c => Condition.ofField field.1 field.2 = .ok c) fields conditions

namespace Tree

variable {fields : List (String × Json)} {conditions : List Condition}

theorem ofFields_cons (key : String) (value : Json) (fields : List (String × Json)) :
    ofFields ((key, value) :: fields) = (do
      let condition ← Condition.ofField key value
      return condition :: (← ofFields fields)) := by
  by_cases hkey : key ∈ Condition.builtins
  · simp only [Condition.builtins, List.mem_cons, List.not_mem_nil, or_false] at hkey
    rcases hkey with rfl | rfl | rfl | rfl | rfl | rfl | rfl <;> rfl
  · rw [Condition.ofField_custom hkey]
    conv_lhs => unfold ofFields
    dsimp only
    split <;> first | rfl | exact absurd (by decide) hkey

/-- Fields that are read one by one are read as a tree. -/
theorem ofJson_object (h : ReadAs fields conditions) : ofJson (.object fields) = .ok conditions := by
  rw [ofJson]
  induction h with
  | nil => rfl
  | cons hfield _ ih => rw [ofFields_cons, hfield, ih]; rfl

/-- Objects of one field each are read as trees of one condition each. -/
theorem ofItems_append_singles {items : List Json} {trees : List Tree}
    (hitems : ofItems items = .ok trees) (h : ReadAs fields conditions) :
    ofItems (items ++ fields.map fun field => .single field.1 field.2) =
      .ok (trees ++ conditions.map fun c => [c]) := by
  induction items generalizing trees with
  | nil =>
    cases hitems
    induction h with
    | nil => rfl
    | cons hfield _ ih =>
      rw [List.nil_append] at ih
      rw [List.nil_append, List.map_cons, ofItems, Json.single,
        ofJson_object (.cons hfield .nil), ih]
      rfl
  | cons item items ih =>
    rw [ofItems] at hitems
    cases htree : ofJson item with
    | error e => rw [htree] at hitems; cases hitems
    | ok tree =>
      cases htrees : ofItems items with
      | error e => rw [htree, htrees] at hitems; cases hitems
      | ok rest =>
        rw [htree, htrees] at hitems
        cases hitems
        rw [List.cons_append, ofItems, htree, ih htrees]
        rfl

/-- What is read under `and` is a list of trees. -/
theorem ofField_and {value : Json} {c : Condition} (h : Condition.ofField "and" value = .ok c) :
    ∃ items trees, value = .array items ∧ ofItems items = .ok trees ∧ c = .and trees := by
  have h : Condition.and <$> listOfJson "and" value = .ok c := h
  cases value with
  | array items =>
    rw [listOfJson] at h
    cases htrees : ofItems items with
    | error e => rw [htrees] at h; cases h
    | ok trees =>
      rw [htrees] at h
      cases h
      exact ⟨items, trees, rfl, htrees, rfl⟩
  | null => cases h
  | bool b => cases h
  | number n => cases h
  | string s => cases h
  | object fields => cases h

theorem ofField_and_array {items : List Json} {trees : List Tree} (h : ofItems items = .ok trees) :
    Condition.ofField "and" (.array items) = .ok (.and trees) := by
  show Condition.and <$> listOfJson "and" (.array items) = _
  rw [listOfJson, h]
  rfl

/-! ### Repeated keys -/

/-- Placing fields loses none and repeats none, and keeps the names in order. -/
theorem place_perm (fields object repeated : List (String × Json))
    (hinc : Fields.Increasing object) :
    ∃ object' repeated', Fields.Increasing object' ∧
      fields.foldl place (object, repeated.map fun field => .single field.1 field.2) =
        (object', repeated'.map fun field => .single field.1 field.2) ∧
      (object' ++ repeated').Perm (object ++ repeated ++ fields) := by
  induction fields generalizing object repeated with
  | nil =>
    rw [List.append_nil]
    exact ⟨object, repeated, hinc, rfl, .refl _⟩
  | cons field fields ih =>
    rw [List.foldl_cons, place]
    split
    · obtain ⟨object', repeated', hinc', heq, hperm⟩ := ih object (repeated ++ [field]) hinc
      refine ⟨object', repeated', hinc', ?_, ?_⟩
      · rwa [List.map_append] at heq
      · simpa using hperm
    · next hfree =>
      obtain ⟨object', repeated', hinc', heq, hperm⟩ :=
        ih (Fields.insert field.1 field.2 object) repeated (Fields.increasing_insert _ _ hinc)
      refine ⟨object', repeated', hinc', heq, hperm.trans ?_⟩
      have hinsert := Fields.perm_insert field.2 (Option.not_isSome_iff_eq_none.1 hfree)
      have hmiddle : (field :: (object ++ repeated) ++ fields).Perm
          (object ++ repeated ++ field :: fields) := List.perm_middle.symm
      exact ((hinsert.append_right repeated).append_right fields).trans hmiddle

/-- What is written of good fields is good, repeated names included, if an object is good whose names are in
order and whose fields are good, and a field `and` is good exactly if its items are. -/
theorem objectOf_good (GoodField : String → Json → Prop) {Good : Json → Prop}
    (hobjects : ∀ fields, Fields.Increasing fields → (∀ field ∈ fields, GoodField field.1 field.2) →
      Good (.object fields))
    (hand : ∀ items, GoodField "and" (.array items) ↔ ∀ item ∈ items, Good item)
    (h : ∀ field ∈ fields, GoodField field.1 field.2) : Good (objectOf fields) := by
  obtain ⟨object, repeated, hinc, hplace, hperm⟩ := place_perm fields [] [] .nil
  have hmem : ∀ field ∈ object ++ repeated, GoodField field.1 field.2 :=
    fun field hfield => h field (hperm.mem_iff.1 hfield)
  obtain ⟨hobject, hrepeated⟩ := List.forall_mem_append.1 hmem
  have hsingles : ∀ item ∈ repeated.map fun field => Json.single field.1 field.2, Good item := by
    intro item hitem
    obtain ⟨field, hfield, rfl⟩ := List.mem_map.1 hitem
    exact hobjects _ (List.pairwise_singleton _ _) (by simpa using hrepeated field hfield)
  -- Whatever stands under `and` in the end, the other fields are those of the object.
  have hinsert : ∀ items : List Json, (∀ item ∈ items, Good item) →
      Good (.object (Fields.insert "and" (.array items) object)) := by
    intro items hitems
    refine hobjects _ (Fields.increasing_insert _ _ hinc) fun field hfield => ?_
    rcases Fields.mem_insert hfield with rfl | hfield
    · exact (hand items).2 hitems
    · exact hobject field hfield
  rw [List.map_nil] at hplace
  rw [objectOf, hplace]
  dsimp only
  split
  · exact hobjects _ hinc hobject
  · split
    · next items hlookup =>
      obtain ⟨before, after, hsplit, -⟩ := List.lookup_eq_some_iff.1 hlookup
      have harray : GoodField "and" (.array items) :=
        hobject ("and", .array items) (by rw [hsplit]; simp)
      exact hinsert _ (List.forall_mem_append.2 ⟨(hand items).1 harray, hsingles⟩)
    · exact hinsert _ hsingles

/-- **Fields with repeated keys are read as what they are read as one by one**, up to order and
with the repeated ones under `and`. -/
theorem ofJson_objectOf (h : ReadAs fields conditions) :
    ∃ t, ofJson (objectOf fields) = .ok t ∧ Alike t conditions := by
  obtain ⟨object, repeated, hinc, hplace, hperm⟩ := place_perm fields [] [] .nil
  -- The conditions in the order of the object, those of the repeated fields last.
  obtain ⟨read, hread, hreadPerm⟩ := List.perm_comp_forall₂ hperm h
  obtain ⟨kept, others, rfl, hkept, hothers⟩ : ∃ kept others, read = kept ++ others ∧
      ReadAs object kept ∧ ReadAs repeated others := by
    refine ⟨read.take object.length, read.drop object.length, (List.take_append_drop _ _).symm, ?_⟩
    exact ⟨by simpa using List.forall₂_take object.length hread,
      by simpa using List.forall₂_drop object.length hread⟩
  rw [objectOf]
  rw [List.map_nil] at hplace
  rw [hplace]
  cases repeated with
  | nil =>
    cases hothers
    rw [List.append_nil] at hreadPerm
    exact ⟨kept, ofJson_object hkept, .of_perm hreadPerm⟩
  | cons first repeated =>
    simp only [List.map_cons, List.isEmpty_cons, Bool.false_eq_true, if_false]
    cases hand : object.lookup "and" with
    | none =>
      -- No `and` among the fields: the repeated ones make it.
      have hinsert := Fields.perm_insert
        (Json.array ((first :: repeated).map fun field => .single field.1 field.2)) hand
      have hsingles := ofItems_append_singles (show ofItems [] = .ok [] from rfl) hothers
      have hnew : ReadAs (("and", _) :: object) _ := .cons (ofField_and_array hsingles) hkept
      obtain ⟨t, ht, htPerm⟩ := List.perm_comp_forall₂ hinsert hnew
      refine ⟨t, ofJson_object ht, ?_⟩
      have hopen := (Alike.and_append_singles [] others).append (.refl kept)
      exact ((Alike.of_perm htPerm).trans hopen).trans
        (.of_perm (List.perm_append_comm.trans hreadPerm))
    | some value =>
      -- There is an `and` already: the repeated fields are put behind its trees.
      obtain ⟨rest, hobject, hreplaced⟩ := Fields.perm_replace hinc hand
      obtain ⟨kept', hkept', hkeptPerm⟩ := List.perm_comp_forall₂ hobject.symm hkept
      obtain ⟨c, after, hfirst, hrest, rfl⟩ := List.forall₂_cons_left_iff.1 hkept'
      obtain ⟨items, trees, rfl, hitems, rfl⟩ := ofField_and hfirst
      have hnew : ReadAs (("and", _) :: rest) _ :=
        .cons (ofField_and_array (ofItems_append_singles hitems hothers)) hrest
      obtain ⟨t, ht, htPerm⟩ := List.perm_comp_forall₂ (hreplaced _) hnew
      refine ⟨t, ofJson_object ht, (Alike.of_perm htPerm).trans ?_⟩
      have hopen := (Alike.and_append_singles trees others).append (.refl after)
      have hclose := ((Alike.and_singleton trees).symm.append (.refl others)).append (.refl after)
      have hsort : (.and trees :: (others ++ after)).Perm conditions :=
        ((List.perm_append_comm.cons _).trans (hkeptPerm.append_right others)).trans hreadPerm
      exact (hopen.trans hclose).trans (.of_perm hsort)

end Tree

/-! ### Trees -/

namespace Access

theorem stringItems?_strings (names : List String) :
    stringItems? (names.map .string) = some names := by
  induction names with
  | nil => rfl
  | cons name names ih => rw [List.map_cons, stringItems?, ih]; rfl

theorem ofJson?_toJson (a : Access) : ofJson? a.toJson = some a := by
  cases a with
  | one name => rfl
  | many names =>
    rw [toJson, Json.strings, ofJson?, stringItems?_strings]
    rfl

end Access

/-- A tree whose conditions are read one by one is read as a whole. -/
theorem Tree.ofJson_of_readAs {t : Tree}
    (h : ∃ u, Tree.ReadAs (Tree.fields t) u ∧ Tree.Alike u t) :
    ∃ u, Tree.ofJson (Tree.objectOf (Tree.fields t)) = .ok u ∧ Tree.Alike u t := by
  obtain ⟨u, hreads, halike⟩ := h
  obtain ⟨w, hread, halike'⟩ := Tree.ofJson_objectOf hreads
  exact ⟨w, hread, halike'.trans halike⟩

mutual

/-- A condition is read from its key and value as one that is alike. -/
theorem Condition.ofField_value : (c : Condition) → c.shadowedBuiltin? = none →
    ∃ d, Condition.ofField c.key c.value = .ok d ∧ Condition.Alike d c
  | .requester r, h => by
    rw [Condition.shadowedBuiltin?] at h
    obtain ⟨r', hread, hreordered⟩ := Restrictor.ofJson_toJson h
    have halike := hreordered.alike
    refine ⟨.requester r', ?_, .of_condition (fun v => ?_) ?_⟩
    · rw [Condition.value]
      show Condition.requester <$> Restrictor.ofJson r.toJson = _
      rw [hread]
      rfl
    · rw [Condition.truth, Condition.truth, halike.truth]
    · rw [Condition.leaves, Condition.leaves]
      exact halike.leaves
  | .resourceId id, _ => by
    refine ⟨.resourceId id, ?_, .refl _⟩
    rw [Condition.value]
    show Condition.resourceOfJson (.string (toString id)) = _
    rw [Condition.resourceOfJson, Id.parse?_toString]
  | .access a, _ => by
    refine ⟨.access a, ?_, .refl _⟩
    rw [Condition.value]
    show Condition.accessOfJson a.toJson = _
    rw [Condition.accessOfJson, Access.ofJson?_toJson]
  | .not tree, h => by
    rw [Condition.shadowedBuiltin?] at h
    obtain ⟨t, hread, halike⟩ := Tree.ofJson_of_readAs (Tree.readAs_fields tree h)
    refine ⟨.not t, ?_, .of_condition (fun v => ?_) ?_⟩
    · rw [Condition.value]
      show Condition.not <$> Tree.ofJson (Tree.objectOf (Tree.fields tree)) = _
      rw [hread]
      rfl
    · rw [Condition.truth, Condition.truth, halike.truth]
    · rw [Condition.leaves, Condition.leaves]
      exact halike.leaves
  | .nor trees, h => by
    rw [Condition.shadowedBuiltin?] at h
    obtain ⟨ts, hread, halike⟩ := Tree.ofItems_objects trees h
    refine ⟨.nor ts, ?_, .of_condition (fun v => ?_) ?_⟩
    · rw [Condition.value]
      show Condition.nor <$> Tree.listOfJson "nor" (.array (Tree.objects trees)) = _
      rw [Tree.listOfJson, hread]
      rfl
    · rw [Condition.truth, Condition.truth, halike.truthOfAny]
    · rw [Condition.leaves, Condition.leaves]
      exact halike.leavesOfEach
  | .or trees, h => by
    rw [Condition.shadowedBuiltin?] at h
    obtain ⟨ts, hread, halike⟩ := Tree.ofItems_objects trees h
    refine ⟨.or ts, ?_, .of_condition (fun v => ?_) ?_⟩
    · rw [Condition.value]
      show Condition.or <$> Tree.listOfJson "or" (.array (Tree.objects trees)) = _
      rw [Tree.listOfJson, hread]
      rfl
    · rw [Condition.truth, Condition.truth, halike.truthOfAny]
    · rw [Condition.leaves, Condition.leaves]
      exact halike.leavesOfEach
  | .and trees, h => by
    rw [Condition.shadowedBuiltin?] at h
    obtain ⟨ts, hread, halike⟩ := Tree.ofItems_objects trees h
    refine ⟨.and ts, ?_, .of_condition (fun v => ?_) ?_⟩
    · rw [Condition.value]
      exact Tree.ofField_and_array hread
    · rw [Condition.truth, Condition.truth, halike.truthOfAll]
    · rw [Condition.leaves, Condition.leaves]
      exact halike.leavesOfEach
  | .custom name arg, h => by
    refine ⟨.custom name arg, ?_, .refl _⟩
    rw [Condition.value]
    rw [Condition.shadowedBuiltin?] at h
    apply Condition.ofField_custom
    intro (hname : name ∈ Condition.builtins)
    rw [if_pos hname] at h
    cases h

/-- The conditions of a tree are read from its fields one by one, as ones that are alike. -/
theorem Tree.readAs_fields : (t : Tree) → Tree.shadowedBuiltin? t = none →
    ∃ u, Tree.ReadAs (Tree.fields t) u ∧ Tree.Alike u t
  | [], _ => by
    rw [Tree.fields]
    exact ⟨[], .nil, .refl _⟩
  | c :: cs, h => by
    rw [Tree.shadowedBuiltin?, Option.or_eq_none_iff] at h
    obtain ⟨d, hread, halike⟩ := Condition.ofField_value c h.1
    obtain ⟨ds, hreads, halikes⟩ := Tree.readAs_fields cs h.2
    rw [Tree.fields]
    exact ⟨d :: ds, .cons hread hreads, .cons halike halikes⟩

theorem Tree.ofItems_objects : (ts : List Tree) → Tree.shadowedBuiltinList? ts = none →
    ∃ us, Tree.ofItems (Tree.objects ts) = .ok us ∧ Tree.EachAlike us ts
  | [], _ => by
    rw [Tree.objects]
    exact ⟨[], rfl, .nil⟩
  | t :: ts, h => by
    rw [Tree.shadowedBuiltinList?, Option.or_eq_none_iff] at h
    obtain ⟨u, hread, halike⟩ := Tree.ofJson_of_readAs (Tree.readAs_fields t h.1)
    obtain ⟨us, hreads, halikes⟩ := Tree.ofItems_objects ts h.2
    refine ⟨u :: us, ?_, .cons halike halikes⟩
    rw [Tree.objects, Tree.ofItems, hread, hreads]
    rfl

end

namespace Tree

/-- **A tree is read back alike** if no custom key is named like a built-in one. -/
theorem ofJson_toJson {t : Tree} (h : shadowedBuiltin? t = none) :
    ∃ u, ofJson (toJson t) = .ok u ∧ Alike u t :=
  ofJson_of_readAs (readAs_fields t h)

/-- **Trees that are written alike are alike** if no custom key is named like a built-in one. -/
theorem alike_of_compact_eq {t u : Tree} (ht : shadowedBuiltin? t = none)
    (hu : shadowedBuiltin? u = none) (h : (toJson t).compact = (toJson u).compact) :
    Alike t u := by
  obtain ⟨t', hreadt, halike⟩ := ofJson_toJson ht
  obtain ⟨u', hreadu, halike'⟩ := ofJson_toJson hu
  rw [Json.compact_injective h, hreadu] at hreadt
  cases hreadt
  exact halike.symm.trans halike'

end Tree
end PolicyDecision
