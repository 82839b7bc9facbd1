import Mathlib.Data.List.Induction
import PolicyDecision.Proofs.Records
import PolicyDecision.Proofs.Wording

/-!
# What an object tells of a record

An object that is read as a record with attributes is read field by field into a draft. Each field that can
be read is an entry: it has a value, and it updates the draft in a way that only its name and its value
decide (`Document.ReadsAs`). So a record that is read is what the fields of the object tell, after these are
put in order and the last of several attributes with one name is kept (`Document.asOpenRecord_ok`).

This gives the parts of an entity and of a resource by the fields of their names, with the defaults of those
that are missing, and the attributes as all other fields (`Entity.told_of_decode`,
`Resource.told_of_decode`).
-/

namespace PolicyDecision

/-! ### Fields in order -/

namespace Fields

variable {β : Type} {fields : List (String × β)}

theorem ofList_snoc (fields : List (String × β)) (field : String × β) :
    ofList (fields ++ [field]) = insert field.1 field.2 (ofList fields) :=
  List.foldl_concat ..

/-- A name before all others is put in front. -/
theorem insert_of_lt {key : String} (value : β) (h : ∀ field ∈ fields, key < field.1) :
    insert key value fields = (key, value) :: fields := by
  cases fields with
  | nil => rfl
  | cons field rest =>
    obtain ⟨k, v⟩ := field
    rw [insert, if_pos (h (k, v) List.mem_cons_self)]

variable (keep : String → Bool)

theorem filter_insert (key : String) (value : β) (h : Increasing fields) :
    (insert key value fields).filter (fun field => keep field.1) =
      if keep key then insert key value (fields.filter fun field => keep field.1)
      else fields.filter fun field => keep field.1 := by
  induction fields with
  | nil => cases hkeep : keep key <;> simp [insert, hkeep]
  | cons field rest ih =>
    obtain ⟨k, v⟩ := field
    obtain ⟨hk, hrest⟩ := List.pairwise_cons.1 h
    specialize ih hrest
    rw [insert]
    split
    · next hlt =>
      have hfirst : ∀ field ∈ ((k, v) :: rest).filter fun field => keep field.1, key < field.1 := by
        intro field hfield
        rcases List.mem_cons.1 (List.mem_filter.1 hfield).1 with rfl | hmem
        · exact hlt
        · exact String.lt_trans hlt (hk field hmem)
      rw [insert_of_lt value hfirst, List.filter_cons]
    · split
      · next hlt hgt =>
        rw [List.filter_cons, ih, List.filter_cons]
        cases keep k <;> cases keep key <;> simp [insert, hlt, hgt]
      · next hlt hgt =>
        obtain rfl := eq_of_not_lt hlt hgt
        rw [List.filter_cons, List.filter_cons]
        cases hkeep : keep key with
        | false => simp
        | true =>
          simp only [if_true]
          rw [insert, if_neg (String.lt_irrefl key), if_neg (String.lt_irrefl key)]

/-- Fields may be left out before or after they are put in order. -/
theorem filter_ofList (fields : List (String × β)) :
    (ofList fields).filter (fun field => keep field.1) =
      ofList (fields.filter fun field => keep field.1) := by
  induction fields using List.reverseRecOn with
  | nil => rfl
  | append_singleton fields field ih =>
    rw [ofList_snoc, filter_insert keep field.1 field.2 (increasing_ofList fields), ih, List.filter_append]
    cases hkeep : keep field.1 with
    | false => simp [hkeep]
    | true => simp [hkeep, ofList_snoc]

end Fields

/-! ### Identifiers as values -/

/-- The value is the text of this identifier. -/
def Json.IsId {kind : Kind} (value : Json) (id : Id kind) : Prop :=
  ∃ text, value = .string text ∧ Id.parse? kind text = some id

/-- The value lists the members of this set, in any order and with or without repeats. -/
def Json.IsIdSet {kind : Kind} (value : Json) (ids : IdSet kind) : Prop :=
  ∃ values read, value = .array values ∧ List.Forall₂ IsId values read ∧ ids = .ofList read

/-- The value is the text of an identifier, or null if there is none. -/
def Json.IsIdOrNull {kind : Kind} (value : Json) : Option (Id kind) → Prop
  | some id => value.IsId id
  | none => value = .null

/-! ### Parts by their fields -/

namespace Fields

variable {β : Type} {fields : List (String × Json)} {name : String} {Is : Json → β → Prop}

/-- The field of this name is the text of the part, and it is missing if the part is. -/
def Gives (fields : List (String × Json)) (name : String) (Is : Json → β → Prop) : Option β → Prop
  | some b => ∃ value, fields.lookup name = some value ∧ Is value b
  | none => fields.lookup name = none

/-- The field of this name is the text of the part, which has a default otherwise. -/
def Tells (fields : List (String × Json)) (name : String) (Is : Json → β → Prop) (default b : β) : Prop :=
  match fields.lookup name with
  | some value => Is value b
  | none => b = default

theorem Gives.of_lookup {fields' : List (String × Json)} {part : Option β} (h : Gives fields name Is part)
    (hlookup : fields'.lookup name = fields.lookup name) : Gives fields' name Is part := by
  cases part with
  | none => exact hlookup.trans h
  | some b => simpa only [Gives, hlookup] using h

theorem Gives.tells {part : Option β} (h : Gives fields name Is part) (default : β) :
    Tells fields name Is default (part.getD default) := by
  cases part with
  | none =>
    rw [Tells, show fields.lookup name = none from h]
    rfl
  | some b =>
    obtain ⟨value, hlookup, his⟩ := h
    rw [Tells, hlookup]
    exact his

/-- A part that the record cannot do without is told by its field. -/
theorem Gives.required {part : Option β} (h : Gives fields name Is part) {b : β}
    (hb : Document.Form.fields.required name part = .ok b) :
    ∃ value, fields.lookup name = some value ∧ Is value b := by
  cases part with
  | none => cases hb
  | some b =>
    cases hb
    exact h

end Fields

namespace Document

/-! ### What was read -/

theorem asJson_ok {d : Document} {j : Json} (h : d.asJson = .ok j) : d.value? = some j := by
  rw [asJson] at h
  split at h
  · next hvalue =>
    cases h
    exact hvalue
  · cases h

theorem asString_ok {d : Document} {text : String} (h : d.asString = .ok text) :
    d.value? = some (.string text) := by
  cases d with
  | string s =>
    cases h
    exact value?_ofJson (Json.normal_string text)
  | _ => cases h

theorem asId_ok {kind : Kind} {d : Document} {id : Id kind} (h : d.asId kind = .ok id) :
    ∃ value, d.value? = some value ∧ value.IsId id := by
  obtain ⟨text, htext, hid⟩ := bind_eq_ok.1 h
  refine ⟨.string text, asString_ok htext, text, rfl, ?_⟩
  split at hid
  · next hparse =>
    cases hid
    exact hparse
  · cases hid

theorem asIds_ok {kind : Kind} {items : List Document} {ids : List (Id kind)}
    (h : items.mapM (asId kind) = .ok ids) :
    ∃ raws, rawItems? items = some raws ∧ List.Forall₂ Json.IsId (Json.normalizeItems raws) ids := by
  induction items generalizing ids with
  | nil =>
    cases h
    exact ⟨[], rfl, .nil⟩
  | cons item items ih =>
    rw [List.mapM_cons] at h
    obtain ⟨id, hid, hrest⟩ := bind_eq_ok.1 h
    obtain ⟨rest, hids, hrest⟩ := bind_eq_ok.1 hrest
    cases hrest
    obtain ⟨value, hvalue, his⟩ := asId_ok hid
    obtain ⟨raw, hraw, rfl⟩ := Option.map_eq_some_iff.1 hvalue
    obtain ⟨raws, hraws, hall⟩ := ih hids
    refine ⟨raw :: raws, ?_, .cons his hall⟩
    rw [rawItems?, hraw, hraws]
    rfl

theorem asIdSet_ok {kind : Kind} {d : Document} {ids : IdSet kind} (h : d.asIdSet kind = .ok ids) :
    ∃ value, d.value? = some value ∧ value.IsIdSet ids := by
  obtain ⟨read, hread, rfl⟩ := map_eq_ok.1 h
  cases d with
  | list items closed =>
    obtain ⟨read', hitems, hclosed⟩ := bind_eq_ok.1 hread
    cases closed with
    | false => cases hclosed
    | true =>
      cases hclosed
      obtain ⟨raws, hraws, hall⟩ := asIds_ok hitems
      refine ⟨.array (Json.normalizeItems raws), ?_, _, _, rfl, hall, rfl⟩
      rw [value?, raw?, hraws, Option.map_some, Option.map_some, Json.normalize]
  | deep inner => cases inner <;> cases hread
  | _ => cases hread

theorem asIdOrNull_ok {kind : Kind} {d : Document} {id? : Option (Id kind)}
    (h : d.asOption (asId kind) = .ok id?) : ∃ value, d.value? = some value ∧ value.IsIdOrNull id? := by
  cases d with
  | null =>
    cases h
    exact ⟨.null, rfl, rfl⟩
  | _ =>
    obtain ⟨id, hid, rfl⟩ := map_eq_ok.1 h
    exact asId_ok hid

variable {δ : Type} {columns : List (Column δ)} {other : δ → String → Document → Decoded δ}

/-- A field that can be read is an entry with a value, which updates the draft. -/
def ReadsAs (columns : List (Column δ)) (other : δ → String → Document → Decoded δ)
    (P : Entry δ → Prop) : Prop :=
  ∀ draft key part draft', readField columns other draft key part = .ok draft' →
    ∃ entry, P entry ∧ entry.name = key ∧ part.value? = some entry.value ∧ entry.update draft = draft'

variable {P : Entry δ → Prop}

theorem readsAs_of_columns (add : δ → String → Json → δ)
    (hother : ∀ draft key part, other draft key part = (do return add draft key (← part.asJson)))
    (hcolumns : ∀ column ∈ columns, ∀ draft part draft', column.read draft part = .ok draft' →
      ∃ value update, P ⟨column.name, value, update⟩ ∧ part.value? = some value ∧ update draft = draft')
    (hattribute : ∀ key value, key ∉ columns.map (·.name) → P (Entry.attribute add (key, value))) :
    ReadsAs columns other P := by
  intro draft key part draft' h
  rw [readField] at h
  cases hcolumn : columns.find? (·.name = key) with
  | some column =>
    simp only [hcolumn] at h
    obtain ⟨value, update, hP, hvalue, hupdate⟩ :=
      hcolumns column (List.mem_of_find?_eq_some hcolumn) draft part draft' h
    have hname : column.name = key := by simpa using List.find?_some hcolumn
    exact ⟨_, hP, hname, hvalue, hupdate⟩
  | none =>
    simp only [hcolumn, hother] at h
    obtain ⟨value, hvalue, rfl⟩ := bind_pure_eq_ok.1 h
    have hkey : key ∉ columns.map (·.name) := by
      intro hmem
      obtain ⟨column, hcolumns, rfl⟩ := List.mem_map.1 hmem
      simpa using List.find?_eq_none.1 hcolumn column hcolumns
    exact ⟨_, hattribute key value hkey, rfl, asJson_ok hvalue, rfl⟩

theorem readFields_ok (hreads : ReadsAs columns other P) {seen : List String} {draft draft' : δ}
    {fields : List (Option String × Document)}
    (h : readFields columns other seen draft fields = .ok draft') :
    ∃ entries : List (Entry δ), (∀ entry ∈ entries, P entry) ∧
      (rawFields? fields).map Json.normalizeFields = some (entries.map Entry.field) ∧
      Entry.updates entries draft = draft' := by
  induction fields generalizing seen draft with
  | nil =>
    cases h
    exact ⟨[], by simp, rfl, rfl⟩
  | cons field rest ih =>
    obtain ⟨name, part⟩ := field
    cases name with
    | none => cases h
    | some key =>
      have hread : ∃ seen' next, readField columns other draft key part = .ok next ∧
          readFields columns other seen' next rest = .ok draft' := by
        rw [readFields] at h
        rw [readField]
        cases hcolumn : columns.find? (·.name = key) with
        | none =>
          simp only [hcolumn] at h ⊢
          obtain ⟨next, hnext, hrest⟩ := bind_eq_ok.1 h
          exact ⟨seen, next, hnext, hrest⟩
        | some column =>
          simp only [hcolumn] at h ⊢
          split at h
          · cases h
          · obtain ⟨next, hnext, hrest⟩ := bind_eq_ok.1 h
            exact ⟨key :: seen, next, hnext, hrest⟩
      obtain ⟨seen', next, hnext, hrest⟩ := hread
      obtain ⟨entry, hentry, rfl, hvalue, rfl⟩ := hreads _ _ _ _ hnext
      obtain ⟨entries, hentries, hraw, rfl⟩ := ih hrest
      refine ⟨entry :: entries, List.forall_mem_cons.2 ⟨hentry, hentries⟩, ?_, rfl⟩
      obtain ⟨raw, hpart, hfirst⟩ := Option.map_eq_some_iff.1 hvalue
      obtain ⟨raws, hparts, hothers⟩ := Option.map_eq_some_iff.1 hraw
      rw [rawFields?, hpart, hparts]
      show some ((entry.name, raw.normalize) :: Json.normalizeFields raws) = _
      rw [hfirst, hothers]
      rfl

/-- **An object that is read** is the object of entries that complete the draft one after the other. -/
theorem asOpenRecord_ok (hreads : ReadsAs columns other P) {empty draft : δ} {d : Document}
    (h : d.asOpenRecord columns empty other = .ok draft) :
    ∃ entries : List (Entry δ), (∀ entry ∈ entries, P entry) ∧
      d.value? = some (.ofFields (entries.map Entry.field)) ∧ Entry.updates entries empty = draft := by
  cases d with
  | object fields closed =>
    obtain ⟨draft', hread, h⟩ := bind_eq_ok.1 h
    cases closed with
    | false => cases h
    | true =>
      cases h
      obtain ⟨entries, hentries, hfields, hupdates⟩ := readFields_ok hreads hread
      obtain ⟨raws, hraws, hnormal⟩ := Option.map_eq_some_iff.1 hfields
      refine ⟨entries, hentries, ?_, hupdates⟩
      rw [value?, raw?, hraws]
      show some (Json.object (Fields.ofList (Json.normalizeFields raws))) = _
      rw [hnormal]
      rfl
  | deep inner => cases inner <;> cases h
  | _ => cases h

/-! ### Parts of a draft -/

theorem updates_snoc (entries : List (Entry δ)) (entry : Entry δ) (draft : δ) :
    Entry.updates (entries ++ [entry]) draft = entry.update (Entry.updates entries draft) :=
  List.foldl_concat ..

/-- The part of the draft is filled by the field of this name, with what it is read as, and by no other. -/
def Fills {β : Type} (P : Entry δ → Prop) (name : String) (part : δ → Option β) (Is : Json → β → Prop) :
    Prop :=
  ∀ entry, P entry →
    (entry.name = name ∧ ∃ b, Is entry.value b ∧ ∀ draft, part (entry.update draft) = some b) ∨
      (entry.name ≠ name ∧ ∀ draft, part (entry.update draft) = part draft)

theorem Fills.updates {β : Type} {part : δ → Option β} {Is : Json → β → Prop} {name : String}
    (hfills : Fills P name part Is) {empty : δ} (hempty : part empty = none)
    {entries : List (Entry δ)} (hentries : ∀ entry ∈ entries, P entry) :
    Fields.Gives (Fields.ofList (entries.map Entry.field)) name Is (part (Entry.updates entries empty)) := by
  induction entries using List.reverseRecOn with
  | nil =>
    show Fields.Gives [] name Is (part empty)
    rw [hempty]
    rfl
  | append_singleton entries entry ih =>
    obtain ⟨hentries, hlast⟩ := List.forall_mem_append.1 hentries
    specialize ih hentries
    rw [List.map_append, List.map_singleton, Fields.ofList_snoc, updates_snoc]
    rcases hfills entry (hlast entry List.mem_cons_self) with ⟨hname, b, hb, hpart⟩ | ⟨hname, hpart⟩
    · rw [hpart]
      refine ⟨entry.value, ?_, hb⟩
      rw [Fields.lookup_insert]
      exact if_pos hname.symm
    · rw [hpart]
      refine Fields.Gives.of_lookup ih ?_
      rw [Fields.lookup_insert]
      exact if_neg (Ne.symm hname)

/-- The attributes of the draft are added by the fields that have none of these names. -/
def Gathers (P : Entry δ → Prop) (names : List String) (attributes : δ → Attributes) : Prop :=
  ∀ entry, P entry →
    (entry.name ∈ names ∧ ∀ draft, attributes (entry.update draft) = attributes draft) ∨
      (entry.name ∉ names ∧
        ∀ draft, attributes (entry.update draft) = (attributes draft).insert entry.name entry.value)

theorem Gathers.updates {names : List String} {attributes : δ → Attributes}
    (hgathers : Gathers P names attributes) {empty : δ} (hempty : attributes empty = .empty)
    {entries : List (Entry δ)} (hentries : ∀ entry ∈ entries, P entry) :
    (attributes (Entry.updates entries empty)).fields =
      (Fields.ofList (entries.map Entry.field)).filter fun field => field.1 ∉ names := by
  induction entries using List.reverseRecOn with
  | nil =>
    show (attributes empty).fields = _
    rw [hempty]
    rfl
  | append_singleton entries entry ih =>
    obtain ⟨hentries, hlast⟩ := List.forall_mem_append.1 hentries
    rw [List.map_append, List.map_singleton, Fields.ofList_snoc,
      Fields.filter_insert (fun key => key ∉ names) _ _ (Fields.increasing_ofList _), updates_snoc,
      ← ih hentries]
    rcases hgathers entry (hlast entry List.mem_cons_self) with ⟨hname, hkept⟩ | ⟨hname, hadded⟩
    · have hdropped : ¬decide (entry.field.1 ∉ names) = true := by
        rw [decide_eq_true_eq, not_not]
        exact hname
      rw [hkept, if_neg hdropped]
    · have htaken : decide (entry.field.1 ∉ names) = true := decide_eq_true hname
      rw [hadded, if_pos htaken]
      rfl

end Document

/-! ### Entities -/

namespace Entity

/-- The names of the fields. -/
def names : List String :=
  ["id", "parents"]

/-- A field that can be read, and what reading it does. -/
inductive Written : Document.Entry Draft → Prop
  | ofId {value : Json} {id : EntityId} (h : value.IsId id) :
    Written ⟨"id", value, fun draft => { draft with id := some id }⟩
  | ofParents {value : Json} {parents : IdSet .entity} (h : value.IsIdSet parents) :
    Written ⟨"parents", value, fun draft => { draft with parents := some parents }⟩
  | ofAttribute {field : String × Json} (h : field.1 ∉ names) : Written (.attribute Draft.add field)

theorem reads_written : Document.ReadsAs columns Draft.addAttribute Written := by
  refine Document.readsAs_of_columns Draft.add (fun _ _ _ => rfl) ?_ fun key value hkey => .ofAttribute hkey
  simp only [columns, List.forall_mem_cons, List.not_mem_nil, false_implies, implies_true, and_true]
  constructor
  · intro draft part draft' h
    obtain ⟨id, hid, rfl⟩ := bind_pure_eq_ok.1 h
    obtain ⟨value, hvalue, his⟩ := Document.asId_ok hid
    exact ⟨value, _, .ofId his, hvalue, rfl⟩
  · intro draft part draft' h
    obtain ⟨parents, hparents, rfl⟩ := bind_pure_eq_ok.1 h
    obtain ⟨value, hvalue, his⟩ := Document.asIdSet_ok hparents
    exact ⟨value, _, .ofParents his, hvalue, rfl⟩

theorem fills_id : Document.Fills Written "id" Draft.id Json.IsId := by
  intro entry hentry
  cases hentry with
  | ofId his => exact .inl ⟨rfl, _, his, fun _ => rfl⟩
  | ofParents => exact .inr ⟨by simp, fun _ => rfl⟩
  | ofAttribute hother =>
    exact .inr ⟨(ne_of_mem_of_not_mem (by simp [names]) hother).symm, fun _ => rfl⟩

theorem fills_parents : Document.Fills Written "parents" Draft.parents Json.IsIdSet := by
  intro entry hentry
  cases hentry with
  | ofId => exact .inr ⟨by simp, fun _ => rfl⟩
  | ofParents his => exact .inl ⟨rfl, _, his, fun _ => rfl⟩
  | ofAttribute hother =>
    exact .inr ⟨(ne_of_mem_of_not_mem (by simp [names]) hother).symm, fun _ => rfl⟩

theorem gathers_attributes : Document.Gathers Written names Draft.attributes := by
  intro entry hentry
  cases hentry with
  | ofId | ofParents => exact .inl ⟨by simp [names], fun _ => rfl⟩
  | ofAttribute hother => exact .inr ⟨hother, fun _ => rfl⟩

/-- The entity is what these fields tell: the identifier, the parents, of which there are none by default,
and the other fields as attributes. -/
structure ToldBy (fields : List (String × Json)) (e : Entity) : Prop where
  id : ∃ value, fields.lookup "id" = some value ∧ value.IsId e.id
  parents : Fields.Tells fields "parents" Json.IsIdSet .empty e.parents
  attributes : e.attributes.fields = fields.filter fun field => field.1 ∉ names

theorem told_of_decode {d : Document} {e : Entity} (h : decode d = .ok e) :
    ∃ fields, d.value? = some (.object fields) ∧ e.ToldBy fields := by
  obtain ⟨draft, hdraft, hrest⟩ := bind_eq_ok.1 h
  obtain ⟨id, hid, hrest⟩ := bind_eq_ok.1 hrest
  cases hrest
  obtain ⟨entries, hentries, hvalue, rfl⟩ := Document.asOpenRecord_ok reads_written hdraft
  exact ⟨_, hvalue, (fills_id.updates rfl hentries).required hid,
    (fills_parents.updates rfl hentries).tells _, gathers_attributes.updates rfl hentries⟩

end Entity

/-! ### Resources -/

namespace Resource

/-- The names of the fields. -/
def names : List String :=
  ["id", "owner", "type", "boundPolicies"]

/-- A field that can be read, and what reading it does. -/
inductive Written : Document.Entry Draft → Prop
  | ofId {value : Json} {id : ResourceId} (h : value.IsId id) :
    Written ⟨"id", value, fun draft => { draft with id := some id }⟩
  | ofOwner {value : Json} {owner : Option EntityId} (h : value.IsIdOrNull owner) :
    Written ⟨"owner", value, fun draft => { draft with owner := some owner }⟩
  | ofType (type : String) : Written ⟨"type", .string type, fun draft => { draft with type := some type }⟩
  | ofPolicies {value : Json} {policies : IdSet .policy} (h : value.IsIdSet policies) :
    Written ⟨"boundPolicies", value, fun draft => { draft with boundPolicies := some policies }⟩
  | ofAttribute {field : String × Json} (h : field.1 ∉ names) : Written (.attribute Draft.add field)

theorem reads_written : Document.ReadsAs columns Draft.addAttribute Written := by
  refine Document.readsAs_of_columns Draft.add (fun _ _ _ => rfl) ?_ fun key value hkey => .ofAttribute hkey
  simp only [columns, List.forall_mem_cons, List.not_mem_nil, false_implies, implies_true, and_true]
  refine ⟨?_, ?_, ?_, ?_⟩
  · intro draft part draft' h
    obtain ⟨id, hid, rfl⟩ := bind_pure_eq_ok.1 h
    obtain ⟨value, hvalue, his⟩ := Document.asId_ok hid
    exact ⟨value, _, .ofId his, hvalue, rfl⟩
  · intro draft part draft' h
    obtain ⟨owner, howner, rfl⟩ := bind_pure_eq_ok.1 h
    obtain ⟨value, hvalue, his⟩ := Document.asIdOrNull_ok howner
    exact ⟨value, _, .ofOwner his, hvalue, rfl⟩
  · intro draft part draft' h
    obtain ⟨type, htype, rfl⟩ := bind_pure_eq_ok.1 h
    exact ⟨.string type, _, .ofType type, Document.asString_ok htype, rfl⟩
  · intro draft part draft' h
    obtain ⟨policies, hpolicies, rfl⟩ := bind_pure_eq_ok.1 h
    obtain ⟨value, hvalue, his⟩ := Document.asIdSet_ok hpolicies
    exact ⟨value, _, .ofPolicies his, hvalue, rfl⟩

theorem fills_id : Document.Fills Written "id" Draft.id Json.IsId := by
  intro entry hentry
  cases hentry with
  | ofId his => exact .inl ⟨rfl, _, his, fun _ => rfl⟩
  | ofOwner | ofType | ofPolicies => exact .inr ⟨by simp, fun _ => rfl⟩
  | ofAttribute hother =>
    exact .inr ⟨(ne_of_mem_of_not_mem (by simp [names]) hother).symm, fun _ => rfl⟩

theorem fills_owner : Document.Fills Written "owner" Draft.owner Json.IsIdOrNull := by
  intro entry hentry
  cases hentry with
  | ofOwner his => exact .inl ⟨rfl, _, his, fun _ => rfl⟩
  | ofId | ofType | ofPolicies => exact .inr ⟨by simp, fun _ => rfl⟩
  | ofAttribute hother =>
    exact .inr ⟨(ne_of_mem_of_not_mem (by simp [names]) hother).symm, fun _ => rfl⟩

theorem fills_type : Document.Fills Written "type" Draft.type fun value type => value = .string type := by
  intro entry hentry
  cases hentry with
  | ofType type => exact .inl ⟨rfl, type, rfl, fun _ => rfl⟩
  | ofId | ofOwner | ofPolicies => exact .inr ⟨by simp, fun _ => rfl⟩
  | ofAttribute hother =>
    exact .inr ⟨(ne_of_mem_of_not_mem (by simp [names]) hother).symm, fun _ => rfl⟩

theorem fills_boundPolicies : Document.Fills Written "boundPolicies" Draft.boundPolicies Json.IsIdSet := by
  intro entry hentry
  cases hentry with
  | ofPolicies his => exact .inl ⟨rfl, _, his, fun _ => rfl⟩
  | ofId | ofOwner | ofType => exact .inr ⟨by simp, fun _ => rfl⟩
  | ofAttribute hother =>
    exact .inr ⟨(ne_of_mem_of_not_mem (by simp [names]) hother).symm, fun _ => rfl⟩

theorem gathers_attributes : Document.Gathers Written names Draft.attributes := by
  intro entry hentry
  cases hentry with
  | ofId | ofOwner | ofType | ofPolicies => exact .inl ⟨by simp [names], fun _ => rfl⟩
  | ofAttribute hother => exact .inr ⟨hother, fun _ => rfl⟩

/-- The resource is what these fields tell: the identifier, the owner, who may be absent or null, the type,
which has a default, the policies bound to it, of which there are none by default, and the other fields as
attributes. -/
structure ToldBy (fields : List (String × Json)) (r : Resource) : Prop where
  id : ∃ value, fields.lookup "id" = some value ∧ value.IsId r.id
  owner : Fields.Tells fields "owner" Json.IsIdOrNull none r.owner
  type : Fields.Tells fields "type" (fun value type => value = .string type) "default" r.type
  boundPolicies : Fields.Tells fields "boundPolicies" Json.IsIdSet .empty r.boundPolicies
  attributes : r.attributes.fields = fields.filter fun field => field.1 ∉ names

theorem told_of_decode {d : Document} {r : Resource} (h : decode d = .ok r) :
    ∃ fields, d.value? = some (.object fields) ∧ r.ToldBy fields := by
  obtain ⟨draft, hdraft, hrest⟩ := bind_eq_ok.1 h
  obtain ⟨id, hid, hrest⟩ := bind_eq_ok.1 hrest
  cases hrest
  obtain ⟨entries, hentries, hvalue, rfl⟩ := Document.asOpenRecord_ok reads_written hdraft
  exact ⟨_, hvalue, (fills_id.updates rfl hentries).required hid,
    (fills_owner.updates rfl hentries).tells _, (fills_type.updates rfl hentries).tells _,
    (fills_boundPolicies.updates rfl hentries).tells _, gathers_attributes.updates rfl hentries⟩

end Resource
end PolicyDecision
