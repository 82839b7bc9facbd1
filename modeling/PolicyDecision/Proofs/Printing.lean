import PolicyDecision.Hex
import PolicyDecision.Proofs.NumberText

/-!
# Two values are printed alike only if they are the same

The text of a value can be told from what follows it: a string ends at its closing quotation mark,
lists and objects at their closing bracket, and a number where a character follows that no number
has (`Json.Delimits`). So the beginning of a text tells the value and where it ends, by induction
on the value (`Json.chars_append_inj`), and values of one text are the same
(`Json.compact_injective`).
-/

namespace PolicyDecision.Json

/-- The characters of the text of a value. -/
def chars (j : Json) : List Char :=
  j.compact.toList

/-! ### Strings -/

/-- Read one character of a string, escaped or not; `none` at the closing quotation mark. -/
def unescape : List Char → Option (Char × List Char)
  | '\\' :: 'b' :: cs => some ('\x08', cs)
  | '\\' :: 'f' :: cs => some ('\x0c', cs)
  | '\\' :: 'n' :: cs => some ('\n', cs)
  | '\\' :: 'r' :: cs => some ('\r', cs)
  | '\\' :: 't' :: cs => some ('\t', cs)
  | '\\' :: 'u' :: _ :: _ :: high :: low :: cs =>
    (Hex.read 0 [high, low]).map fun n => (Char.ofNat n, cs)
  | '\\' :: c :: cs => some (c, cs)
  | '"' :: _ => none
  | c :: cs => some (c, cs)
  | [] => none

theorem unescape_escape (c : Char) (cs : List Char) : unescape (escape c ++ cs) = some (c, cs) := by
  rw [escape]
  split_ifs with hquote hslash hb hf hn hr ht hcontrol
  · rw [hquote]; rfl
  · rw [hslash]; rfl
  · rw [hb]; rfl
  · rw [hf]; rfl
  · rw [hn]; rfl
  · rw [hr]; rfl
  · rw [ht]; rfl
  · have hread : Hex.read 0 [Nat.digitChar (c.toNat / 16), Nat.digitChar (c.toNat % 16)] =
        some c.toNat := by
      rw [Hex.read, Hex.value?_digitChar (by omega)]
      show Hex.read _ [_] = _
      rw [Hex.read, Hex.value?_digitChar (by omega)]
      show some (16 * (16 * 0 + c.toNat / 16) + c.toNat % 16) = _
      congr 1
      omega
    show (Hex.read 0 [_, _]).map _ = _
    rw [hread]
    simp [Char.ofNat_toNat]
  · show unescape (c :: cs) = _
    unfold unescape
    split <;> simp_all

/-- The characters of a string up to its end, and what follows. -/
theorem escaped_append_inj {cs ds s t : List Char}
    (h : cs.flatMap escape ++ '"' :: s = ds.flatMap escape ++ '"' :: t) : cs = ds ∧ s = t := by
  induction cs generalizing ds with
  | nil =>
    cases ds with
    | nil => simpa using h
    | cons d ds =>
      have hread := congrArg unescape h
      rw [List.flatMap_cons, List.append_assoc, unescape_escape] at hread
      cases hread
  | cons c cs ih =>
    cases ds with
    | nil =>
      have hread := congrArg unescape h
      rw [List.flatMap_cons, List.append_assoc, unescape_escape] at hread
      cases hread
    | cons d ds =>
      have hread := congrArg unescape h
      rw [List.flatMap_cons, List.flatMap_cons, List.append_assoc, List.append_assoc,
        unescape_escape, unescape_escape] at hread
      simp only [Option.some.injEq, Prod.mk.injEq] at hread
      obtain ⟨rfl, hrest⟩ := hread
      obtain ⟨rfl, rfl⟩ := ih hrest
      exact ⟨rfl, rfl⟩

theorem toList_quote (s : String) :
    (quote s).toList = '"' :: (s.toList.flatMap escape ++ ['"']) := by
  simp [quote]

theorem quote_append_inj {a b : String} {s t : List Char}
    (h : (quote a).toList ++ s = (quote b).toList ++ t) : a = b ∧ s = t := by
  rw [toList_quote, toList_quote] at h
  simp only [List.cons_append, List.append_assoc, List.nil_append, List.cons.injEq, true_and] at h
  obtain ⟨hcs, hst⟩ := escaped_append_inj h
  exact ⟨String.toList_inj.1 hcs, hst⟩

/-! ### What follows a value -/

/-- No character of a number follows. -/
def Delimits (s : List Char) : Prop :=
  ∀ c, s.head? = some c → ¬Number.IsNumeral c

theorem delimits_cons {c : Char} {s : List Char} (h : ¬Number.IsNumeral c) : Delimits (c :: s) := by
  intro d hd
  cases hd
  exact h

/-- A number ends where a character follows that no number has. -/
theorem numeral_append_inj {cs ds s t : List Char} (hcs : ∀ c ∈ cs, Number.IsNumeral c)
    (hds : ∀ c ∈ ds, Number.IsNumeral c) (hs : Delimits s) (ht : Delimits t)
    (h : cs ++ s = ds ++ t) : cs = ds ∧ s = t := by
  induction cs generalizing ds with
  | nil =>
    cases ds with
    | nil => exact ⟨rfl, h⟩
    | cons d ds =>
      rw [List.nil_append] at h
      exact absurd (hds d List.mem_cons_self) (hs d (by rw [h]; rfl))
  | cons c cs ih =>
    cases ds with
    | nil =>
      rw [List.nil_append] at h
      exact absurd (hcs c List.mem_cons_self) (ht c (by rw [← h]; rfl))
    | cons d ds =>
      obtain ⟨rfl, htail⟩ := List.cons.inj h
      obtain ⟨rfl, rfl⟩ := ih (fun c hc => hcs c (List.mem_cons_of_mem _ hc))
        (fun c hc => hds c (List.mem_cons_of_mem _ hc)) htail
      exact ⟨rfl, rfl⟩

/-! ### Lists and objects -/

/-- The items of a list after the first. -/
def itemsAfter (items : List Json) : List Char :=
  items.flatMap fun item => ',' :: item.chars

/-- A field of an object. -/
def fieldChars (field : String × Json) : List Char :=
  (quote field.1).toList ++ ':' :: field.2.chars

/-- The fields of an object after the first. -/
def fieldsAfter (fields : List (String × Json)) : List Char :=
  fields.flatMap fun field => ',' :: fieldChars field

/-- Texts with commas between them: the first, and each other one behind a comma. -/
theorem toList_commas_cons (text : String) (texts : List String) :
    (commas (text :: texts)).toList =
      text.toList ++ texts.flatMap fun text => ',' :: text.toList := by
  rw [commas]
  induction texts generalizing text with
  | nil => simp
  | cons next texts ih =>
    rw [String.intercalate_cons_cons, String.toList_append, String.toList_append, ih]
    simp

theorem compactItems_eq (items : List Json) : compactItems items = items.map compact := by
  induction items with
  | nil => rw [compactItems, List.map_nil]
  | cons item items ih => rw [compactItems, ih, List.map_cons]

theorem compactFields_eq (fields : List (String × Json)) :
    compactFields fields = fields.map fun field => quote field.1 ++ ":" ++ field.2.compact := by
  induction fields with
  | nil => rw [compactFields, List.map_nil]
  | cons field fields ih => rw [compactFields, ih, List.map_cons]

theorem toList_field (field : String × Json) :
    (quote field.1 ++ ":" ++ field.2.compact).toList = fieldChars field := by
  rw [String.toList_append, String.toList_append, fieldChars, chars, List.append_assoc]
  rfl

/-- A list is nothing or a first item and others, in brackets. -/
theorem chars_array (items : List Json) :
    (array items).chars = '[' ::
      match items with
      | [] => [']']
      | item :: items => item.chars ++ (itemsAfter items ++ [']']) := by
  rw [chars, compact, String.toList_append, String.toList_append, compactItems_eq]
  cases items with
  | nil => rfl
  | cons item items =>
    rw [List.map_cons, toList_commas_cons, List.flatMap_map]
    simp [itemsAfter, chars]

/-- An object is nothing or a first field and others, in braces. -/
theorem chars_object (fields : List (String × Json)) :
    (object fields).chars = '\x7b' ::
      match fields with
      | [] => ['\x7d']
      | field :: fields => fieldChars field ++ (fieldsAfter fields ++ ['\x7d']) := by
  rw [chars, compact, String.toList_append, String.toList_append, compactFields_eq]
  cases fields with
  | nil => rfl
  | cons field fields =>
    rw [List.map_cons, toList_commas_cons, List.flatMap_map, toList_field]
    simp only [toList_field, fieldsAfter]
    simp

/-! ### The first character of a value -/

/-- The forms of a value that its first character tells apart. -/
inductive Form
  | null
  | true
  | false
  | number
  | string
  | array
  | object

def form : Json → Form
  | .null => .null
  | .bool b => if b then .true else .false
  | .number _ => .number
  | .string _ => .string
  | .array _ => .array
  | .object _ => .object

/-- The form of the values that begin with a character, if there are any. -/
def formOf (c : Char) : Option Form :=
  if c.isDigit = true ∨ c ∈ ['-', '+', '.', 'e'] then some .number
  else if c = 'n' then some .null
  else if c = 't' then some .true
  else if c = 'f' then some .false
  else if c = '"' then some .string
  else if c = '[' then some .array
  else if c = '\x7b' then some .object
  else none

theorem formOf_numeral {c : Char} (h : Number.IsNumeral c) : formOf c = some .number :=
  if_pos h

/-- The first character of a text tells the form of the value. -/
theorem formOf_head (j : Json) : ∃ c cs, j.chars = c :: cs ∧ formOf c = some j.form := by
  cases j with
  | null => exact ⟨'n', _, rfl, rfl⟩
  | bool b =>
    cases b with
    | true => exact ⟨'t', _, rfl, rfl⟩
    | false => exact ⟨'f', _, rfl, rfl⟩
  | number n =>
    cases htext : n.text.toList with
    | nil => exact absurd htext n.text_ne_nil
    | cons c cs =>
      refine ⟨c, cs, by rw [chars, compact, htext], formOf_numeral ?_⟩
      exact Number.isNumeral_of_mem_text (n := n) (by rw [htext]; exact List.mem_cons_self)
  | string s => exact ⟨'"', _, by rw [chars, compact, toList_quote], rfl⟩
  | array items => exact ⟨'[', _, chars_array items, rfl⟩
  | object fields => exact ⟨'\x7b', _, chars_object fields, rfl⟩

/-- Values whose texts begin alike have one form. -/
theorem form_eq {j j' : Json} {s s' : List Char} (h : j.chars ++ s = j'.chars ++ s') :
    j.form = j'.form := by
  obtain ⟨c, cs, hchars, hform⟩ := formOf_head j
  obtain ⟨c', cs', hchars', hform'⟩ := formOf_head j'
  rw [hchars, hchars'] at h
  obtain ⟨rfl, -⟩ := List.cons.inj h
  rw [hform] at hform'
  exact Option.some.inj hform'

/-- No value begins with a character that has no form. -/
theorem chars_ne_cons {j : Json} {c : Char} {s s' : List Char} (hc : formOf c = none) :
    j.chars ++ s ≠ c :: s' := by
  obtain ⟨d, ds, hchars, hform⟩ := formOf_head j
  intro h
  rw [hchars] at h
  obtain ⟨rfl, -⟩ := List.cons.inj h
  rw [hc] at hform
  cases hform

theorem delimits_of_formOf {c : Char} {s : List Char} (h : formOf c = none) : Delimits (c :: s) := by
  apply delimits_cons
  intro hnumeral
  rw [formOf_numeral hnumeral] at h
  cases h

theorem delimits_itemsAfter (items : List Json) (s : List Char) :
    Delimits (itemsAfter items ++ ']' :: s) := by
  cases items with
  | nil => exact delimits_of_formOf rfl
  | cons item items => exact delimits_of_formOf rfl

theorem delimits_fieldsAfter (fields : List (String × Json)) (s : List Char) :
    Delimits (fieldsAfter fields ++ '\x7d' :: s) := by
  cases fields with
  | nil => exact delimits_of_formOf rfl
  | cons field fields => exact delimits_of_formOf rfl

/-! ### Texts tell values -/

theorem itemsAfter_cons_append (item : Json) (items : List Json) (s : List Char) :
    itemsAfter (item :: items) ++ ']' :: s =
      ',' :: (item.chars ++ (itemsAfter items ++ ']' :: s)) := by
  simp [itemsAfter]

theorem fieldsAfter_cons_append (field : String × Json) (fields : List (String × Json))
    (s : List Char) :
    fieldsAfter (field :: fields) ++ '\x7d' :: s =
      ',' :: ((quote field.1).toList ++
        ':' :: (field.2.chars ++ (fieldsAfter fields ++ '\x7d' :: s))) := by
  simp [fieldsAfter, fieldChars]

/-- A list that is not empty, up to its closing bracket. -/
theorem chars_array_cons_append (item : Json) (items : List Json) (s : List Char) :
    ',' :: ((array (item :: items)).chars ++ s).tail = itemsAfter (item :: items) ++ ']' :: s := by
  rw [chars_array, itemsAfter_cons_append]
  simp

theorem chars_object_cons_append (field : String × Json) (fields : List (String × Json))
    (s : List Char) :
    ',' :: ((object (field :: fields)).chars ++ s).tail =
      fieldsAfter (field :: fields) ++ '\x7d' :: s := by
  rw [chars_object, fieldsAfter_cons_append]
  simp [fieldChars]

/-- Lists are told by what stands in them. -/
theorem array_append_inj {items items' : List Json} {s s' : List Char}
    (hinj : itemsAfter items ++ ']' :: s = itemsAfter items' ++ ']' :: s' → items = items' ∧ s = s')
    (h : (array items).chars ++ s = (array items').chars ++ s') : items = items' ∧ s = s' := by
  cases items with
  | nil =>
    cases items' with
    | nil => exact ⟨rfl, List.append_cancel_left h⟩
    | cons item' items' =>
      rw [chars_array, chars_array] at h
      simp only [List.cons_append, List.nil_append, List.cons.injEq, true_and, List.append_assoc] at h
      exact absurd h.symm (chars_ne_cons rfl)
  | cons item items =>
    cases items' with
    | nil =>
      rw [chars_array, chars_array] at h
      simp only [List.cons_append, List.nil_append, List.cons.injEq, true_and, List.append_assoc] at h
      exact absurd h (chars_ne_cons rfl)
    | cons item' items' =>
      have hitems := congrArg (fun cs => ',' :: cs.tail) h
      simp only [chars_array_cons_append] at hitems
      exact hinj hitems

/-- Objects are told by what stands in them. -/
theorem object_append_inj {fields fields' : List (String × Json)} {s s' : List Char}
    (hinj : fieldsAfter fields ++ '\x7d' :: s = fieldsAfter fields' ++ '\x7d' :: s' →
      fields = fields' ∧ s = s')
    (h : (object fields).chars ++ s = (object fields').chars ++ s') : fields = fields' ∧ s = s' := by
  cases fields with
  | nil =>
    cases fields' with
    | nil => exact ⟨rfl, List.append_cancel_left h⟩
    | cons field' fields' =>
      rw [chars_object, chars_object] at h
      simp [fieldChars, toList_quote] at h
  | cons field fields =>
    cases fields' with
    | nil =>
      rw [chars_object, chars_object] at h
      simp [fieldChars, toList_quote] at h
    | cons field' fields' =>
      have hfields := congrArg (fun cs => ',' :: cs.tail) h
      simp only [chars_object_cons_append] at hfields
      exact hinj hfields

mutual

/-- **The beginning of a text tells the value and where it ends.** -/
theorem chars_append_inj : (j : Json) → ∀ (j' : Json) {s s' : List Char}, Delimits s →
    Delimits s' → j.chars ++ s = j'.chars ++ s' → j = j' ∧ s = s'
  | .null => by
    intro j' s s' _ _ h
    have hform := form_eq h
    cases j' with
    | null => exact ⟨rfl, List.append_cancel_left h⟩
    | bool b => cases b <;> cases hform
    | _ => cases hform
  | .bool b => by
    intro j' s s' _ _ h
    have hform := form_eq h
    cases j' with
    | bool b' =>
      cases b with
      | true =>
        cases b' with
        | true => exact ⟨rfl, List.append_cancel_left h⟩
        | false => cases hform
      | false =>
        cases b' with
        | true => cases hform
        | false => exact ⟨rfl, List.append_cancel_left h⟩
    | _ => cases b <;> cases hform
  | .number n => by
    intro j' s s' hs hs' h
    have hform := form_eq h
    cases j' with
    | number n' =>
      rw [chars, compact, chars, compact] at h
      obtain ⟨htext, hrest⟩ := numeral_append_inj (fun _ => Number.isNumeral_of_mem_text)
        (fun _ => Number.isNumeral_of_mem_text) hs hs' h
      exact ⟨congrArg number (Number.text_injective (String.toList_inj.1 htext)), hrest⟩
    | bool b => cases b <;> cases hform
    | _ => cases hform
  | .string a => by
    intro j' s s' _ _ h
    have hform := form_eq h
    cases j' with
    | string b =>
      rw [chars, compact, chars, compact] at h
      obtain ⟨rfl, hrest⟩ := quote_append_inj h
      exact ⟨rfl, hrest⟩
    | bool b => cases b <;> cases hform
    | _ => cases hform
  | .array items => by
    intro j' s s' _ _ h
    have hform := form_eq h
    cases j' with
    | array items' =>
      obtain ⟨rfl, hrest⟩ := array_append_inj (itemsAfter_append_inj items items') h
      exact ⟨rfl, hrest⟩
    | bool b => cases b <;> cases hform
    | _ => cases hform
  | .object fields => by
    intro j' s s' _ _ h
    have hform := form_eq h
    cases j' with
    | object fields' =>
      obtain ⟨rfl, hrest⟩ := object_append_inj (fieldsAfter_append_inj fields fields') h
      exact ⟨rfl, hrest⟩
    | bool b => cases b <;> cases hform
    | _ => cases hform

theorem itemsAfter_append_inj : (items : List Json) → ∀ (items' : List Json) {s s' : List Char},
    itemsAfter items ++ ']' :: s = itemsAfter items' ++ ']' :: s' → items = items' ∧ s = s'
  | [] => by
    intro items' s s' h
    cases items' with
    | nil => exact ⟨rfl, List.tail_eq_of_cons_eq h⟩
    | cons item' items' =>
      rw [itemsAfter_cons_append] at h
      exact absurd (List.head_eq_of_cons_eq h) (by decide)
  | item :: items => by
    intro items' s s' h
    rw [itemsAfter_cons_append] at h
    cases items' with
    | nil => exact absurd (List.head_eq_of_cons_eq h) (by decide)
    | cons item' items' =>
      rw [itemsAfter_cons_append] at h
      obtain ⟨rfl, hitems⟩ := chars_append_inj item item' (delimits_itemsAfter items s)
        (delimits_itemsAfter items' s') (List.tail_eq_of_cons_eq h)
      obtain ⟨rfl, hrest⟩ := itemsAfter_append_inj items items' hitems
      exact ⟨rfl, hrest⟩

theorem fieldsAfter_append_inj : (fields : List (String × Json)) →
    ∀ (fields' : List (String × Json)) {s s' : List Char},
    fieldsAfter fields ++ '\x7d' :: s = fieldsAfter fields' ++ '\x7d' :: s' →
    fields = fields' ∧ s = s'
  | [] => by
    intro fields' s s' h
    cases fields' with
    | nil => exact ⟨rfl, List.tail_eq_of_cons_eq h⟩
    | cons field' fields' =>
      rw [fieldsAfter_cons_append] at h
      exact absurd (List.head_eq_of_cons_eq h) (by decide)
  | (key, value) :: fields => by
    intro fields' s s' h
    rw [fieldsAfter_cons_append] at h
    cases fields' with
    | nil => exact absurd (List.head_eq_of_cons_eq h) (by decide)
    | cons field' fields' =>
      obtain ⟨key', value'⟩ := field'
      rw [fieldsAfter_cons_append] at h
      obtain ⟨rfl, hvalue⟩ := quote_append_inj (List.tail_eq_of_cons_eq h)
      obtain ⟨rfl, hfields⟩ := chars_append_inj value value' (delimits_fieldsAfter fields s)
        (delimits_fieldsAfter fields' s') (List.tail_eq_of_cons_eq hvalue)
      obtain ⟨rfl, hrest⟩ := fieldsAfter_append_inj fields fields' hfields
      exact ⟨rfl, hrest⟩

end

/-- **Two values are printed alike only if they are the same.** -/
theorem compact_injective {j j' : Json} (h : j.compact = j'.compact) : j = j' := by
  have hnil : Delimits [] := fun c hc => nomatch hc
  have hchars : j.chars ++ [] = j'.chars ++ [] := by
    rw [chars, chars, h]
  exact (chars_append_inj j j' hnil hnil hchars).1

end PolicyDecision.Json
