import PolicyDecision.Policy.Json
import PolicyDecision.Proofs.Congruence

/-!
# Dropping contents that equal earlier ones

A policy has no two contents that are equal. It does not matter how it came by them: reading a list of contents
(`Policy.decode_eq`) and pushing them one by one (`Policy.foldl_push`) keep the same ones, those that equal no
content before them (`Policy.distinct_eq`).

That the others are dropped makes no difference to the reaction of the policy, errors included
(`Policy.distinct_faithful`). A loop that goes through the contents stops among those that are kept exactly if
it stops among all (`Policy.until_distinct`): a content that is dropped comes after one that would have made it
stop as well.
-/

namespace PolicyDecision

/-! ### Records read into two drafts -/

namespace Document

variable {δ ε : Type} {f : δ → ε}

/-- The columns read the same part into a draft and into its image. -/
structure Column.Maps (f : δ → ε) (column : Column δ) (column' : Column ε) : Prop where
  name : column'.name = column.name
  read : ∀ draft part, column'.read (f draft) part = (column.read draft part).map f

variable {columns : List (Column δ)} {columns' : List (Column ε)}
  (h : List.Forall₂ (Column.Maps f) columns columns')
include h

theorem find?_maps (key : String) :
    (columns.find? (·.name = key) = none ∧ columns'.find? (·.name = key) = none) ∨
      ∃ column column', columns.find? (·.name = key) = some column ∧
        columns'.find? (·.name = key) = some column' ∧ column.Maps f column' := by
  induction h with
  | nil => exact .inl ⟨rfl, rfl⟩
  | @cons column column' columns columns' hmaps _ ih =>
    by_cases hkey : column.name = key
    · exact .inr ⟨column, column', by simp [hkey], by simp [hmaps.name, hkey], hmaps⟩
    · simpa [List.find?_cons, hmaps.name, hkey] using ih

theorem readFields_maps (other : δ → String → Document → Decoded δ)
    {other' : ε → String → Document → Decoded ε}
    (hother : ∀ draft key part, other' (f draft) key part = (other draft key part).map f)
    (fields : List (Option String × Document)) (seen : List String) (draft : δ) :
    readFields columns' other' seen (f draft) fields = (readFields columns other seen draft fields).map f := by
  induction fields generalizing seen draft with
  | nil => rfl
  | cons field fields ih =>
    obtain ⟨_ | key, part⟩ := field
    · rfl
    · rw [readFields, readFields]
      obtain ⟨hnone, hnone'⟩ | ⟨column, column', hsome, hsome', hmaps⟩ := find?_maps h key
      · simp only [hnone, hnone', hother]
        cases other draft key part with
        | error e => rfl
        | ok draft => exact ih seen draft
      · simp only [hsome, hsome', hmaps.read]
        split
        · rfl
        · cases column.read draft part with
          | error e => rfl
          | ok draft => exact ih (key :: seen) draft

theorem readItems_maps (parts : List Document) (draft : δ) :
    readItems columns' (f draft) parts = (readItems columns draft parts).map (Prod.map f id) := by
  induction h generalizing parts draft with
  | nil => rfl
  | @cons column column' columns columns' hmaps _ ih =>
    cases parts with
    | nil => rfl
    | cons part parts =>
      rw [readItems, readItems, hmaps.read]
      cases column.read draft part with
      | error e => rfl
      | ok draft => exact ih parts draft

/-- **A record is read into the image of a draft** as the image of what is read into the draft. -/
theorem asRecord_maps (source : Source) (empty : δ) (d : Document) :
    d.asRecord source columns' (f empty) = (d.asRecord source columns empty).map (Prod.map f id) := by
  cases d with
  | object fields closed =>
    rw [asRecord, asRecord, readFields_maps h fun draft _ part => do part.skip; pure draft]
    · cases readFields columns (fun draft _ part => do part.skip; pure draft) [] empty fields with
      | error e => rfl
      | ok draft => cases closed <;> rfl
    · intro draft key part
      cases part.skip <;> rfl
  | list items closed =>
    rw [asRecord, asRecord, readItems_maps h]
    cases readItems columns empty items with
    | error e => rfl
    | ok read =>
      obtain ⟨draft, rest⟩ := read
      cases rest <;> cases closed <;> cases source <;> rfl
  | _ => rfl

end Document

theorem until_snoc {α : Type} {passed stops : α → Prop} (items : List α) (a : α) :
    Until passed stops (items ++ [a]) ↔
      Until passed stops items ∨ (∀ b ∈ items, passed b) ∧ stops a := by
  induction items with
  | nil => simp
  | cons item items ih =>
    rw [List.cons_append, until_cons, until_cons, ih, List.forall_mem_cons, and_or_left, or_assoc, and_assoc]

namespace Policy

variable {contents kept : List Content} {c d : Content}

/-! ### Which contents are kept -/

/-- The content at a place, if it equals none before it. -/
def firstAt (contents : List Content) (place : Nat) : Option Content :=
  contents[place]?.filter fun c => !(contents.take place).contains c

theorem distinct_snoc (contents : List Content) (c : Content) :
    distinct (contents ++ [c]) = keep (distinct contents) c :=
  List.foldl_append ..

/-- A content equals one that is kept exactly if it equals any. -/
theorem contains_distinct (contents : List Content) (c : Content) :
    (distinct contents).contains c = contents.contains c := by
  rw [Bool.eq_iff_iff, List.contains_iff_exists_mem_beq, List.contains_iff_exists_mem_beq]
  exact exists_distinct_iff fun d d' hequal =>
    ⟨fun h => BEq.trans h hequal, fun h => BEq.trans h (BEq.symm hequal)⟩

/-- **The contents that are kept** are those that equal none before them, in order. -/
theorem distinct_eq (contents : List Content) :
    distinct contents = (List.range contents.length).filterMap (firstAt contents) := by
  induction contents using List.reverseRecOn with
  | nil => rfl
  | append_singleton contents c ih =>
    have hbefore : (List.range contents.length).filterMap (firstAt (contents ++ [c])) = distinct contents := by
      rw [ih]
      refine List.filterMap_congr fun place hplace => ?_
      have hlt : place < contents.length := List.mem_range.1 hplace
      rw [firstAt, firstAt, List.getElem?_append_left hlt, List.take_append_of_le_length (Nat.le_of_lt hlt)]
    have hlast : firstAt (contents ++ [c]) contents.length =
        if contents.contains c then none else some c := by
      cases hcontains : contents.contains c <;> simp [firstAt, Option.filter, hcontains]
    rw [distinct_snoc, keep, contains_distinct, List.length_append, List.length_singleton, List.range_succ,
      List.filterMap_append, hbefore, List.filterMap_cons, hlast, List.filterMap_nil]
    split
    · rw [List.append_nil]
    · rfl

/-- **No two contents that are kept are equal.** -/
theorem pairwise_distinct (contents : List Content) :
    (distinct contents).Pairwise fun c d => (c == d) = false := by
  induction contents using List.reverseRecOn with
  | nil => exact .nil
  | append_singleton contents c ih =>
    rw [distinct_snoc, keep]
    split
    · exact ih
    · next h =>
      refine List.pairwise_append.2 ⟨ih, List.pairwise_singleton _ _, fun d hd e he => ?_⟩
      rw [List.mem_singleton.1 he, Bool.eq_false_iff]
      exact fun hequal => h (List.contains_iff_exists_mem_beq.2 ⟨d, hd, BEq.symm hequal⟩)

/-! ### Pushing and reading -/

theorem push_eq (p : Policy) (c : Content) : (p.push c).2 = { p with contents := keep p.contents c } := by
  rw [push, keep]
  split <;> rfl

/-- **Pushing contents one by one** keeps those that are kept of the list. -/
theorem foldl_push {p : Policy} (h : p.contents = []) (contents : List Content) :
    contents.foldl (fun p c => (p.push c).2) p = { p with contents := distinct contents } := by
  induction contents using List.reverseRecOn with
  | nil =>
    obtain ⟨id, selector, kept, priority⟩ := p
    obtain rfl : kept = [] := h
    rfl
  | append_singleton contents c ih =>
    rw [List.foldl_append, ih, distinct_snoc]
    exact push_eq _ c

/-- The columns of a policy, all of whose contents are kept. -/
def columnsOfAll (source : Source) : List (Document.Column Policy) :=
  (columns source).set 2 ⟨"contents", fun draft d => do
    return { draft with contents := ← d.asList (Content.decode source) }⟩

/-- Decode a policy and keep all contents. -/
def decodeAll (fresh : PolicyId) (source : Source) (d : Document) : Decoded Policy :=
  Prod.fst <$> d.asRecord source (columnsOfAll source) { id := fresh }

/-- The policy without the later ones of equal contents. -/
def dedup (p : Policy) : Policy :=
  { p with contents := distinct p.contents }

theorem columns_maps (source : Source) :
    List.Forall₂ (Document.Column.Maps dedup) (columnsOfAll source) (columns source) := by
  refine .cons ⟨rfl, fun draft d => ?_⟩ (.cons ⟨rfl, fun draft d => ?_⟩
    (.cons ⟨rfl, fun draft d => ?_⟩ (.cons ⟨rfl, fun draft d => ?_⟩ .nil)))
  · dsimp only
    cases d.asId .policy <;> rfl
  · dsimp only
    cases d.asOption Selector.decode <;> rfl
  · dsimp only
    cases d.asList (Content.decode source) <;> rfl
  · dsimp only
    cases d.asInt32 <;> rfl

/-- **A policy is decoded** as if all contents were kept, and the later ones of equal contents are dropped. -/
theorem decode_eq (fresh : PolicyId) (source : Source) (d : Document) :
    decode fresh source d = (decodeAll fresh source d).map dedup := by
  have hrecord := Document.asRecord_maps (columns_maps source) source { id := fresh } d
  have hempty : dedup { id := fresh } = { id := fresh } := rfl
  rw [hempty] at hrecord
  rw [decode, decodeAll, hrecord]
  cases d.asRecord source (columnsOfAll source) { id := fresh } <;> rfl

/-! ### Reactions -/

theorem forall_distinct_iff {P : Content → Prop} (hP : ∀ c d : Content, (c == d) = true → (P c ↔ P d)) :
    (∀ c ∈ distinct contents, P c) ↔ ∀ c ∈ contents, P c := by
  have hexists : (∃ c ∈ distinct contents, ¬P c) ↔ ∃ c ∈ contents, ¬P c :=
    exists_distinct_iff fun c d hequal => not_congr (hP c d hequal)
  simpa using not_congr hexists

/-- **A loop stops among the contents that are kept** exactly if it stops among all, where equal contents are
passed alike and make it stop alike. -/
theorem until_distinct {passed stops : Content → Prop}
    (hpassed : ∀ c d : Content, (c == d) = true → (passed c ↔ passed d))
    (hstops : ∀ c d : Content, (c == d) = true → (stops c ↔ stops d)) (contents : List Content) :
    Until passed stops (distinct contents) ↔ Until passed stops contents := by
  induction contents using List.reverseRecOn with
  | nil => rfl
  | append_singleton contents c ih =>
    rw [distinct_snoc, keep, contains_distinct, until_snoc]
    split
    · next h =>
      -- The one that `c` equals would have made the loop stop already.
      rw [ih, iff_self_or]
      rintro ⟨hall, hc⟩
      obtain ⟨d, hd, hequal⟩ := List.contains_iff_exists_mem_beq.1 h
      exact (until_iff_exists hall).2 ⟨d, hd, (hstops c d hequal).1 hc⟩
    · rw [until_snoc, ih, forall_distinct_iff hpassed]

/-- Contents that answer alike where they are equal come to the same reaction if only distinct ones are
kept. -/
theorem reaction_distinct {answer : Content → Except Error Bool} {result result' : Except Error Reaction}
    (h : IsReaction answer contents result) (h' : IsReaction answer (distinct contents) result')
    (hanswer : ∀ c d : Content, (c == d) = true → answer c = answer d) : result' = result := by
  have hanswers : ∀ c d : Content, (c == d) = true → (c.Answers answer ↔ d.Answers answer) := by
    intro c d hequal
    rw [Content.Answers, Content.Answers, hanswer c d hequal]
  have hreacts : ∀ verdict, ∀ c d : Content, (c == d) = true →
      (c.Reacts answer verdict ↔ d.Reacts answer verdict) := by
    intro verdict c d hequal
    rw [Content.Reacts, Content.Reacts, hanswer c d hequal, ((Content.beq_iff_same c d).1 hequal).2]
  cases result with
  | error e =>
    refine (h'.failed e).2 ((until_distinct ?_ ?_ contents).2 ((h.failed e).1 rfl))
    · exact fun c d hequal => and_congr (hanswers c d hequal) (not_congr (hreacts false c d hequal))
    · exact fun c d hequal => by rw [hanswer c d hequal]
  | ok reaction =>
    cases reaction with
    | none => exact h'.abstained.2 fun c hc => h.abstained.1 rfl c (mem_of_mem_distinct hc)
    | some verdict =>
      cases verdict with
      | false => exact h'.denied.2 ((until_distinct hanswers (hreacts false) contents).2 (h.denied.1 rfl))
      | true =>
        obtain ⟨hall, hallowed⟩ := h.allowed.1 rfl
        exact h'.allowed.2 ⟨fun c hc => hall c (mem_of_mem_distinct hc),
          (exists_distinct_iff (hreacts true)).2 hallowed⟩

variable {s : Evaluation} (hs : s.Memoless)
include hs

theorem react_of_firstFault {p : Policy} {e : Error} (h : Content.FirstFault s.checks p.contents e)
    (context : Context) : (p.react context s).result = .error e := by
  have hfault : (Evaluation.onChecks (p.contents.mapM Content.compile) s).result = .error e :=
    (Content.mapM_compile_error_iff hs.checks).2 h
  rw [react, Act.bind_error hfault]

/-- **Dropping contents that equal earlier ones** makes no difference to the reaction. -/
theorem react_distinct (h : s.checks.registry.Congruent) (p : Policy) (context : Context) :
    (p.dedup.react context s).result = (p.react context s).result := by
  have hcompiles := fun c d hequal => Content.compiles_congr hs.checks h (c := c) (d := d) hequal
  by_cases hall : ∀ c ∈ p.contents, ∃ q, (Checks.compile c.check s.checks).result = .ok q
  · exact reaction_distinct (isReaction_react p context hs hall)
      (isReaction_react p.dedup context hs ((forall_distinct_iff hcompiles).2 hall))
      fun c d hequal => Content.answer_congr hs.checks h hequal context
  · obtain ⟨c, hc, hfails⟩ :
        ∃ c ∈ p.contents, ∀ q, (Checks.compile c.check s.checks).result ≠ .ok q := by
      simpa using hall
    -- Both fail with the error of the first content that is refused, which is the first among those kept too.
    cases hcompile : (Checks.compile c.check s.checks).result with
    | ok q => exact absurd hcompile (hfails q)
    | error e =>
      obtain ⟨e, hfirst, hreact, -⟩ := react_of_fault p context hs hc hcompile
      have hfirst' : Content.FirstFault s.checks p.dedup.contents e :=
        (until_distinct hcompiles (fun c d hequal => Content.compile_error_congr hs.checks h hequal e)
          p.contents).2 hfirst
      rw [hreact, react_of_firstFault hs hfirst']

omit hs

/-- **Dropping contents that equal earlier ones changes no reaction.** However a policy comes by its contents,
read as a list or pushed one by one, it keeps those that equal none before them, in order, and no two of them
are equal. Without memos, and with operators that make the same of equal arguments, it reacts to every request
as if it had kept all, errors included. -/
theorem distinct_faithful (contents : List Content) :
    (distinct contents = (List.range contents.length).filterMap (firstAt contents) ∧
        (distinct contents).Pairwise fun c d => (c == d) = false) ∧
      (∀ fresh source d, decode fresh source d = (decodeAll fresh source d).map dedup) ∧
      (∀ p : Policy, p.contents = [] →
        contents.foldl (fun p c => (p.push c).2) p = { p with contents := distinct contents }) ∧
      ∀ (p : Policy) (context : Context) (s : Evaluation), s.Memoless → s.checks.registry.Congruent →
        (react { p with contents := distinct contents } context s).result =
          (react { p with contents } context s).result :=
  ⟨⟨distinct_eq contents, pairwise_distinct contents⟩, decode_eq, fun _ hp => foldl_push hp contents,
    fun p context _ hs h => react_distinct hs h { p with contents } context⟩

/-- A content is dropped that differs from an earlier one in the sign of a zero. -/
theorem distinct_faithful_zero :
    let zero (negative : Bool) : Json := .number (.float (.zero negative))
    let holds : Factory Context := fun arg => .ok fun _ => .ok (arg == zero false)
    let s : Evaluation :=
      ⟨⟨{ contextOps := ⟨Condition.builtins, [("zero", holds)]⟩ }, none⟩, ⟨⟨.empty, none⟩, none⟩⟩
    let context : Context := ⟨⟨⟨1⟩⟩, .one "read", ⟨⟨2⟩⟩⟩
    let allows (negative : Bool) : Content := ⟨[.custom "zero" (zero negative)], some true⟩
    let denies : Content := ⟨[.access (.one "write")], some false⟩
    let contents := [allows true, denies, allows false]
    s.Memoless ∧ s.checks.registry.Congruent ∧ distinct contents = [allows true, denies] ∧
      (react { id := ⟨⟨3⟩⟩, contents := [allows true, denies] } context s).result = .ok (some true) ∧
      (react { id := ⟨⟨3⟩⟩, contents } context s).result = .ok (some true) := by
  intro zero holds s context allows denies contents
  have hs : s.Memoless := ⟨rfl, rfl⟩
  have hcongruent : s.checks.registry.Congruent := by
    refine ⟨nofun, fun name factory hfind arg arg' hequal => ?_⟩
    obtain ⟨-, rfl⟩ : name = "zero" ∧ holds = factory := by
      have hfind : ([("zero", holds)] : List (String × Factory Context)).lookup name = some factory := hfind
      rw [List.lookup_cons] at hfind
      split at hfind
      · next hname => exact ⟨eq_of_beq hname, Option.some.inj hfind⟩
      · cases hfind
    show Except.ok (fun _ => Except.ok (arg == zero false)) =
      Except.ok fun _ => Except.ok (arg' == zero false)
    rw [BEq.congr_left hequal]
  have hdistinct : distinct contents = [allows true, denies] := rfl
  have hreact := (distinct_faithful contents).2.2.2 { id := ⟨⟨3⟩⟩ } context s hs hcongruent
  rw [hdistinct] at hreact
  have hallowed :
      (react { id := ⟨⟨3⟩⟩, contents := [allows true, denies] } context s).result = .ok (some true) := rfl
  exact ⟨hs, hcongruent, hdistinct, hallowed, hreact.symm.trans hallowed⟩

end Policy
end PolicyDecision
