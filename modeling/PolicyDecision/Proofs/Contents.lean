import Mathlib.Data.List.Forall2
import PolicyDecision.Proofs.Evaluating
import PolicyDecision.Proofs.Verdict

/-!
# What a policy reacts, content by content

Without memos, what a policy reacts depends on its contents only through what the check of each of them
answers by itself (`Content.answer`). If one of them cannot be made a predicate of, the first of them is
the error, and no check is evaluated. Else the contents are gone through in order: a denial that matches
or a failure ends it, an allowance that matches is kept in one bit (`Content.settle`).

The bit is what the inductions are on. What the scan comes to is said without it (`IsReaction`), so the
order of the contents makes no difference as long as none of them fails, and neither do those without a
reaction.
-/

namespace PolicyDecision

/-! ### Making all predicates -/

namespace Act

variable {σ α β : Type} {f : α → Act σ β} {s : σ} (hstate : ∀ a, (f a s).state = s)
include hstate

/-- Operations that leave the state as it is answer one by one. -/
theorem mapM_ok_iff {as : List α} {bs : List β} :
    (as.mapM f s).result = .ok bs ↔ List.Forall₂ (fun a b => (f a s).result = .ok b) as bs := by
  induction as generalizing bs with
  | nil =>
    rw [List.mapM_nil, List.forall₂_nil_left_iff]
    simp [eq_comm]
  | cons a as ih =>
    simp only [List.mapM_cons, bind_eq_ok, hstate, ih, List.forall₂_cons_left_iff, pure_apply,
      Except.ok.injEq]
    constructor
    · rintro ⟨b, hb, bs', hbs, rfl⟩
      exact ⟨b, bs', hb, hbs, rfl⟩
    · rintro ⟨b, bs', hb, hbs, rfl⟩
      exact ⟨b, hb, bs', hbs, rfl⟩

theorem mapM_answers_iff {as : List α} :
    (∃ bs, (as.mapM f s).result = .ok bs) ↔ ∀ a ∈ as, ∃ b, (f a s).result = .ok b := by
  induction as with
  | nil => simp
  | cons a as ih =>
    rw [List.forall_mem_cons, ← ih]
    simp only [mapM_ok_iff hstate, List.forall₂_cons_left_iff]
    constructor
    · rintro ⟨_, b, bs, hb, hbs, rfl⟩
      exact ⟨⟨b, hb⟩, bs, hbs⟩
    · rintro ⟨⟨b, hb⟩, bs, hbs⟩
      exact ⟨b :: bs, b, bs, hb, hbs, rfl⟩

/-- The first of them that fails is the error. -/
theorem mapM_error_iff {as : List α} {e : Error} :
    (as.mapM f s).result = .error e ↔
      Until (fun a => ∃ b, (f a s).result = .ok b) (fun a => (f a s).result = .error e) as := by
  induction as with
  | nil => simp
  | cons a as ih =>
    rw [List.mapM_cons, until_cons, bind_eq_error]
    simp only [bind_eq_error, hstate, ih, pure_apply, reduceCtorEq, and_false, exists_false, or_false,
      exists_and_right]

theorem mapM_state (as : List α) : (as.mapM f s).state = s := by
  have hkeeps : Keeps (· = s) (as.mapM f) := by
    refine Keeps.mapM fun a _ => ensures_of ?_
    rintro _ rfl
    exact ⟨hstate a, trivial⟩
  exact hkeeps.keeps s rfl

end Act

/-- Neither closures nor compiled checks are remembered. -/
structure Evaluation.Memoless (evaluation : Evaluation) : Prop where
  graph : evaluation.inquiry.graph.memo = none
  checks : evaluation.checks.memo = none

namespace Content

/-- What the check of a content answers, by itself. -/
def answer (context : Context) (content : Content) : Act Evaluation Bool := do
  let (check, _) ← Evaluation.onChecks content.compile
  Evaluation.onInquiry (check.eval context)

variable {checks : Checks}

/-- Without a memo, making a predicate leaves no trace. -/
theorem compile_state (h : checks.memo = none) (content : Content) :
    (content.compile checks).state = checks := by
  obtain ⟨registry, memo⟩ := checks
  obtain rfl : memo = none := h
  simp only [compile, Act.bind_apply, Checks.compile_memoless]
  cases (Tree.compile registry content.check ()).result with
  | error e => rfl
  | ok p => rfl

theorem compile_ok_iff {content : Content} {made : ContextPredicate × Reaction} :
    (content.compile checks).result = .ok made ↔
      (Checks.compile content.check checks).result = .ok made.1 ∧ made.2 = content.reaction := by
  obtain ⟨p, reaction⟩ := made
  rw [compile, Act.bind_eq_ok]
  simp only [Act.pure_apply, Except.ok.injEq, Prod.mk.injEq]
  constructor
  · rintro ⟨_, hp, rfl, rfl⟩
    exact ⟨hp, rfl⟩
  · rintro ⟨hp, rfl⟩
    exact ⟨p, hp, rfl, rfl⟩

theorem compile_error_iff {content : Content} {e : Error} :
    (content.compile checks).result = .error e ↔
      (Checks.compile content.check checks).result = .error e := by
  rw [compile, Act.bind_eq_error]
  simp

/-- A content that answers can be made a predicate of. -/
theorem compiles_of_answer {context : Context} {s : Evaluation} {content : Content} {holds : Bool}
    (h : (content.answer context s).result = .ok holds) :
    ∃ p, (Checks.compile content.check s.checks).result = .ok p := by
  obtain ⟨made, hmade, -⟩ := Act.bind_eq_ok.1 h
  exact ⟨made.1, (compile_ok_iff.1 hmade).1⟩

/-! ### The scan -/

/-- The reaction when the answers of the contents are known. `allowed` tells whether one before them
has allowed. -/
def settle (answer : Content → Except Error Bool) (allowed : Bool) :
    List Content → Except Error Reaction
  | [] => .ok (if allowed then some true else none)
  | content :: rest =>
    match answer content with
    | .error e => .error e
    | .ok false => settle answer allowed rest
    | .ok true =>
      match content.reaction with
      | some false => .ok (some false)
      | some true => settle answer true rest
      | none => settle answer allowed rest

variable {context : Context} {s : Evaluation}

theorem answer_of_compile {content : Content} {made : ContextPredicate × Reaction}
    (hmade : (content.compile s.checks).result = .ok made) :
    (content.answer context s).result = (made.1.eval context s.inquiry).result := by
  have hcompile : (Evaluation.onChecks content.compile s).result = .ok made := hmade
  rw [answer, Act.bind_ok hcompile]
  rfl

/-- Scanning predicates asks each of them what it answers by itself. -/
theorem result_scan (hs : s.Memoless) {contents : List Content}
    {made : List (ContextPredicate × Reaction)}
    (hmade : List.Forall₂ (fun content m => (content.compile s.checks).result = .ok m) contents made)
    (allowed : Bool) :
    (scan context allowed made s.inquiry).result =
      settle (fun content => (content.answer context s).result) allowed contents := by
  -- The scan passes through states in which the requester may be kept that is found in `s`.
  let found := s.inquiry.requester.or (s.inquiry.graph.entities.find? context.requester)
  have hstart : Inquiry.Finds s.inquiry.graph.entities context.requester found s.inquiry :=
    ⟨by rw [← hs.graph], rfl⟩
  suffices h : ∀ inquiry, Inquiry.Finds s.inquiry.graph.entities context.requester found inquiry →
      (scan context allowed made inquiry).result =
        settle (fun content => (content.answer context s).result) allowed contents from
    h s.inquiry hstart
  induction hmade generalizing allowed with
  | nil =>
    intro inquiry _
    rw [scan, settle]
    rfl
  | @cons content m contents made hm hmade ih =>
    obtain ⟨check, reaction⟩ := m
    intro inquiry hinquiry
    have hsteady := check.steady_eval_of_finds s.inquiry.graph.entities context found
    have hanswer : (check.eval context inquiry).result = (content.answer context s).result := by
      rw [answer_of_compile hm]
      exact hsteady.result_eq hinquiry hstart
    obtain rfl : reaction = content.reaction := (compile_ok_iff.1 hm).2
    unfold scan settle
    cases hresult : (content.answer context s).result with
    | error e => rw [Act.bind_error (hanswer.trans hresult)]
    | ok holds =>
      rw [Act.bind_ok (hanswer.trans hresult)]
      have hnext := hsteady.inv hinquiry
      cases holds with
      | false => exact ih allowed _ hnext
      | true =>
        cases content.reaction with
        | none => exact ih allowed _ hnext
        | some verdict =>
          cases verdict with
          | false => rfl
          | true => exact ih true _ hnext

end Content

/-! ### What the scan comes to -/

/-- The content matches, and this is its verdict. -/
def Content.Reacts (answer : Content → Except Error Bool) (verdict : Bool) (content : Content) : Prop :=
  answer content = .ok true ∧ content.reaction = some verdict

/-- The check of the content does not fail. -/
def Content.Answers (answer : Content → Except Error Bool) (content : Content) : Prop :=
  ∃ holds, answer content = .ok holds

/-- The reaction of a policy, in terms of what the contents answer, in order. -/
structure IsReaction (answer : Content → Except Error Bool) (contents : List Content)
    (result : Except Error Reaction) : Prop where
  /-- A content denies, and none before it fails. -/
  denied : result = .ok (some false) ↔
    Until (Content.Answers answer) (Content.Reacts answer false) contents
  /-- No content fails or denies, and one allows. -/
  allowed : result = .ok (some true) ↔
    (∀ c ∈ contents, c.Answers answer ∧ ¬c.Reacts answer false) ∧ ∃ c ∈ contents, c.Reacts answer true
  /-- No content fails, and none with a reaction matches. -/
  abstained : result = .ok none ↔
    ∀ c ∈ contents, c.Answers answer ∧ ∀ verdict, ¬c.Reacts answer verdict
  /-- A content fails, and none before it denies. -/
  fails : (∃ e, result = .error e) ↔
    Until (fun c => ¬c.Reacts answer false) (fun c => ¬c.Answers answer) contents
  /-- The error is that of the first content that fails. -/
  failed : ∀ e, result = .error e ↔
    Until (fun c => c.Answers answer ∧ ¬c.Reacts answer false) (fun c => answer c = .error e) contents

namespace Content

variable (answer : Content → Except Error Bool) (allowed : Bool) (contents : List Content)

/-- What one content can do to the scan. -/
theorem settle_cons_cases (content : Content) (rest : List Content) :
    (∃ e, answer content = .error e ∧ settle answer allowed (content :: rest) = .error e) ∨
    (content.Reacts answer false ∧ settle answer allowed (content :: rest) = .ok (some false)) ∨
    (content.Answers answer ∧ ¬content.Reacts answer false ∧ ∃ allowed',
      (allowed' = true ↔ allowed = true ∨ content.Reacts answer true) ∧
        settle answer allowed (content :: rest) = settle answer allowed' rest) := by
  rw [settle, Answers, Reacts, Reacts]
  match hanswer : answer content, hreaction : content.reaction with
  | .error e, _ => exact .inl ⟨e, rfl, rfl⟩
  | .ok true, some false => exact .inr (.inl ⟨⟨rfl, rfl⟩, rfl⟩)
  | .ok true, some true => exact .inr (.inr ⟨⟨true, rfl⟩, by simp, true, by simp, rfl⟩)
  | .ok true, none => exact .inr (.inr ⟨⟨true, rfl⟩, by simp, allowed, by simp, rfl⟩)
  | .ok false, _ => exact .inr (.inr ⟨⟨false, rfl⟩, by simp, allowed, by simp, rfl⟩)

theorem settle_eq_denied_iff :
    settle answer allowed contents = .ok (some false) ↔
      Until (Answers answer) (Reacts answer false) contents := by
  induction contents generalizing allowed with
  | nil => cases allowed <;> simp [settle]
  | cons content rest ih =>
    rw [until_cons]
    rcases settle_cons_cases answer allowed content rest with
      ⟨e, hfails, heq⟩ | ⟨hdenies, heq⟩ | ⟨hanswers, hpassed, allowed', -, heq⟩
    · simp [heq, Answers, Reacts, hfails]
    · simp [heq, hdenies]
    · simp [heq, hanswers, hpassed, ih]

theorem settle_eq_allowed_iff :
    settle answer allowed contents = .ok (some true) ↔
      (∀ c ∈ contents, c.Answers answer ∧ ¬c.Reacts answer false) ∧
        (allowed = true ∨ ∃ c ∈ contents, c.Reacts answer true) := by
  induction contents generalizing allowed with
  | nil => cases allowed <;> simp [settle]
  | cons content rest ih =>
    simp only [List.mem_cons, exists_eq_or_imp]
    rcases settle_cons_cases answer allowed content rest with
      ⟨e, hfails, heq⟩ | ⟨hdenies, heq⟩ | ⟨hanswers, hpassed, allowed', hallowed', heq⟩
    · simp [heq, Answers, hfails]
    · simp [heq, hdenies]
    · simp [heq, hanswers, hpassed, ih, hallowed', or_assoc]

theorem settle_eq_abstained_iff :
    settle answer allowed contents = .ok none ↔
      allowed = false ∧ ∀ c ∈ contents, c.Answers answer ∧ ∀ verdict, ¬c.Reacts answer verdict := by
  induction contents generalizing allowed with
  | nil => cases allowed <;> simp [settle]
  | cons content rest ih =>
    rw [List.forall_mem_cons]
    rcases settle_cons_cases answer allowed content rest with
      ⟨e, hfails, heq⟩ | ⟨hdenies, heq⟩ | ⟨hanswers, hpassed, allowed', hallowed', heq⟩
    · simp [heq, Answers, hfails]
    · simp [heq, hdenies]
    · have hallowed : allowed' = false ↔ allowed = false ∧ ¬content.Reacts answer true := by
        simpa using not_congr hallowed'
      simp [heq, hanswers, hpassed, ih, hallowed, and_assoc]

theorem settle_eq_error_iff (e : Error) :
    settle answer allowed contents = .error e ↔
      Until (fun c => c.Answers answer ∧ ¬c.Reacts answer false) (fun c => answer c = .error e)
        contents := by
  induction contents generalizing allowed with
  | nil => cases allowed <;> simp [settle]
  | cons content rest ih =>
    rw [until_cons]
    rcases settle_cons_cases answer allowed content rest with
      ⟨e', hfails, heq⟩ | ⟨hdenies, heq⟩ | ⟨⟨holds, hanswer⟩, hpassed, allowed', -, heq⟩
    · simp [heq, Answers, hfails]
    · simp [heq, hdenies, hdenies.1]
    · simp [heq, Answers, hanswer, hpassed, ih]

theorem settle_fails_iff :
    (∃ e, settle answer allowed contents = .error e) ↔
      Until (fun c => ¬c.Reacts answer false) (fun c => ¬c.Answers answer) contents := by
  induction contents generalizing allowed with
  | nil => cases allowed <;> simp [settle]
  | cons content rest ih =>
    rw [until_cons]
    rcases settle_cons_cases answer allowed content rest with
      ⟨e, hfails, heq⟩ | ⟨hdenies, heq⟩ | ⟨hanswers, hpassed, allowed', -, heq⟩
    · simp [heq, Answers, hfails]
    · simp [heq, hdenies, Answers, hdenies.1]
    · simp [heq, hanswers, hpassed, ih]

theorem isReaction_settle : IsReaction answer contents (settle answer false contents) where
  denied := settle_eq_denied_iff answer false contents
  allowed := by simpa using settle_eq_allowed_iff answer false contents
  abstained := by simpa using settle_eq_abstained_iff answer false contents
  fails := settle_fails_iff answer false contents
  failed := settle_eq_error_iff answer false contents

end Content

/-- Where no content fails, only those with a reaction make a difference: not how often they stand
there, and not in which order. -/
theorem IsReaction.result_eq {answer : Content → Except Error Bool} {contents contents' : List Content}
    {result result' : Except Error Reaction} (h : IsReaction answer contents result)
    (h' : IsReaction answer contents' result') (hok : ∀ c ∈ contents, c.Answers answer)
    (hok' : ∀ c ∈ contents', c.Answers answer)
    (hsame : ∀ c, c.reaction ≠ none → (c ∈ contents' ↔ c ∈ contents)) : result' = result := by
  have hmem : ∀ verdict, (∃ c ∈ contents', c.Reacts answer verdict) ↔
      ∃ c ∈ contents, c.Reacts answer verdict := by
    intro verdict
    refine exists_congr fun c => and_congr_left fun hc => hsame c ?_
    rw [hc.2]
    exact Option.some_ne_none verdict
  match result with
  | .ok (some false) =>
    rw [h'.denied, until_iff_exists hok', hmem, ← until_iff_exists hok, ← h.denied]
  | .ok (some true) =>
    obtain ⟨hall, hallowed⟩ := h.allowed.1 rfl
    refine h'.allowed.2 ⟨fun c hc => ⟨hok' c hc, fun hdenies => ?_⟩, (hmem true).2 hallowed⟩
    obtain ⟨d, hd, hdenies⟩ := (hmem false).1 ⟨c, hc, hdenies⟩
    exact (hall d hd).2 hdenies
  | .ok none =>
    have hall := h.abstained.1 rfl
    refine h'.abstained.2 fun c hc => ⟨hok' c hc, fun verdict hreacts => ?_⟩
    obtain ⟨d, hd, hreacts⟩ := (hmem verdict).1 ⟨c, hc, hreacts⟩
    exact (hall d hd).2 verdict hreacts
  | .error e =>
    obtain ⟨before, c, after, rfl, hfails, -⟩ := h.fails.1 ⟨e, rfl⟩
    exact absurd (hok c (List.mem_append_right before List.mem_cons_self)) hfails

/-- The error of the first content that cannot be made a predicate of. -/
def Content.FirstFault (checks : Checks) (contents : List Content) (e : Error) : Prop :=
  Until (fun c => ∃ p, (Checks.compile c.check checks).result = .ok p)
    (fun c => (Checks.compile c.check checks).result = .error e) contents

theorem Content.compiles_iff {checks : Checks} {content : Content} :
    (∃ made, (content.compile checks).result = .ok made) ↔
      ∃ p, (Checks.compile content.check checks).result = .ok p := by
  simp [compile_ok_iff]

theorem Content.mapM_compile_error_iff {checks : Checks} (h : checks.memo = none)
    {contents : List Content} {e : Error} :
    (contents.mapM compile checks).result = .error e ↔ FirstFault checks contents e := by
  rw [Act.mapM_error_iff (compile_state h)]
  simp only [compiles_iff, compile_error_iff]
  rfl

theorem Content.mapM_compile_answers_iff {checks : Checks} (h : checks.memo = none)
    {contents : List Content} :
    (∃ made, (contents.mapM compile checks).result = .ok made) ↔
      ∀ c ∈ contents, ∃ p, (Checks.compile c.check checks).result = .ok p := by
  rw [Act.mapM_answers_iff (compile_state h)]
  simp only [compiles_iff]

namespace Policy

variable (policy : Policy) (context : Context) {s : Evaluation} (hs : s.Memoless)
include hs

/-- The first content that cannot be made a predicate of is the error, and no check is evaluated. -/
theorem react_of_fault {c : Content} (hc : c ∈ policy.contents) {e : Error}
    (he : (Checks.compile c.check s.checks).result = .error e) :
    ∃ e, Content.FirstFault s.checks policy.contents e ∧
      (policy.react context s).result = .error e ∧ (policy.react context s).state = s ∧
      ∀ event ∈ (policy.react context s).trail, event.IsBuilding := by
  cases hmade : (policy.contents.mapM Content.compile s.checks).result with
  | ok made =>
    obtain ⟨p, hp⟩ := (Content.mapM_compile_answers_iff hs.checks).1 ⟨made, hmade⟩ c hc
    rw [he] at hp
    cases hp
  | error e =>
    have hfault : (Evaluation.onChecks (policy.contents.mapM Content.compile) s).result = .error e :=
      hmade
    have hbuilds : Act.Leaves Event.IsBuilding
        (Evaluation.onChecks (policy.contents.mapM Content.compile)) :=
      (Act.Leaves.mapM Content.builds_compile).zoom _ _
    have hstate : (policy.contents.mapM Content.compile s.checks).state = s.checks :=
      Act.mapM_state (Content.compile_state hs.checks) policy.contents
    refine ⟨e, (Content.mapM_compile_error_iff hs.checks).1 hmade, ?_⟩
    rw [react, Act.bind_error hfault]
    refine ⟨rfl, ?_, hbuilds s⟩
    simp only [Evaluation.onChecks, Act.zoom_apply, hstate]

/-- A policy all of whose contents can be made predicates of reacts as they answer. -/
theorem isReaction_react
    (h : ∀ c ∈ policy.contents, ∃ p, (Checks.compile c.check s.checks).result = .ok p) :
    IsReaction (fun c => (c.answer context s).result) policy.contents
      (policy.react context s).result := by
  obtain ⟨made, hmade⟩ := (Content.mapM_compile_answers_iff hs.checks).2 h
  have hcompiled : (Evaluation.onChecks (policy.contents.mapM Content.compile) s).result = .ok made :=
    hmade
  have hreact : (policy.react context s).result =
      (Content.scan context false made s.inquiry).result := by
    rw [react, Act.bind_ok hcompiled]
    rfl
  rw [hreact, Content.result_scan hs ((Act.mapM_ok_iff (Content.compile_state hs.checks)).1 hmade)]
  exact Content.isReaction_settle _ policy.contents

/-- **A policy reacts content by content.** Without memos, if a content cannot be made a predicate of,
the first such content in order is the error, and no check of any content is evaluated. Else the
reaction is that of `IsReaction` on what the contents answer, each by itself. If moreover none of them
fails, the contents with a reaction may stand in any order, and others without a reaction that do not
fail may come or go: the reaction is the same. -/
theorem react_content_by_content :
    let answer := fun c : Content => (c.answer context s).result
    let reacted := policy.react context s
    (∀ c ∈ policy.contents, ∀ e, (Checks.compile c.check s.checks).result = .error e →
      ∃ e, Content.FirstFault s.checks policy.contents e ∧ reacted.result = .error e ∧
        reacted.state = s ∧ ∀ event ∈ reacted.trail, event.IsBuilding) ∧
    ((∀ c ∈ policy.contents, ∃ p, (Checks.compile c.check s.checks).result = .ok p) →
      IsReaction answer policy.contents reacted.result ∧
      ((∀ c ∈ policy.contents, c.Answers answer) → ∀ contents' : List Content,
        (∀ c, c.reaction ≠ none → (c ∈ contents' ↔ c ∈ policy.contents)) →
        (∀ c ∈ contents', c.reaction = none → c.Answers answer) →
        (react { policy with contents := contents' } context s).result = reacted.result)) := by
  intro answer reacted
  refine ⟨fun c hc e he => react_of_fault policy context hs hc he, fun hcompiles => ?_⟩
  have hreaction : IsReaction answer policy.contents reacted.result :=
    isReaction_react policy context hs hcompiles
  refine ⟨hreaction, fun hok contents' hsame habstain => ?_⟩
  have hok' : ∀ c ∈ contents', c.Answers answer := by
    intro c hc
    by_cases hnone : c.reaction = none
    · exact habstain c hc hnone
    · exact hok c ((hsame c hnone).1 hc)
  have hreaction' := isReaction_react { policy with contents := contents' } context hs
    fun c hc => (hok' c hc).elim fun _ => Content.compiles_of_answer
  exact hreaction.result_eq hreaction' hok hok' hsame

end Policy

/-- A content that does not match and one that abstains stand around an allowance, and the other way
round. -/
theorem Policy.react_content_by_content_reversed :
    let s : Evaluation := ⟨{}, ⟨⟨.empty, none⟩, none⟩⟩
    let context : Context := ⟨⟨⟨1⟩⟩, .one "read", ⟨⟨2⟩⟩⟩
    let contents : List Content :=
      [⟨[.access (.one "write")], some false⟩, ⟨[.access (.one "read")], some true⟩, ⟨[], none⟩]
    s.Memoless ∧
      (react { id := ⟨⟨3⟩⟩, contents := contents } context s).result = .ok (some true) ∧
      (react { id := ⟨⟨3⟩⟩, contents := contents.reverse } context s).result = .ok (some true) := by
  intro s context contents
  have hs : s.Memoless := ⟨rfl, rfl⟩
  have hcompiles : ∀ c ∈ contents, ∃ p, (Checks.compile c.check s.checks).result = .ok p := by
    simp only [contents, List.forall_mem_cons]
    exact ⟨⟨_, rfl⟩, ⟨_, rfl⟩, ⟨_, rfl⟩, by simp⟩
  have hanswers : ∀ c ∈ contents, c.Answers fun c => (c.answer context s).result := by
    simp only [contents, List.forall_mem_cons]
    exact ⟨⟨_, rfl⟩, ⟨_, rfl⟩, ⟨_, rfl⟩, by simp⟩
  obtain ⟨-, hreacts⟩ :=
    react_content_by_content { id := ⟨⟨3⟩⟩, contents := contents } context hs
  obtain ⟨hreaction, hsame⟩ := hreacts hcompiles
  have hdenies : ∀ c ∈ contents, ¬c.Reacts (fun c => (c.answer context s).result) false := by
    simp only [contents, List.forall_mem_cons]
    refine ⟨?_, ?_, ?_, by simp⟩
    · rintro ⟨hmatches, -⟩
      cases hmatches
    · rintro ⟨-, hreaction⟩
      cases hreaction
    · rintro ⟨-, hreaction⟩
      cases hreaction
  have hallowed : (react { id := ⟨⟨3⟩⟩, contents := contents } context s).result =
      .ok (some true) := by
    refine hreaction.allowed.2 ⟨fun c hc => ⟨hanswers c hc, hdenies c hc⟩, ?_⟩
    exact ⟨_, List.mem_cons_of_mem _ List.mem_cons_self, rfl, rfl⟩
  refine ⟨hs, hallowed, ?_⟩
  rw [hsame hanswers contents.reverse (fun c _ => List.mem_reverse)
    fun c hc _ => hanswers c (List.mem_reverse.1 hc)]
  exact hallowed

end PolicyDecision
