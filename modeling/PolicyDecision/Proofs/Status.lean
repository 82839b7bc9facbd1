import PolicyDecision.Command
import PolicyDecision.Proofs.Spelling

/-!
# What the exit status says

A run with well-formed arguments loads a configuration, a snapshot and a query, and decides the query
(`Command.Decides`), or it fails on the way or in the decision (`Command.Fails`). An allowance exits with 0
and a query that no policy decides with 2, and nothing else does. But 1 is the status of every failure as
well as of a denial, and only the output and the complaint tell them apart (`Command.status_of_spelled`).

The log has no part in this. What a check comes to is stated without it (`Command.outcome`), and the steps of
the check come to that whatever has been logged (`Run.Gives`).
-/

namespace PolicyDecision.Command

/-! ### Verdicts and failures -/

/-- The variables and the files of the arguments say this. -/
structure Loads (around : Surroundings) (arguments : Arguments) (config : Config) (snapshot : Snapshot)
    (query : Query) : Prop where
  config_eq : Config.ofVariables around.environment = .ok config
  snapshot_eq :
    File.decode (Snapshot.decode around.fresh) (around.files arguments.snapshot) = .ok snapshot
  query_eq : File.decode Query.decode (around.files arguments.query) = .ok query

/-- What comes of the request with a new engine over the snapshot. A compounder that is named in the
arguments goes before that of the query. -/
inductive Decides (around : Surroundings) (arguments : Arguments) : Except Error Bool → Prop
  | intro {config : Config} {snapshot : Snapshot} {query : Query}
      (h : Loads around arguments config snapshot query) :
      Decides around arguments (Engine.check query.request
        (arguments.compounder.getD query.compounder).compounder
        (.new (.ofSnapshot snapshot) config {})).result

/-- The first thing that cannot be read, as steps are taken in order. -/
inductive FailsToLoad (around : Surroundings) (arguments : Arguments) : Failure → Prop
  | configuration {fault : ConfigFault} (h : Config.ofVariables around.environment = .error fault) :
      FailsToLoad around arguments ⟨"invalid IPERMIT_* configuration", .config fault⟩
  | snapshot {config : Config} {cause : Error} (hconfig : Config.ofVariables around.environment = .ok config)
      (h : File.decode (Snapshot.decode around.fresh) (around.files arguments.snapshot) = .error cause) :
      FailsToLoad around arguments ⟨s!"failed to load snapshot {arguments.snapshot}", cause⟩
  | unread {config : Config} {snapshot : Snapshot} {cause : Error}
      (hconfig : Config.ofVariables around.environment = .ok config)
      (hsnapshot :
        File.decode (Snapshot.decode around.fresh) (around.files arguments.snapshot) = .ok snapshot)
      (h : File.text (around.files arguments.query) = .error cause) :
      FailsToLoad around arguments ⟨s!"failed to read {arguments.query}", cause⟩
  | malformed {config : Config} {snapshot : Snapshot} {text : String} {cause : DecodeError}
      (hconfig : Config.ofVariables around.environment = .ok config)
      (hsnapshot :
        File.decode (Snapshot.decode around.fresh) (around.files arguments.snapshot) = .ok snapshot)
      (htext : File.text (around.files arguments.query) = .ok text)
      (h : decodeText Query.decode text = .error cause) :
      FailsToLoad around arguments ⟨s!"failed to parse request {arguments.query}", .serialization cause⟩

/-- There is no verdict, and it is not that no policy reacted. -/
inductive Fails (around : Surroundings) (arguments : Arguments) : Failure → Prop
  | load {failure : Failure} (h : FailsToLoad around arguments failure) : Fails around arguments failure
  | check {cause : Error} (h : Decides around arguments (.error cause)) (hcause : cause ≠ .noDecision) :
      Fails around arguments ⟨"permission check failed", cause⟩

/-! ### Steps without their log -/

/-- What a check comes to, whatever is logged. -/
def outcome (around : Surroundings) (arguments : Arguments) :
    Except Failure (CompounderKind × Except Error Bool) := do
  let config ← ((Config.ofVariables around.environment).mapError .config).mapError
    (Failure.mk "invalid IPERMIT_* configuration")
  let snapshot ← (File.decode (Snapshot.decode around.fresh) (around.files arguments.snapshot)).mapError
    (Failure.mk s!"failed to load snapshot {arguments.snapshot}")
  let text ← (File.text (around.files arguments.query)).mapError
    (Failure.mk s!"failed to read {arguments.query}")
  let query ← ((decodeText Query.decode text).mapError .serialization).mapError
    (Failure.mk s!"failed to parse request {arguments.query}")
  let kind := arguments.compounder.getD query.compounder
  return (kind, (Engine.check query.request kind.compounder (.new (.ofSnapshot snapshot) config {})).result)

namespace Run

variable {α β : Type}

/-- The steps come to this, whatever has been logged. -/
def Gives (x : Run α) (result : Except Failure α) : Prop :=
  ∀ log, (x.run.run log).1 = result

theorem gives_pure (a : α) : Gives (pure a) (.ok a) := fun _ => rfl

theorem Gives.bind {x : Run α} {f : α → Run β} {result : Except Failure α}
    {g : α → Except Failure β} (hx : x.Gives result) (hf : ∀ a, (f a).Gives (g a)) :
    (x >>= f).Gives (result >>= g) := by
  intro log
  show ((ExceptT.bindCont f (x.run.run log).1).run (x.run.run log).2).1 = _
  rw [hx log]
  cases result with
  | ok a => exact hf a _
  | error failure => rfl

theorem gives_attempt (step : String) (result : Except Error α) :
    (attempt step result).Gives (result.mapError (Failure.mk step)) := by
  intro log
  cases result with
  | ok a => rfl
  | error cause => rfl

theorem Gives.after_remark {x : Run α} {result : Except Failure α} (h : x.Gives result) (r : Remark) :
    (remark r >>= fun _ => x).Gives result := by
  have hremark : (remark r).Gives (.ok ()) := fun _ => rfl
  exact hremark.bind fun _ => h

theorem Gives.after_remark_if {p : Prop} [Decidable p] {x : Run α} {result : Except Failure α}
    (h : x.Gives result) (r : Remark) : (if p then remark r >>= fun _ => x else x).Gives result := by
  split
  · exact h.after_remark r
  · exact h

end Run

theorem gives_decide (config : Config) (snapshot : Snapshot) (query : Query) :
    (decide config snapshot query).Gives
      (.ok (Engine.check query.request query.compounder.compounder
        (.new (.ofSnapshot snapshot) config {})).result) :=
  fun _ => rfl

/-- **A check comes to its outcome.** -/
theorem gives_check (around : Surroundings) (arguments : Arguments) :
    (check around arguments).Gives (outcome around arguments) := by
  unfold check outcome
  -- Each attempt is a step of the outcome; the remarks between them are none.
  refine Run.Gives.after_remark ?_ _
  refine (Run.gives_attempt _ _).bind fun config => ?_
  refine Run.Gives.after_remark_if ?_ _
  refine (Run.gives_attempt _ _).bind fun snapshot => ?_
  refine Run.Gives.after_remark ?_ _
  refine (Run.gives_attempt _ _).bind fun text => ?_
  refine (Run.gives_attempt _ _).bind fun query => ?_
  refine Run.Gives.after_remark ?_ _
  exact (gives_decide config snapshot _).bind fun result => Run.gives_pure _

section

variable {around : Surroundings} {arguments : Arguments}

theorem decode_of_text {α : Type} {decode : Source → Document → Decoded α} {bytes : Option ByteArray}
    {text : String} (h : File.text bytes = .ok text) :
    File.decode decode bytes = (decodeText decode text).mapError .serialization := by
  rw [File.decode, h]
  rfl

/-- **The files can be read or they cannot.** -/
theorem loads_or_fails (around : Surroundings) (arguments : Arguments) :
    (∃ config snapshot query, Loads around arguments config snapshot query) ∨
      ∃ failure, FailsToLoad around arguments failure := by
  cases hconfig : Config.ofVariables around.environment with
  | error fault => exact .inr ⟨_, .configuration hconfig⟩
  | ok config =>
    cases hsnapshot : File.decode (Snapshot.decode around.fresh) (around.files arguments.snapshot) with
    | error cause => exact .inr ⟨_, .snapshot hconfig hsnapshot⟩
    | ok snapshot =>
      cases htext : File.text (around.files arguments.query) with
      | error cause => exact .inr ⟨_, .unread hconfig hsnapshot htext⟩
      | ok text =>
        cases hquery : decodeText Query.decode text with
        | error cause => exact .inr ⟨_, .malformed hconfig hsnapshot htext hquery⟩
        | ok query =>
          have hdecode : File.decode Query.decode (around.files arguments.query) = .ok query := by
            rw [decode_of_text htext, hquery]
            rfl
          exact .inl ⟨config, snapshot, query, hconfig, hsnapshot, hdecode⟩

/-- What an outcome comes to once the query is a text. -/
theorem outcome_of_text {config : Config} {snapshot : Snapshot} {text : String}
    (hconfig : Config.ofVariables around.environment = .ok config)
    (hsnapshot : File.decode (Snapshot.decode around.fresh) (around.files arguments.snapshot) = .ok snapshot)
    (htext : File.text (around.files arguments.query) = .ok text) :
    outcome around arguments = do
      let query ← ((decodeText Query.decode text).mapError .serialization).mapError
        (Failure.mk s!"failed to parse request {arguments.query}")
      let kind := arguments.compounder.getD query.compounder
      return (kind,
        (Engine.check query.request kind.compounder (.new (.ofSnapshot snapshot) config {})).result) := by
  unfold outcome
  rw [hconfig, hsnapshot, htext]
  rfl

theorem outcome_of_decides {result : Except Error Bool} (h : Decides around arguments result) :
    ∃ kind, outcome around arguments = .ok (kind, result) := by
  cases h with
  | @intro config snapshot query h =>
    refine ⟨arguments.compounder.getD query.compounder, ?_⟩
    cases htext : File.text (around.files arguments.query) with
    | error cause =>
      have hquery := h.query_eq
      rw [File.decode, htext] at hquery
      cases hquery
    | ok text =>
      rw [outcome_of_text h.config_eq h.snapshot_eq htext, ← decode_of_text htext, h.query_eq]
      rfl

theorem outcome_of_fails {failure : Failure} (h : FailsToLoad around arguments failure) :
    outcome around arguments = .error failure := by
  cases h with
  | configuration h =>
    rw [outcome, h]
    rfl
  | snapshot hconfig h =>
    rw [outcome, hconfig, h]
    rfl
  | unread hconfig hsnapshot h =>
    rw [outcome, hconfig, hsnapshot, h]
    rfl
  | malformed hconfig hsnapshot htext h =>
    rw [outcome_of_text hconfig hsnapshot htext, h]
    rfl

/-! ### Reports -/

theorem report_of_outcome {words : List String} (h : arguments.Spelled words) :
    ∃ log, run around words = .ofOutcome log (outcome around arguments) := by
  refine ⟨((check around arguments).run.run []).2, ?_⟩
  rw [run, Arguments.read_eq_check_iff.2 h, ← gives_check around arguments []]
  rfl

/-- **What a run reports of a decision.** -/
theorem report_of_decides {words : List String} (h : arguments.Spelled words)
    {result : Except Error Bool} (hresult : Decides around arguments result) :
    ∃ log kind, run around words = .ofOutcome log (.ok (kind, result)) := by
  obtain ⟨kind, hkind⟩ := outcome_of_decides hresult
  obtain ⟨log, hlog⟩ := report_of_outcome h
  rw [hkind] at hlog
  exact ⟨log, kind, hlog⟩

/-- **What a run reports of a failure.** -/
theorem report_of_fails {words : List String} (h : arguments.Spelled words) {failure : Failure}
    (hfails : Fails around arguments failure) :
    ∃ log, run around words = { status := 1, log, complaint := failure.text } := by
  cases hfails with
  | load hload =>
    obtain ⟨log, hlog⟩ := report_of_outcome h
    rw [outcome_of_fails hload] at hlog
    exact ⟨log, hlog⟩
  | @check cause hresult hcause =>
    obtain ⟨log, kind, hlog⟩ := report_of_decides h hresult
    refine ⟨log, ?_⟩
    rw [hlog]
    cases cause with
    | noDecision => exact (hcause rfl).elim
    | _ => rfl

/-- **There is a verdict, or no policy decides, or a failure.** -/
theorem decides_or_fails (around : Surroundings) (arguments : Arguments) :
    (∃ verdict, Decides around arguments (.ok verdict)) ∨
      Decides around arguments (.error .noDecision) ∨ ∃ failure, Fails around arguments failure := by
  rcases loads_or_fails around arguments with ⟨config, snapshot, query, hloads⟩ | ⟨failure, hfails⟩
  · obtain ⟨result, hresult⟩ : ∃ result, Decides around arguments result := ⟨_, .intro hloads⟩
    cases result with
    | ok verdict => exact .inl ⟨verdict, hresult⟩
    | error cause =>
      by_cases hcause : cause = .noDecision
      · exact .inr (.inl (hcause ▸ hresult))
      · exact .inr (.inr ⟨_, .check hresult hcause⟩)
  · exact .inr (.inr ⟨failure, .load hfails⟩)

/-- **The exit status tells an allowance and a query that no policy decides**, as the output tells an
allowance and a denial. There is one other status, and a denial shares it with every failure. -/
theorem status_of_spelled (around : Surroundings) {words : List String} {arguments : Arguments}
    (h : arguments.Spelled words) :
    let report := run around words
    (report.status = 0 ↔ Decides around arguments (.ok true)) ∧
    (report.output = "allow\n" ↔ Decides around arguments (.ok true)) ∧
    (report.output = "deny\n" ↔ Decides around arguments (.ok false)) ∧
    (report.status = 2 ↔ Decides around arguments (.error .noDecision)) ∧
    (report.status = 1 ↔ Decides around arguments (.ok false) ∨ ∃ failure, Fails around arguments failure) ∧
    report.status ≤ 2 ∧
    (∀ failure, Fails around arguments failure →
      report.output = "" ∧ report.complaint = failure.text) := by
  intro report
  have hsays : ∀ {result status output}, Decides around arguments result →
      (∀ log kind, (Report.ofOutcome log (.ok (kind, result))).status = status ∧
        (Report.ofOutcome log (.ok (kind, result))).output = output) →
      report.status = status ∧ report.output = output := by
    intro result status output hresult houtcome
    obtain ⟨log, kind, hreport⟩ := report_of_decides h hresult
    rw [show report = _ from hreport]
    exact houtcome log kind
  have hallows : Decides around arguments (.ok true) → report.status = 0 ∧ report.output = "allow\n" :=
    fun hresult => hsays hresult fun _ _ => ⟨rfl, rfl⟩
  have hdenies : Decides around arguments (.ok false) → report.status = 1 ∧ report.output = "deny\n" :=
    fun hresult => hsays hresult fun _ _ => ⟨rfl, rfl⟩
  have hundecided : Decides around arguments (.error .noDecision) → report.status = 2 ∧ report.output = "" :=
    fun hresult => hsays hresult fun _ _ => ⟨rfl, rfl⟩
  have hfails : ∀ failure, Fails around arguments failure →
      report.status = 1 ∧ report.output = "" ∧ report.complaint = failure.text := by
    intro failure hfailure
    obtain ⟨log, hreport⟩ := report_of_fails h hfailure
    rw [show report = _ from hreport]
    exact ⟨rfl, rfl, rfl⟩
  -- The four reports differ in status or output, so each of them tells which case it is.
  rcases decides_or_fails around arguments with ⟨verdict, hverdict⟩ | hnone | ⟨failure, hfailure⟩
  · cases verdict <;> grind
  · grind
  · grind

end

/-- A compounder and a mark before the files, and a flag that cannot be read. -/
theorem status_of_spelled_misconfigured :
    let around : Surroundings :=
      { environment := fun name => if name = "IPERMIT_CACHE_ENABLED" then some "maybe" else none
        files := fun _ => none
        fresh := fun place => ⟨⟨place⟩⟩ }
    let words := ["-c", "first-applicable", "--", "-.json", "request.json"]
    let arguments : Arguments := ⟨"-.json", "request.json", some .firstApplicable⟩
    let failure : Failure :=
      ⟨"invalid IPERMIT_* configuration", .config (.flag "IPERMIT_CACHE_ENABLED" "maybe")⟩
    arguments.Spelled words ∧ Fails around arguments failure ∧ (run around words).status = 1 ∧
      (run around words).output = "" ∧ (run around words).complaint = failure.text := by
  intro around words arguments failure
  have hflag : Arguments.IsFlag .firstApplicable ["-c", "first-applicable"] := .short
  have hfiles : Arguments.Spells ["--", "-.json", "request.json"] ["-.json", "request.json"] [] :=
    .filesOnly (by decide)
  have hspelled : arguments.Spelled words := .flag hflag hfiles
  have hconfig : Config.ofVariables around.environment = .error (.flag "IPERMIT_CACHE_ENABLED" "maybe") :=
    rfl
  have hfails : Fails around arguments failure := .load (.configuration hconfig)
  obtain ⟨-, -, -, -, hstatus, -, hreport⟩ := status_of_spelled around hspelled
  exact ⟨hspelled, hfails, hstatus.2 (.inr ⟨failure, hfails⟩), hreport failure hfails⟩

/-- There is no snapshot, so nothing is decided, and the status is that of a denial. -/
theorem status_of_missing_snapshot :
    let query := "\x7b\"requester\":\"00000000-0000-0000-0000-000000000001\",\"access\":\"read\"," ++
      "\"resource\":\"00000000-0000-0000-0000-000000000002\"\x7d"
    let around : Surroundings :=
      { environment := fun _ => none
        files := fun name => if name = "request.json" then some query.toUTF8 else none
        fresh := fun place => ⟨⟨place⟩⟩ }
    let words := ["snapshot.json", "request.json"]
    let arguments : Arguments := ⟨"snapshot.json", "request.json", none⟩
    arguments.Spelled words ∧ (∀ result, ¬Decides around arguments result) ∧
      (run around words).status = 1 := by
  intro query around words arguments
  have hspelled : arguments.Spelled words := .file ⟨by decide, rfl⟩ (.file ⟨by decide, rfl⟩ .nil)
  have hmissing : File.decode (Snapshot.decode around.fresh) (around.files arguments.snapshot) = .error .io :=
    rfl
  refine ⟨hspelled, fun result hresult => ?_, ?_⟩
  · cases hresult with
    | intro h => cases hmissing.symm.trans h.snapshot_eq
  · obtain ⟨log, hreport⟩ := report_of_fails hspelled (.load (.snapshot rfl hmissing))
    rw [hreport]

end PolicyDecision.Command
