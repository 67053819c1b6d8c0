import Mathlib.Algebra.Field.Defs
import Mathlib.Data.List.Sort
import WiseTraceLoom.Lib.Interleaving
import WiseTraceLoom.Prompts.Versions

/-!
# Golden sets and their runs

The host registers a golden set for a slot: cases, and a runner that tells for each case how a
template does on it.  A new version of the slot is evaluated when it is registered, and the gate of
`production` asks for the summary that is written.

The registry of golden sets is state of the process.  What a runner answers, and whether it raises,
is up to the host.  `EvalStep` is one step of a run of a golden set that runs among other calls, and
`PromptsStep` one step of any of the calls around prompts.

Next to the state stands a list of events, which the code does not have and no step looks at: what
was registered, run and stored, in this order.
-/

set_option autoImplicit false

namespace WiseTraceLoom

open Interleaving

/-! ## Golden sets -/

/-- A case of a golden set.  What it asks for is known to the runner only. -/
structure GoldenCase where
  /-- Its name. -/
  caseId : Str
  deriving DecidableEq

/-- What a runner answers for a case. -/
structure EvalCaseResult (K : Type) where
  /-- Has the version passed? -/
  passed : Bool
  /-- What the case has cost. -/
  costUsd : K
  /-- How long it took. -/
  latencyMs : K

/-- A golden set.  A runner is some callable of the host. -/
structure GoldenSuite (ρ : Type) where
  /-- The cases. -/
  cases : List GoldenCase
  /-- What scores them. -/
  runner : ρ
  /-- There is a case. -/
  nonempty : cases ≠ []

/-- What setting, running or clearing a golden set raises. -/
inductive EvalError where
  | emptySlot
  | emptySet
  | noSuite (slotName : Str)
  | unknownVersion (versionId : ℤ)
  /-- The runner has raised. -/
  | runner
  /-- Anything else a statement raises. -/
  | other
  deriving DecidableEq

/-- The text of an error. -/
def EvalError.message : EvalError → Option Str
  | .emptySlot => some "slot_name must be non-empty".toList
  | .emptySet => some "golden set must contain at least one case".toList
  | .noSuite slotName =>
    some ("no golden set registered for slot ".toList ++ Text.repr slotName)
  | .unknownVersion v => some ("unknown prompt version id: ".toList ++ Text.ofInt v)
  | .runner => none
  | .other => none

/-- Something that has happened. -/
inductive EvalEvent (K ρ : Type) where
  /-- A golden set was registered. -/
  | registered (slotName : Str) (suite : GoldenSuite ρ)
  /-- A version is about to be run against a golden set. -/
  | started (version : PromptVersion) (template : Str) (suite : GoldenSuite ρ)
  /-- The runner has answered for every case. -/
  | finished (version : PromptVersion) (suite : GoldenSuite ρ) (results : List (EvalCaseResult K))
  /-- A summary was written. -/
  | stored (versionId : ℤ)

/-- The tables for prompts, what the process knows about golden sets, and what has happened. -/
structure EvalStore (K ρ : Type) where
  /-- The tables. -/
  prompts : PromptStore K
  /-- The golden sets of the slots. -/
  suites : List (Str × GoldenSuite ρ)
  /-- The thresholds. -/
  thresholds : RegressionThresholds K
  /-- What has happened. -/
  events : List (EvalEvent K ρ)

variable {K ρ : Type}

/-- The golden set of a slot. -/
def EvalStore.suite (σ : EvalStore K ρ) (slotName : Str) : Option (GoldenSuite ρ) :=
  (σ.suites.find? fun entry ↦ entry.1 = slotName).map Prod.snd

/-- What the gate reads. -/
def EvalStore.gate (σ : EvalStore K ρ) : EvalGate K := ⟨σ.suites.map Prod.fst, σ.thresholds⟩

/-- The same, with one more event. -/
def EvalStore.note (σ : EvalStore K ρ) (e : EvalEvent K ρ) : EvalStore K ρ :=
  { σ with events := σ.events ++ [e] }

/-- `set_golden_set`: the name is stripped. -/
def setGoldenSet (slotName : Str) (cases : List GoldenCase) (runner : ρ) (σ : EvalStore K ρ) :
    Except EvalError Unit × EvalStore K ρ :=
  let slotName := Text.strip slotName
  if slotName = [] then (.error .emptySlot, σ)
  else if h : cases = [] then (.error .emptySet, σ)
  else
    let suite : GoldenSuite ρ := ⟨cases, runner, h⟩
    let suites := (slotName, suite) :: σ.suites.filter fun entry ↦ entry.1 ≠ slotName
    (.ok (), { σ with suites }.note (.registered slotName suite))

/-- `clear_golden_set`: the name is taken as it is. -/
def clearGoldenSet (slotName : Option Str) (σ : EvalStore K ρ) : EvalStore K ρ :=
  match slotName with
  | none => { σ with suites := [] }
  | some slotName => { σ with suites := σ.suites.filter fun entry ↦ entry.1 ≠ slotName }

/-- `set_regression_thresholds`. -/
def setRegressionThresholds (thresholds : RegressionThresholds K) (σ : EvalStore K ρ) :
    EvalStore K ρ := { σ with thresholds }

/-! ## Summaries -/

/-- `_p95`: nearest rank. -/
def p95 [LinearOrder K] [Zero K] (values : List K) : K :=
  let ordered := values.insertionSort (· ≤ ·)
  let idx := (19 * ordered.length + 19) / 20 - 1
  (ordered[min idx (ordered.length - 1)]?).getD 0

/-- The summary of the results of a run. -/
def summarize [LinearOrder K] [Field K] (version : PromptVersion)
    (results : List (EvalCaseResult K)) (now : Timestamp) : EvalSummary K where
  promptVersionId := version.id
  slotName := version.slotName
  nCases := results.length
  nPassed := results.countP EvalCaseResult.passed
  passRate := (results.countP EvalCaseResult.passed : K) / results.length
  meanCostUsd := (results.map EvalCaseResult.costUsd).sum / results.length
  p95LatencyMs := p95 (results.map EvalCaseResult.latencyMs)
  evaluatedAt := (utcnow now).column

/-- The insert of a summary and its commit, `none` if the version has one. -/
def PromptStore.insertSummary (st : PromptStore K) (summary : EvalSummary K) :
    Option (PromptStore K) :=
  if (st.evalSummary summary.promptVersionId).isSome then none
  else some { st with summaries := st.summaries ++ [summary] }

/-- What an update of a loaded summary makes of the row in the table.  A column is written only if
its new value differs from the one that was loaded. -/
def EvalSummary.overwrite [DecidableEq K] (loaded summary row : EvalSummary K) : EvalSummary K :=
  let column {β : Type} [DecidableEq β] (f : EvalSummary K → β) : β :=
    if f loaded = f summary then f row else f summary
  { row with
    nCases := column EvalSummary.nCases
    nPassed := column EvalSummary.nPassed
    passRate := column EvalSummary.passRate
    meanCostUsd := column EvalSummary.meanCostUsd
    p95LatencyMs := column EvalSummary.p95LatencyMs
    evaluatedAt := column EvalSummary.evaluatedAt }

/-- The update of a loaded summary and its commit. -/
def PromptStore.updateSummary [DecidableEq K] (st : PromptStore K)
    (loaded summary : EvalSummary K) : PromptStore K :=
  { st with
    summaries := st.summaries.map fun row ↦
      if row.promptVersionId = loaded.promptVersionId then loaded.overwrite summary row else row }

/-! ## Calls among others -/

/-- Where a call to `run_golden_eval` stands. -/
inductive GoldenEval (K ρ : Type) where
  | called (versionId : ℤ) (template : Str)
  /-- The version was loaded. -/
  | loaded (version : PromptVersion) (template : Str)
  /-- The runner has answered for the first cases. -/
  | running (version : PromptVersion) (template : Str) (suite : GoldenSuite ρ)
      (results : List (EvalCaseResult K))
  /-- The summary is made, and has yet to be stored. -/
  | scored (summary : EvalSummary K)
  /-- The version has no summary. -/
  | absent (summary : EvalSummary K)
  /-- Its summary was loaded. -/
  | found (summary existing : EvalSummary K)
  /-- The summary of the version was written. -/
  | stored (versionId : ℤ)
  | returned (summary : EvalSummary K)
  | raised (e : EvalError)

/-- Has the call ended? -/
def GoldenEval.ended : GoldenEval K ρ → Bool
  | .returned _ => true
  | .raised _ => true
  | _ => false

/-- One step of a call to `run_golden_eval`. -/
inductive EvalStep [LinearOrder K] [Field K] :
    EvalStore K ρ → GoldenEval K ρ → EvalStore K ρ → GoldenEval K ρ → Prop
  | unknownVersion {σ : EvalStore K ρ} {v : ℤ} {t : Str} (h : σ.prompts.version v = none) :
      EvalStep σ (.called v t) σ (.raised (.unknownVersion v))
  | load {σ : EvalStore K ρ} {v : ℤ} {t : Str} {version : PromptVersion}
      (h : σ.prompts.version v = some version) :
      EvalStep σ (.called v t) σ (.loaded version t)
  | noSuite {σ : EvalStore K ρ} {version : PromptVersion} {t : Str}
      (h : σ.suite version.slotName = none) :
      EvalStep σ (.loaded version t) σ (.raised (.noSuite version.slotName))
  | start {σ : EvalStore K ρ} {version : PromptVersion} {t : Str} {suite : GoldenSuite ρ}
      (h : σ.suite version.slotName = some suite) :
      EvalStep σ (.loaded version t) (σ.note (.started version t suite))
        (.running version t suite [])
  | answer {σ : EvalStore K ρ} {version : PromptVersion} {t : Str} {suite : GoldenSuite ρ}
      {results : List (EvalCaseResult K)} (h : results.length < suite.cases.length)
      (result : EvalCaseResult K) :
      EvalStep σ (.running version t suite results) σ
        (.running version t suite (results ++ [result]))
  | runnerError {σ : EvalStore K ρ} {version : PromptVersion} {t : Str} {suite : GoldenSuite ρ}
      {results : List (EvalCaseResult K)} (h : results.length < suite.cases.length) :
      EvalStep σ (.running version t suite results) σ (.raised .runner)
  | score {σ : EvalStore K ρ} {version : PromptVersion} {t : Str} {suite : GoldenSuite ρ}
      {results : List (EvalCaseResult K)} (now : Timestamp)
      (h : results.length = suite.cases.length) :
      EvalStep σ (.running version t suite results) (σ.note (.finished version suite results))
        (.scored (summarize version results now))
  | findNone {σ : EvalStore K ρ} {summary : EvalSummary K}
      (h : σ.prompts.evalSummary summary.promptVersionId = none) :
      EvalStep σ (.scored summary) σ (.absent summary)
  | find {σ : EvalStore K ρ} {summary existing : EvalSummary K}
      (h : σ.prompts.evalSummary summary.promptVersionId = some existing) :
      EvalStep σ (.scored summary) σ (.found summary existing)
  | insert {σ : EvalStore K ρ} {summary : EvalSummary K} {st' : PromptStore K}
      (h : σ.prompts.insertSummary summary = some st') :
      EvalStep σ (.absent summary)
        ({ σ with prompts := st' }.note (.stored summary.promptVersionId))
        (.stored summary.promptVersionId)
  /-- `IntegrityError`: the version got a summary in the meantime. -/
  | integrityError {σ : EvalStore K ρ} {summary : EvalSummary K}
      (h : σ.prompts.insertSummary summary = none) :
      EvalStep σ (.absent summary) σ (.raised .other)
  | update {σ : EvalStore K ρ} {summary existing : EvalSummary K} :
      EvalStep σ (.found summary existing)
        ({ σ with prompts := σ.prompts.updateSummary existing summary }.note
          (.stored summary.promptVersionId)) (.stored summary.promptVersionId)
  | refresh {σ : EvalStore K ρ} {v : ℤ} {summary : EvalSummary K}
      (h : σ.prompts.evalSummary v = some summary) :
      EvalStep σ (.stored v) σ (.returned summary)
  /-- Anything a statement raises. -/
  | fail {σ : EvalStore K ρ} {c : GoldenEval K ρ} (h : c.ended = false) :
      EvalStep σ c σ (.raised .other)

/-- The delete of an alias and its commit. -/
def PromptStore.deleteAlias (st : PromptStore K) (id : ℤ) : PromptStore K :=
  { st with aliases := st.aliases.filter fun row ↦ row.id ≠ id }

/-- Where a call to `clear_prompt_alias` stands. -/
inductive ClearCall where
  | called (slotName name : Str)
  /-- The row of the alias was loaded. -/
  | found (row : PromptAlias)
  | returned
  | raised

/-- One step of a call to `clear_prompt_alias`. -/
inductive ClearStep (u : Unicode) : PromptStore K → ClearCall → PromptStore K → ClearCall → Prop
  | emptyAlias {st : PromptStore K} {s n : Str} (h : normalizeAlias u n = []) :
      ClearStep u st (.called s n) st .returned
  | findNone {st : PromptStore K} {s n : Str} (hn : normalizeAlias u n ≠ [])
      (h : st.promptAlias s (normalizeAlias u n) = none) :
      ClearStep u st (.called s n) st .returned
  | find {st : PromptStore K} {s n : Str} {row : PromptAlias} (hn : normalizeAlias u n ≠ [])
      (h : st.promptAlias s (normalizeAlias u n) = some row) :
      ClearStep u st (.called s n) st (.found row)
  | delete {st : PromptStore K} {row : PromptAlias} :
      ClearStep u st (.found row) (st.deleteAlias row.id) .returned
  /-- Anything a statement raises. -/
  | fail {st : PromptStore K} {c : ClearCall} : ClearStep u st c st .raised

/-! ## The system -/

/-- What a thread is doing. -/
inductive PromptsCall (K ρ : Type) where
  | idle
  /-- `set_prompt_alias`, and whether it has changed the table of the aliases. -/
  | setAlias (c : AliasCall K) (wrote : Bool)
  | clearAlias (c : ClearCall)
  /-- `register_prompt_version`, except for the evaluation of a new version. -/
  | register (c : RegisterCall)
  /-- `maybe_eval_on_detection` in a call that has registered a version. -/
  | detect (a : RegisterArgs) (row : PromptVersion) (e : GoldenEval K ρ)
  | evaluate (e : GoldenEval K ρ)

/-- One step of one thread. -/
inductive PromptsStep [LinearOrder K] [Field K] (u : Unicode) :
    EvalStore K ρ → PromptsCall K ρ → EvalStore K ρ → PromptsCall K ρ → Prop
  | setGoldenSet {σ : EvalStore K ρ} (s : Str) (cases : List GoldenCase) (runner : ρ) :
      PromptsStep u σ .idle (setGoldenSet s cases runner σ).2 .idle
  | clearGoldenSet {σ : EvalStore K ρ} (s : Option Str) :
      PromptsStep u σ .idle (clearGoldenSet s σ) .idle
  | setRegressionThresholds {σ : EvalStore K ρ} (thresholds : RegressionThresholds K) :
      PromptsStep u σ .idle (setRegressionThresholds thresholds σ) .idle
  | startSetAlias {σ : EvalStore K ρ} (s n : Str) (v : ℤ) :
      PromptsStep u σ .idle σ (.setAlias (.called s n v) false)
  | startClearAlias {σ : EvalStore K ρ} (s n : Str) :
      PromptsStep u σ .idle σ (.clearAlias (.called s n))
  | startRegister {σ : EvalStore K ρ} (a : RegisterArgs) :
      PromptsStep u σ .idle σ (.register (.called a))
  | startEvaluate {σ : EvalStore K ρ} (v : ℤ) (t : Str) :
      PromptsStep u σ .idle σ (.evaluate (.called v t))
  /-- The call has ended, or the thread was killed in the middle of it. -/
  | stop {σ : EvalStore K ρ} {c : PromptsCall K ρ} : PromptsStep u σ c σ .idle
  | setAlias {σ : EvalStore K ρ} {c c' : AliasCall K} {wrote : Bool} {st' : PromptStore K}
      (h : AliasStep u σ.gate σ.prompts c st' c') :
      PromptsStep u σ (.setAlias c wrote) { σ with prompts := st' }
        (.setAlias c' (wrote || decide (st'.aliases ≠ σ.prompts.aliases)))
  | clearAlias {σ : EvalStore K ρ} {c c' : ClearCall} {st' : PromptStore K}
      (h : ClearStep u σ.prompts c st' c') :
      PromptsStep u σ (.clearAlias c) { σ with prompts := st' } (.clearAlias c')
  /-- Up to the commit, or what the refresh after it raises. -/
  | register {σ : EvalStore K ρ} {c c' : RegisterCall} {st' : PromptStore K}
      (h : RegisterStep σ.prompts c st' c')
      (hc : ∀ a row, c = .committed a row → c' = .raised a) :
      PromptsStep u σ (.register c) { σ with prompts := st' } (.register c')
  | skip {σ : EvalStore K ρ} {a : RegisterArgs} {row : PromptVersion}
      (h : σ.suite row.slotName = none) :
      PromptsStep u σ (.register (.committed a row)) σ (.register (.returned a row))
  | detect {σ : EvalStore K ρ} {a : RegisterArgs} {row : PromptVersion}
      (h : σ.suite row.slotName ≠ none) :
      PromptsStep u σ (.register (.committed a row)) σ (.detect a row (.called row.id a.template))
  | detecting {σ σ' : EvalStore K ρ} {a : RegisterArgs} {row : PromptVersion}
      {e e' : GoldenEval K ρ} (h : EvalStep σ e σ' e') :
      PromptsStep u σ (.detect a row e) σ' (.detect a row e')
  /-- What the evaluation raises is swallowed. -/
  | detected {σ : EvalStore K ρ} {a : RegisterArgs} {row : PromptVersion} {e : GoldenEval K ρ}
      (h : e.ended = true) : PromptsStep u σ (.detect a row e) σ (.register (.returned a row))
  | evaluate {σ σ' : EvalStore K ρ} {e e' : GoldenEval K ρ} (h : EvalStep σ e σ' e') :
      PromptsStep u σ (.evaluate e) σ' (.evaluate e')

end WiseTraceLoom
