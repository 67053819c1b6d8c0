import Mathlib.Order.Defs.LinearOrder
import WiseTraceLoom.Lib.Grown
import WiseTraceLoom.Lib.Regex
import WiseTraceLoom.Tables

/-!
# Prompt aliases and the promotion gate

An alias is a pointer from a slot to one of its prompt versions.  Moving the alias `production` is
gated: if a golden set is registered for the slot, the new version must not be worse, by more than
the thresholds allow, than the version the alias names when the gate looks.

`setPromptAlias` is a step relation, one step for each statement or commit.  The gate looks at the
pointer once, in a session of its own, and the pointer is looked up and moved in another one, so the
gate is one step and the rest of the call comes after it.

The measurements are of any ordered type with a difference and a quotient.  Names are compared in
lower case; what that is beyond ASCII the tables of the interpreter say (`Unicode`).
-/

set_option autoImplicit false

namespace WiseTraceLoom

/-! ## Tables -/

/-- A registered version of a prompt. -/
structure PromptVersion where
  /-- The primary key. -/
  id : ℤ
  /-- The slot. -/
  slotName : Str
  /-- The fingerprint of the template and its parameters. -/
  contentHash : Str
  /-- The number of the version in its slot. -/
  versionNumber : ℤ
  /-- The title. -/
  title : Str
  /-- When it was registered. -/
  createdAt : Datetime
  deriving DecidableEq

/-- A pointer from a slot to one of its versions. -/
structure PromptAlias where
  /-- The primary key. -/
  id : ℤ
  /-- The slot. -/
  slotName : Str
  /-- The name of the pointer. -/
  aliasName : Str
  /-- The version it names. -/
  promptVersionId : ℤ
  /-- When it was last moved. -/
  updatedAt : Datetime
  deriving DecidableEq

/-- What the golden set of a slot has measured for a version. -/
structure EvalSummary (K : Type) where
  /-- The version. -/
  promptVersionId : ℤ
  /-- The slot. -/
  slotName : Str
  /-- The number of cases. -/
  nCases : ℤ
  /-- The number of cases that passed. -/
  nPassed : ℤ
  /-- Their quotient. -/
  passRate : K
  /-- The mean cost of a case. -/
  meanCostUsd : K
  /-- The 95th percentile of the latencies. -/
  p95LatencyMs : K
  /-- When the golden set was run. -/
  evaluatedAt : Datetime
  deriving DecidableEq

/-- The tables for prompts. -/
structure PromptStore (K : Type) where
  /-- The versions of all slots. -/
  versions : List PromptVersion
  /-- The pointers of all slots. -/
  aliases : List PromptAlias
  /-- The evaluations. -/
  summaries : List (EvalSummary K)

/-! ## The gate -/

/-- How much worse a version may be. -/
structure RegressionThresholds (K : Type) where
  /-- By how much the pass rate may drop. -/
  passRateMaxDrop : K
  /-- By which fraction the cost may increase. -/
  costMaxIncrease : K
  /-- By which fraction the latency may increase. -/
  p95LatencyMaxIncrease : K

/-- What the process knows about golden sets. -/
structure EvalGate (K : Type) where
  /-- The slots with a golden set. -/
  suites : List Str
  /-- The thresholds. -/
  thresholds : RegressionThresholds K

/-- What is measured. -/
inductive GateMetric where
  | passRate
  | cost
  | p95Latency
  deriving DecidableEq

/-- A measurement that is worse than the thresholds allow. -/
structure GateFailure (K : Type) where
  /-- What was measured. -/
  metric : GateMetric
  /-- Its value for the new version. -/
  candidate : K
  /-- By how much it is worse. -/
  change : K
  /-- Its value for the current version. -/
  baseline : K
  /-- By how much it may be worse. -/
  limit : K
  deriving DecidableEq

/-- The text of a failure, with the measurements written by `fixed4`. -/
def GateFailure.message {K : Type} (fixed4 : K → Str) (f : GateFailure K) : Str :=
  let (name, verb, noun) := match f.metric with
    | .passRate => ("pass rate ".toList, " dropped ".toList, "drop ".toList)
    | .cost => ("cost ".toList, " increased ".toList, "increase ".toList)
    | .p95Latency => ("p95 latency ".toList, " increased ".toList, "increase ".toList)
  name ++ fixed4 f.candidate ++ verb ++ fixed4 f.change ++ " from ".toList ++ fixed4 f.baseline ++
    " (max ".toList ++ noun ++ fixed4 f.limit ++ ")".toList

/-- What setting or resolving an alias raises. -/
inductive AliasError (K : Type) where
  | emptyAlias
  | unknownVersion (versionId : ℤ)
  | otherSlot (versionId : ℤ) (actual slotName : Str)
  /-- `EvalRegressionError`: the version was never evaluated. -/
  | noEval (versionId : ℤ)
  /-- `EvalRegressionError`: the version is worse than the current one. -/
  | regressed (versionId currentId : ℤ) (failures : List (GateFailure K))
  | missingVersion (aliasName slotName : Str) (versionId : ℤ)
  | conflict (aliasName slotName : Str)
  /-- Anything else a statement raises. -/
  | other
  deriving DecidableEq

/-- The text of an error, with the measurements written by `fixed4`. -/
def AliasError.message {K : Type} (fixed4 : K → Str) : AliasError K → Option Str
  | .emptyAlias => some "alias must be non-empty".toList
  | .unknownVersion v => some ("unknown prompt version id: ".toList ++ Text.ofInt v)
  | .otherSlot v actual slotName => some ("version ".toList ++ Text.ofInt v ++
      " belongs to slot ".toList ++ Text.repr actual ++ ", not ".toList ++ Text.repr slotName)
  | .noEval v => some ("version ".toList ++ Text.ofInt v ++
      " has no golden-set eval; production promotion is blocked".toList)
  | .regressed v current failures => some ("version ".toList ++ Text.ofInt v ++
      " failed production regression gate vs version ".toList ++ Text.ofInt current ++
      ": ".toList ++ Text.join "; ".toList (failures.map (GateFailure.message fixed4)))
  | .missingVersion name slotName v => some ("alias ".toList ++ Text.repr name ++
      " in slot ".toList ++ Text.repr slotName ++ " points at missing version ".toList ++
      Text.ofInt v)
  | .conflict name slotName => some ("failed to set alias ".toList ++ Text.repr name ++
      " for slot ".toList ++ Text.repr slotName ++ " after conflict".toList)
  | .other => none

/-- `_normalize_alias`. -/
def normalizeAlias (u : Unicode) (name : Str) : Str := u.lower (Text.strip name)

/-- The gated alias. -/
def production : Str := "production".toList

/-- It is written as it is compared. -/
theorem normalizeAlias_production (u : Unicode) : normalizeAlias u production = production := by
  have hstrip : Text.strip production = production := by decide
  have hlower : u.lower production = Text.lower production := u.lower_ascii _ (by decide)
  rw [normalizeAlias, hstrip, hlower]
  decide

variable {K : Type}

/-- `session.get(PromptVersion, version_id)`. -/
def PromptStore.version (st : PromptStore K) (versionId : ℤ) : Option PromptVersion :=
  st.versions.find? fun v ↦ v.id = versionId

/-- The row of an alias. -/
def PromptStore.promptAlias (st : PromptStore K) (slotName name : Str) : Option PromptAlias :=
  st.aliases.find? fun r ↦ r.slotName = slotName ∧ r.aliasName = name

/-- The version an alias names. -/
def PromptStore.pointer (st : PromptStore K) (slotName name : Str) : Option ℤ :=
  (st.promptAlias slotName name).map PromptAlias.promptVersionId

/-- `get_eval_summary`. -/
def PromptStore.evalSummary (st : PromptStore K) (versionId : ℤ) : Option (EvalSummary K) :=
  st.summaries.find? fun s ↦ s.promptVersionId = versionId

/-- `resolve_prompt_alias`. -/
def resolvePromptAlias (u : Unicode) (st : PromptStore K) (slotName name : Str) :
    Except (AliasError K) (Option PromptVersion) :=
  if normalizeAlias u name = [] then .ok none
  else match st.promptAlias slotName (normalizeAlias u name) with
    | none => .ok none
    | some pointer =>
      match st.version pointer.promptVersionId with
      | none => .error (.missingVersion (normalizeAlias u name) slotName pointer.promptVersionId)
      | some version => .ok (some version)

section Gate

variable [LinearOrder K] [Zero K] [Sub K] [Div K]

/-- The check of a cost or a latency, which is skipped unless the current value is positive. -/
def relativeIncrease (metric : GateMetric) (limit baseline candidate : K) : List (GateFailure K) :=
  if 0 < baseline ∧ limit < (candidate - baseline) / baseline then
    [⟨metric, candidate, (candidate - baseline) / baseline, baseline, limit⟩]
  else []

/-- The `failures` of `assert_production_promotion_allowed`. -/
def EvalGate.failures (g : EvalGate K) (baseline candidate : EvalSummary K) :
    List (GateFailure K) :=
  let drop := baseline.passRate - candidate.passRate
  (if g.thresholds.passRateMaxDrop < drop then
      [⟨.passRate, candidate.passRate, drop, baseline.passRate, g.thresholds.passRateMaxDrop⟩]
    else []) ++
    relativeIncrease .cost g.thresholds.costMaxIncrease baseline.meanCostUsd
      candidate.meanCostUsd ++
    relativeIncrease .p95Latency g.thresholds.p95LatencyMaxIncrease baseline.p95LatencyMs
      candidate.p95LatencyMs

/-- `assert_production_promotion_allowed`. -/
def assertProductionPromotionAllowed (u : Unicode) (g : EvalGate K) (st : PromptStore K)
    (slotName : Str) (versionId : ℤ) : Except (AliasError K) Unit :=
  if slotName ∉ g.suites then .ok ()
  else match st.evalSummary versionId with
    | none => .error (.noEval versionId)
    | some candidate =>
      match resolvePromptAlias u st slotName production with
      | .error e => .error e
      | .ok none => .ok ()
      | .ok (some current) =>
        if current.id = versionId then .ok ()
        else match st.evalSummary current.id with
          | none => .ok ()
          | some baseline =>
            match g.failures baseline candidate with
            | [] => .ok ()
            | f :: fs => .error (.regressed versionId current.id (f :: fs))

end Gate

/-! ## Setting an alias -/

/-- The row a new alias gets. -/
def PromptStore.newAlias (st : PromptStore K) (slotName name : Str) (versionId : ℤ)
    (now : Timestamp) : PromptAlias :=
  ⟨nextId (st.aliases.map PromptAlias.id), slotName, name, versionId, (utcnow now).column⟩

/-- The insert of an alias and its commit, `none` if the slot has an alias of this name. -/
def PromptStore.insertAlias (st : PromptStore K) (row : PromptAlias) : Option (PromptStore K) :=
  if (st.promptAlias row.slotName row.aliasName).isSome then none
  else some { st with aliases := st.aliases ++ [row] }

/-- What the update of a loaded row makes of the row in the table.  A column is written only if its
new value differs from the one that was loaded. -/
def PromptAlias.move (loaded : PromptAlias) (versionId : ℤ) (now : Timestamp) (row : PromptAlias) :
    PromptAlias :=
  { row with
    promptVersionId :=
      if loaded.promptVersionId = versionId then row.promptVersionId else versionId
    updatedAt := (utcnow now).column }

/-- The update of a loaded row and its commit, `none` if the row is gone. -/
def PromptStore.updateAlias (st : PromptStore K) (loaded : PromptAlias) (versionId : ℤ)
    (now : Timestamp) : Option (PromptStore K) :=
  if loaded.id ∈ st.aliases.map PromptAlias.id then
    some { st with aliases := st.aliases.map fun r ↦
      if r.id = loaded.id then loaded.move versionId now r else r }
  else none

/-- The arguments of `set_prompt_alias`, with the alias normalised. -/
structure AliasArgs where
  /-- The slot. -/
  slotName : Str
  /-- The alias. -/
  aliasName : Str
  /-- The version it is to name. -/
  versionId : ℤ
  deriving DecidableEq

/-- Where a call to `set_prompt_alias` stands.  From the gate on it carries the version that the
alias named when the gate looked. -/
inductive AliasCall (K : Type) where
  | called (slotName name : Str) (versionId : ℤ)
  /-- The version is one of the slot. -/
  | checked (a : AliasArgs)
  /-- The gate has let it pass. -/
  | gated (a : AliasArgs) (seen : Option ℤ)
  /-- The alias has no row. -/
  | absent (a : AliasArgs) (seen : Option ℤ)
  /-- The insert has failed and was rolled back. -/
  | conflicted (a : AliasArgs) (seen : Option ℤ)
  /-- The row of the alias was loaded. -/
  | found (a : AliasArgs) (seen : Option ℤ) (row : PromptAlias)
  /-- The row with this primary key was written. -/
  | written (id : ℤ)
  | returned (row : PromptAlias)
  | raised (e : AliasError K)

/-- One step of a call to `set_prompt_alias`. -/
inductive AliasStep [LinearOrder K] [Zero K] [Sub K] [Div K] (u : Unicode) (g : EvalGate K) :
    PromptStore K → AliasCall K → PromptStore K → AliasCall K → Prop
  | emptyAlias {st : PromptStore K} {s n : Str} {v : ℤ} (h : normalizeAlias u n = []) :
      AliasStep u g st (.called s n v) st (.raised .emptyAlias)
  | unknownVersion {st : PromptStore K} {s n : Str} {v : ℤ} (hn : normalizeAlias u n ≠ [])
      (h : st.version v = none) : AliasStep u g st (.called s n v) st (.raised (.unknownVersion v))
  | otherSlot {st : PromptStore K} {s n : Str} {v : ℤ} {row : PromptVersion}
      (hn : normalizeAlias u n ≠ []) (h : st.version v = some row) (hs : row.slotName ≠ s) :
      AliasStep u g st (.called s n v) st (.raised (.otherSlot v row.slotName s))
  | check {st : PromptStore K} {s n : Str} {v : ℤ} {row : PromptVersion}
      (hn : normalizeAlias u n ≠ []) (h : st.version v = some row) (hs : row.slotName = s) :
      AliasStep u g st (.called s n v) st (.checked ⟨s, normalizeAlias u n, v⟩)
  | refuse {st : PromptStore K} {a : AliasArgs} {e : AliasError K} (ha : a.aliasName = production)
      (h : assertProductionPromotionAllowed u g st a.slotName a.versionId = .error e) :
      AliasStep u g st (.checked a) st (.raised e)
  | allow {st : PromptStore K} {a : AliasArgs} (h : a.aliasName = production →
        assertProductionPromotionAllowed u g st a.slotName a.versionId = .ok ()) :
      AliasStep u g st (.checked a) st (.gated a (st.pointer a.slotName a.aliasName))
  | find {st : PromptStore K} {a : AliasArgs} {seen : Option ℤ} {row : PromptAlias}
      (h : st.promptAlias a.slotName a.aliasName = some row) :
      AliasStep u g st (.gated a seen) st (.found a seen row)
  | findNone {st : PromptStore K} {a : AliasArgs} {seen : Option ℤ}
      (h : st.promptAlias a.slotName a.aliasName = none) :
      AliasStep u g st (.gated a seen) st (.absent a seen)
  | insert {st st' : PromptStore K} {a : AliasArgs} {seen : Option ℤ} (now : Timestamp)
      (h : st.insertAlias (st.newAlias a.slotName a.aliasName a.versionId now) = some st') :
      AliasStep u g st (.absent a seen) st'
        (.written (st.newAlias a.slotName a.aliasName a.versionId now).id)
  /-- `IntegrityError`: another call inserted the row first. -/
  | integrityError {st : PromptStore K} {a : AliasArgs} {seen : Option ℤ} (now : Timestamp)
      (h : st.insertAlias (st.newAlias a.slotName a.aliasName a.versionId now) = none) :
      AliasStep u g st (.absent a seen) st (.conflicted a seen)
  | reload {st : PromptStore K} {a : AliasArgs} {seen : Option ℤ} {row : PromptAlias}
      (h : st.promptAlias a.slotName a.aliasName = some row) :
      AliasStep u g st (.conflicted a seen) st (.found a seen row)
  | reloadNone {st : PromptStore K} {a : AliasArgs} {seen : Option ℤ}
      (h : st.promptAlias a.slotName a.aliasName = none) :
      AliasStep u g st (.conflicted a seen) st (.raised (.conflict a.aliasName a.slotName))
  | update {st st' : PromptStore K} {a : AliasArgs} {seen : Option ℤ} {row : PromptAlias}
      (now : Timestamp) (h : st.updateAlias row a.versionId now = some st') :
      AliasStep u g st (.found a seen row) st' (.written row.id)
  | stale {st : PromptStore K} {a : AliasArgs} {seen : Option ℤ} {row : PromptAlias}
      (now : Timestamp) (h : st.updateAlias row a.versionId now = none) :
      AliasStep u g st (.found a seen row) st (.raised .other)
  | refresh {st : PromptStore K} {id : ℤ} {row : PromptAlias}
      (h : st.aliases.find? (fun r ↦ r.id = id) = some row) :
      AliasStep u g st (.written id) st (.returned row)
  /-- Anything a statement raises. -/
  | fail {st : PromptStore K} {c : AliasCall K} : AliasStep u g st c st (.raised .other)

/-- The check of an alias that is normalised already. -/
theorem AliasStep.check_normal [LinearOrder K] [Zero K] [Sub K] [Div K] {u : Unicode}
    {g : EvalGate K} {st : PromptStore K} {s n : Str} {v : ℤ} {row : PromptVersion}
    (hname : normalizeAlias u n = n) (hn : n ≠ []) (h : st.version v = some row)
    (hs : row.slotName = s) :
    AliasStep u g st (.called s n v) st (.checked ⟨s, n, v⟩) := by
  have hne : normalizeAlias u n ≠ [] := by rwa [hname]
  have hcheck : AliasStep u g st (.called s n v) st (.checked ⟨s, normalizeAlias u n, v⟩) :=
    .check hne h hs
  rwa [hname] at hcheck

end WiseTraceLoom
