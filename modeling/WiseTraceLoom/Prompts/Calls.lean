import WiseTraceLoom.Prompts.Evaluation

/-!
# One call after the other

The functions around prompts, each as it runs while nobody else does and no statement fails.  What a
function does is what `PromptsStep` lets a thread do that is on its own: `setPromptAlias_solo` and
its siblings lead from the call of a function to its end.
-/

set_option autoImplicit false

namespace WiseTraceLoom

open Interleaving

variable {K ρ : Type} {u : Unicode}

/-! ## The functions -/

/-- What a call meets: the time, and what a runner answers for the cases one after the other, `none`
if it raises. -/
structure Moment (K : Type) where
  /-- The time. -/
  now : Timestamp
  /-- The answers. -/
  answer : ℕ → Option (EvalCaseResult K)

/-- The answers for the first `n` cases. -/
def Moment.answers (m : Moment K) : ℕ → Option (List (EvalCaseResult K))
  | 0 => some []
  | n + 1 =>
    match m.answers n with
    | none => none
    | some results => (m.answer n).map fun result ↦ results ++ [result]

/-- What a call reads back that has written an alias. -/
def PromptStore.refreshAlias (st : PromptStore K) (id : ℤ) : Except (AliasError K) PromptAlias :=
  match st.aliases.find? fun r ↦ r.id = id with
  | none => .error .other
  | some row => .ok row

/-- `set_prompt_alias` past the gate. -/
def PromptStore.writeAlias (st : PromptStore K) (slotName name : Str) (versionId : ℤ)
    (now : Timestamp) : Except (AliasError K) PromptAlias × PromptStore K :=
  match st.promptAlias slotName name with
  | none =>
    let row := st.newAlias slotName name versionId now
    let st := { st with aliases := st.aliases ++ [row] }
    (st.refreshAlias row.id, st)
  | some row =>
    let aliases := st.aliases.map fun r ↦ if r.id = row.id then row.move versionId now r else r
    let st := { st with aliases }
    (st.refreshAlias row.id, st)

/-- `clear_prompt_alias`. -/
def clearPromptAlias (u : Unicode) (slotName name : Str) (st : PromptStore K) : PromptStore K :=
  if normalizeAlias u name = [] then st
  else match st.promptAlias slotName (normalizeAlias u name) with
    | none => st
    | some row => st.deleteAlias row.id

section

variable [LinearOrder K] [Field K]

/-- The gate of `set_prompt_alias`, which only `production` has. -/
def gateAlias (u : Unicode) (slotName name : Str) (versionId : ℤ) (g : EvalGate K)
    (st : PromptStore K) : Except (AliasError K) Unit :=
  if name = production then assertProductionPromotionAllowed u g st slotName versionId else .ok ()

/-- `set_prompt_alias`. -/
def setPromptAlias (u : Unicode) (slotName name : Str) (versionId : ℤ) (now : Timestamp)
    (g : EvalGate K) (st : PromptStore K) : Except (AliasError K) PromptAlias × PromptStore K :=
  let name := normalizeAlias u name
  if name = [] then (.error .emptyAlias, st)
  else match st.version versionId with
    | none => (.error (.unknownVersion versionId), st)
    | some version =>
      if version.slotName ≠ slotName then
        (.error (.otherSlot versionId version.slotName slotName), st)
      else match gateAlias u slotName name versionId g st with
        | .error e => (.error e, st)
        | .ok () => st.writeAlias slotName name versionId now

/-- `_persist_summary`, up to the commit. -/
def EvalStore.persist (σ : EvalStore K ρ) (summary : EvalSummary K) : EvalStore K ρ :=
  let prompts := match σ.prompts.evalSummary summary.promptVersionId with
    | none => { σ.prompts with summaries := σ.prompts.summaries ++ [summary] }
    | some existing => σ.prompts.updateSummary existing summary
  { σ with prompts }.note (.stored summary.promptVersionId)

/-- `run_golden_eval`. -/
def runGoldenEval (versionId : ℤ) (template : Str) (m : Moment K) (σ : EvalStore K ρ) :
    Except EvalError (EvalSummary K) × EvalStore K ρ :=
  match σ.prompts.version versionId with
  | none => (.error (.unknownVersion versionId), σ)
  | some version =>
    match σ.suite version.slotName with
    | none => (.error (.noSuite version.slotName), σ)
    | some suite =>
      let σ := σ.note (.started version template suite)
      match m.answers suite.cases.length with
      | none => (.error .runner, σ)
      | some results =>
        let summary := summarize version results m.now
        let σ := (σ.note (.finished version suite results)).persist summary
        match σ.prompts.evalSummary summary.promptVersionId with
        | none => (.error .other, σ)
        | some stored => (.ok stored, σ)

/-- `maybe_eval_on_detection`. -/
def maybeEvalOnDetection (version : PromptVersion) (template : Str) (m : Moment K)
    (σ : EvalStore K ρ) : Option (EvalSummary K) × EvalStore K ρ :=
  if σ.suite version.slotName = none then (none, σ)
  else match runGoldenEval version.id template m σ with
    | (.ok summary, σ) => (some summary, σ)
    | (.error _, σ) => (none, σ)

/-- `register_prompt_version`. -/
def registerPromptVersion (a : RegisterArgs) (m : Moment K) (σ : EvalStore K ρ) :
    PromptVersion × EvalStore K ρ :=
  match σ.prompts.withHash a.slotName a.contentHash with
  | some row => (row, σ)
  | none =>
    let row := a.row (nextId (σ.prompts.versions.map PromptVersion.id))
      (σ.prompts.slot a.slotName).length m.now
    (row, (maybeEvalOnDetection row a.template m
      { σ with prompts := σ.prompts.insertVersion row }).2)

end

/-! ## Steps -/

/-- How a call ends. -/
def AliasCall.ofResult : Except (AliasError K) PromptAlias → AliasCall K
  | .ok row => .returned row
  | .error e => .raised e

/-- How a run of a golden set ends. -/
def GoldenEval.ofResult : Except EvalError (EvalSummary K) → GoldenEval K ρ
  | .ok summary => .returned summary
  | .error e => .raised e

theorem GoldenEval.ended_ofResult (r : Except EvalError (EvalSummary K)) :
    (GoldenEval.ofResult (ρ := ρ) r).ended = true := by
  cases r <;> rfl

theorem clearPromptAlias_solo (slotName name : Str) (st : PromptStore K) :
    Solo (ClearStep u) (st, .called slotName name)
      (clearPromptAlias u slotName name st, .returned) := by
  rw [clearPromptAlias]
  split_ifs with hname
  · exact Solo.step .refl (.emptyAlias hname)
  · cases hrow : st.promptAlias slotName (normalizeAlias u name) with
    | none => exact Solo.step .refl (.findNone hname hrow)
    | some row => exact Solo.step (Solo.step .refl (.find hname hrow)) .delete

theorem Moment.length_answers (m : Moment K) {n : ℕ} {results : List (EvalCaseResult K)}
    (h : m.answers n = some results) : results.length = n := by
  induction n generalizing results with
  | zero => exact (Option.some.inj h) ▸ rfl
  | succ n ih =>
    rw [answers] at h
    cases hfirst : m.answers n with
    | none => simp [hfirst] at h
    | some first =>
      simp only [hfirst, Option.map_eq_some_iff] at h
      obtain ⟨result, -, rfl⟩ := h
      rw [List.length_append, ih hfirst, List.length_singleton]

section

variable [LinearOrder K] [Field K]

theorem refreshAlias_solo (g : EvalGate K) (st : PromptStore K) (id : ℤ) :
    Solo (AliasStep u g) (st, .written id) (st, .ofResult (st.refreshAlias id)) := by
  rw [PromptStore.refreshAlias]
  cases hrow : st.aliases.find? fun r ↦ r.id = id with
  | none => exact Solo.step .refl .fail
  | some row => exact Solo.step .refl (.refresh hrow)

/-- Nobody else inserts the row or deletes it. -/
theorem writeAlias_solo (g : EvalGate K) (st : PromptStore K) (a : AliasArgs) (seen : Option ℤ)
    (now : Timestamp) : Solo (AliasStep u g) (st, .gated a seen)
      ((st.writeAlias a.slotName a.aliasName a.versionId now).2,
        .ofResult (st.writeAlias a.slotName a.aliasName a.versionId now).1) := by
  rw [PromptStore.writeAlias]
  cases hrow : st.promptAlias a.slotName a.aliasName with
  | none =>
    have hinsert : st.insertAlias (st.newAlias a.slotName a.aliasName a.versionId now) =
        some { st with
          aliases := st.aliases ++ [st.newAlias a.slotName a.aliasName a.versionId now] } := by
      rw [PromptStore.insertAlias, PromptStore.newAlias, hrow]
      rfl
    exact (Solo.step (Solo.step .refl (.findNone hrow)) (.insert now hinsert)).trans
      (refreshAlias_solo g _ _)
  | some row =>
    have hupdate : st.updateAlias row a.versionId now = some { st with
        aliases := st.aliases.map fun r ↦
          if r.id = row.id then row.move a.versionId now r else r } :=
      if_pos (List.mem_map_of_mem (List.mem_of_find?_eq_some hrow))
    exact (Solo.step (Solo.step .refl (.find hrow)) (.update now hupdate)).trans
      (refreshAlias_solo g _ _)

theorem setPromptAlias_solo (slotName name : Str) (versionId : ℤ) (now : Timestamp)
    (g : EvalGate K) (st : PromptStore K) :
    Solo (AliasStep u g) (st, .called slotName name versionId)
      ((setPromptAlias u slotName name versionId now g st).2,
        .ofResult (setPromptAlias u slotName name versionId now g st).1) := by
  rw [setPromptAlias]
  split_ifs with hname
  · exact Solo.step .refl (.emptyAlias hname)
  cases hversion : st.version versionId with
  | none => exact Solo.step .refl (.unknownVersion hname hversion)
  | some version =>
    dsimp only
    split_ifs with hslot
    · exact Solo.step .refl (.otherSlot hname hversion hslot)
    have hcheck : Solo (AliasStep u g) (st, .called slotName name versionId)
        (st, .checked ⟨slotName, normalizeAlias u name, versionId⟩) :=
      Solo.step .refl (.check hname hversion (not_not.mp hslot))
    cases hgate : gateAlias u slotName (normalizeAlias u name) versionId g st with
    | error e =>
      rw [gateAlias] at hgate
      split_ifs at hgate with hproduction
      exact hcheck.step (.refuse hproduction hgate)
    | ok _ =>
      refine (hcheck.step (.allow fun hproduction ↦ ?_)).trans
        (writeAlias_solo g st ⟨slotName, normalizeAlias u name, versionId⟩ _ now)
      rwa [gateAlias, if_pos hproduction] at hgate

/-! ### Runs of a golden set -/

/-- The first cases are answered, or the runner has raised for one of them. -/
theorem answers_solo (σ : EvalStore K ρ) (version : PromptVersion) (t : Str)
    (suite : GoldenSuite ρ) (m : Moment K) {n : ℕ} (hn : n ≤ suite.cases.length) :
    Solo EvalStep (σ, .running version t suite [])
      (σ, match m.answers n with
        | none => .raised .runner
        | some results => .running version t suite results) := by
  induction n with
  | zero => exact .refl
  | succ n ih =>
    have hbefore := ih (Nat.le_of_succ_le hn)
    rw [Moment.answers]
    cases hfirst : m.answers n with
    | none => rwa [hfirst] at hbefore
    | some first =>
      rw [hfirst] at hbefore
      have hlength : first.length < suite.cases.length := by
        rw [m.length_answers hfirst]
        exact hn
      cases m.answer n with
      | none => exact Solo.step hbefore (.runnerError hlength)
      | some result => exact Solo.step hbefore (.answer hlength result)

theorem persist_solo (σ : EvalStore K ρ) (summary : EvalSummary K) :
    Solo EvalStep (σ, .scored summary)
      (σ.persist summary, .stored summary.promptVersionId) := by
  rw [EvalStore.persist]
  cases hexisting : σ.prompts.evalSummary summary.promptVersionId with
  | none =>
    refine Solo.step (Solo.step .refl (.findNone hexisting)) (.insert ?_)
    rw [PromptStore.insertSummary, hexisting]
    rfl
  | some existing => exact Solo.step (Solo.step .refl (.find hexisting)) .update

theorem runGoldenEval_solo (versionId : ℤ) (template : Str) (m : Moment K) (σ : EvalStore K ρ) :
    Solo EvalStep (σ, .called versionId template)
      ((runGoldenEval versionId template m σ).2,
        .ofResult (runGoldenEval versionId template m σ).1) := by
  rw [runGoldenEval]
  cases hversion : σ.prompts.version versionId with
  | none => exact Solo.step .refl (.unknownVersion hversion)
  | some version =>
    have hload : Solo EvalStep (σ, .called versionId template) (σ, .loaded version template) :=
      Solo.step .refl (.load hversion)
    cases hsuite : σ.suite version.slotName with
    | none =>
      dsimp only
      rw [hsuite]
      exact hload.step (.noSuite hsuite)
    | some suite =>
      have hanswers := (hload.step (.start hsuite)).trans
        (answers_solo _ version template suite m le_rfl)
      dsimp only
      rw [hsuite]
      dsimp only
      cases hresults : m.answers suite.cases.length with
      | none => rwa [hresults] at hanswers
      | some results =>
        rw [hresults] at hanswers
        have hstored := (Solo.step hanswers (.score m.now (m.length_answers hresults))).trans
          (persist_solo _ _)
        dsimp only
        split
        · exact Solo.step hstored (.fail rfl)
        · next hrow => exact Solo.step hstored (.refresh hrow)

/-! ### Threads on their own -/

/-- The registry stays as it is while an alias is set. -/
theorem setAlias_lift (σ : EvalStore K ρ) {c : AliasCall K} (wrote : Bool)
    {y : PromptStore K × AliasCall K} (h : Solo (AliasStep u σ.gate) (σ.prompts, c) y) :
    ∃ wrote', Solo (PromptsStep u) (σ, .setAlias c wrote)
      ({ σ with prompts := y.1 }, .setAlias y.2 wrote') := by
  induction h with
  | refl => exact ⟨wrote, .refl⟩
  | tail _ hyz ih =>
    obtain ⟨wrote', hsolo⟩ := ih
    exact ⟨_, Solo.step hsolo (.setAlias hyz)⟩

theorem clearAlias_lift (σ : EvalStore K ρ) {c : ClearCall} {y : PromptStore K × ClearCall}
    (h : Solo (ClearStep u) (σ.prompts, c) y) :
    Solo (PromptsStep u) (σ, .clearAlias c) ({ σ with prompts := y.1 }, .clearAlias y.2) := by
  induction h with
  | refl => exact .refl
  | tail _ hyz ih => exact Solo.step ih (.clearAlias hyz)

theorem evaluate_lift {x y : EvalStore K ρ × GoldenEval K ρ} (h : Solo EvalStep x y) :
    Solo (PromptsStep u) (x.1, .evaluate x.2) (y.1, .evaluate y.2) := by
  induction h with
  | refl => exact .refl
  | tail _ hyz ih => exact Solo.step ih (.evaluate hyz)

theorem detect_lift (a : RegisterArgs) (row : PromptVersion) {x y : EvalStore K ρ × GoldenEval K ρ}
    (h : Solo EvalStep x y) :
    Solo (PromptsStep u) (x.1, .detect a row x.2) (y.1, .detect a row y.2) := by
  induction h with
  | refl => exact .refl
  | tail _ hyz ih => exact Solo.step ih (.detecting hyz)

theorem maybeEvalOnDetection_solo (a : RegisterArgs) (row : PromptVersion) (m : Moment K)
    (σ : EvalStore K ρ) : Solo (PromptsStep u) (σ, .register (.committed a row))
      ((maybeEvalOnDetection row a.template m σ).2, .register (.returned a row)) := by
  rw [maybeEvalOnDetection]
  split_ifs with hsuite
  · exact Solo.step .refl (.skip hsuite)
  · have hrun := (Solo.step .refl (.detect (a := a) hsuite)).trans
      (detect_lift (u := u) a row (runGoldenEval_solo row.id a.template m σ))
    have hend := Solo.step hrun (.detected (GoldenEval.ended_ofResult _))
    rcases hresult : runGoldenEval row.id a.template m σ with ⟨result | result, σ'⟩ <;>
      simpa only [hresult] using hend

theorem registerPromptVersion_solo (a : RegisterArgs) (m : Moment K) (σ : EvalStore K ρ) :
    Solo (PromptsStep u) (σ, .register (.called a))
      ((registerPromptVersion a m σ).2,
        .register (.returned a (registerPromptVersion a m σ).1)) := by
  rw [registerPromptVersion]
  cases hrow : σ.prompts.withHash a.slotName a.contentHash with
  | some row => exact Solo.step .refl (.register (.link hrow) nofun)
  | none =>
    have hmiss : Solo (PromptsStep u) (σ, .register (.called a)) (σ, .register (.missed a)) :=
      Solo.step .refl (.register (.miss hrow) nofun)
    have hcount := hmiss.step (.register .count nofun)
    exact (Solo.step hcount (.register (.insert m.now) nofun)).trans
      (maybeEvalOnDetection_solo a _ m _)

end

/-! ## Requests -/

/-- What a thread can be asked to do. -/
inductive PromptsRequest (K ρ : Type) where
  | registerSuite (slotName : Str) (cases : List GoldenCase) (runner : ρ)
  | dropSuite (slotName : Option Str)
  | setThresholds (thresholds : RegressionThresholds K)
  | register (a : RegisterArgs) (m : Moment K)
  | setAlias (slotName name : Str) (versionId : ℤ) (now : Timestamp)
  | clearAlias (slotName name : Str)
  | evaluate (versionId : ℤ) (template : Str) (m : Moment K)

section

variable [LinearOrder K] [Field K]

/-- What a request does. -/
def PromptsRequest.run (u : Unicode) (σ : EvalStore K ρ) : PromptsRequest K ρ → EvalStore K ρ
  | .registerSuite slotName cases runner => (setGoldenSet slotName cases runner σ).2
  | .dropSuite slotName => clearGoldenSet slotName σ
  | .setThresholds thresholds => setRegressionThresholds thresholds σ
  | .register a m => (registerPromptVersion a m σ).2
  | .setAlias slotName name v now =>
    { σ with prompts := (setPromptAlias u slotName name v now σ.gate σ.prompts).2 }
  | .clearAlias slotName name => { σ with prompts := clearPromptAlias u slotName name σ.prompts }
  | .evaluate v template m => (runGoldenEval v template m σ).2

/-- **A request is a run of a thread** that nobody interferes with. -/
theorem PromptsRequest.run_solo (r : PromptsRequest K ρ) (σ : EvalStore K ρ) :
    Solo (PromptsStep u) (σ, .idle) (r.run u σ, .idle) := by
  cases r with
  | registerSuite slotName cases runner =>
    exact Solo.step .refl (.setGoldenSet slotName cases runner)
  | dropSuite slotName => exact Solo.step .refl (.clearGoldenSet slotName)
  | setThresholds thresholds => exact Solo.step .refl (.setRegressionThresholds thresholds)
  | register a m =>
    exact Solo.step ((Solo.step .refl (.startRegister a)).trans
      (registerPromptVersion_solo a m σ)) .stop
  | setAlias slotName name v now =>
    obtain ⟨wrote, hsolo⟩ := setAlias_lift σ false
      (setPromptAlias_solo slotName name v now σ.gate σ.prompts)
    exact Solo.step ((Solo.step .refl (.startSetAlias slotName name v)).trans hsolo) .stop
  | clearAlias slotName name =>
    have hsolo := clearAlias_lift σ (clearPromptAlias_solo (u := u) slotName name σ.prompts)
    exact Solo.step ((Solo.step .refl (.startClearAlias slotName name)).trans hsolo) .stop
  | evaluate v template m =>
    have hsolo := evaluate_lift (u := u) (runGoldenEval_solo v template m σ)
    exact Solo.step ((Solo.step .refl (.startEvaluate v template)).trans hsolo) .stop

/-- One request after the other. -/
def EvalStore.runAll (u : Unicode) (σ : EvalStore K ρ) (requests : List (PromptsRequest K ρ)) :
    EvalStore K ρ := requests.foldl (PromptsRequest.run u) σ

theorem EvalStore.runAll_solo (requests : List (PromptsRequest K ρ)) (σ : EvalStore K ρ) :
    Solo (PromptsStep u) (σ, .idle) (σ.runAll u requests, .idle) := by
  induction requests generalizing σ with
  | nil => exact .refl
  | cons r requests ih => exact (r.run_solo σ).trans (ih (r.run u σ))

end

end WiseTraceLoom
