import WiseTraceLoom.Prompts.FailClosed

/-!
# The name of a slot

A golden set is registered under the stripped name of its slot.  Everything else takes the name as
it is given: clearing the golden set, registering and evaluating versions, and the gate.  So the
functions mean the same slot exactly by the names that stripping leaves alone (`slot_names_iff`);
under any other name the golden set is registered and then never found.
-/

set_option autoImplicit false

namespace WiseTraceLoom

variable {K ρ : Type} {u : Unicode} {σ : EvalStore K ρ} {s : Str}

/-! ## The registry -/

/-- What is registered under a name. -/
theorem suite_setGoldenSet {cases : List GoldenCase} (runner : ρ) (hs : Text.strip s ≠ [])
    (hcases : cases ≠ []) (name : Str) :
    (setGoldenSet s cases runner σ).2.suite name =
      if name = Text.strip s then some ⟨cases, runner, hcases⟩ else σ.suite name := by
  rw [setGoldenSet]
  simp only [if_neg hs, dif_neg hcases, EvalStore.suite, EvalStore.note]
  split_ifs with hname
  · simp [hname]
  · rw [List.find?_cons_of_neg (by simpa using Ne.symm hname), List.find?_filter]
    congr 2
    funext entry
    by_cases hentry : entry.1 = name
    · simp [hentry, hname]
    · simp [hentry]

/-- A golden set that is not accepted changes nothing. -/
theorem setGoldenSet_of_error {cases : List GoldenCase} (runner : ρ)
    (h : Text.strip s = [] ∨ cases = []) : (setGoldenSet s cases runner σ).2 = σ := by
  rw [setGoldenSet]
  dsimp only
  split_ifs with hs hcases
  · rfl
  · rfl
  · exact (h.elim hs hcases).elim

/-- Registering a golden set does nothing to the others. -/
theorem suite_setGoldenSet_ne {cases : List GoldenCase} {name : Str} (runner : ρ)
    (hname : name ≠ Text.strip s) :
    (setGoldenSet s cases runner σ).2.suite name = σ.suite name := by
  by_cases herror : Text.strip s = [] ∨ cases = []
  · rw [setGoldenSet_of_error runner herror]
  · rw [not_or] at herror
    rw [suite_setGoldenSet runner herror.1 herror.2, if_neg hname]

theorem suite_clearGoldenSet (s name : Str) :
    (clearGoldenSet (some s) σ).suite name = if name = s then none else σ.suite name := by
  simp only [clearGoldenSet, EvalStore.suite, List.find?_filter]
  split_ifs with hname
  · simp [hname]
  · congr 2
    funext entry
    by_cases hentry : entry.1 = name
    · simp [hentry, hname]
    · simp [hentry]

/-- A row that was inserted is found by its key. -/
theorem PromptStore.version_insertVersion (st : PromptStore K) (a : RegisterArgs) (prior : ℕ)
    (now : Timestamp) :
    let row := a.row (nextId (st.versions.map PromptVersion.id)) prior now
    (st.insertVersion row).version row.id = some row := by
  intro row
  have hfresh : st.versions.find? (fun v ↦ v.id = row.id) = none := by
    refine List.find?_eq_none.mpr fun v hv ↦ ?_
    have hlt : v.id < row.id := lt_nextId (List.mem_map_of_mem hv)
    simpa using hlt.ne
  rw [PromptStore.version, PromptStore.insertVersion, List.find?_append, hfresh]
  simp

section

variable [LinearOrder K] [Field K]

theorem runGoldenEval_suites (v : ℤ) (t : Str) (m : Moment K) (σ : EvalStore K ρ) :
    (runGoldenEval v t m σ).2.suites = σ.suites := by
  rw [runGoldenEval]
  split
  · rfl
  · split
    · rfl
    · dsimp only
      split
      · rfl
      · split <;> rfl

theorem maybeEvalOnDetection_suites (version : PromptVersion) (t : Str) (m : Moment K)
    (σ : EvalStore K ρ) : (maybeEvalOnDetection version t m σ).2.suites = σ.suites := by
  have hrun := runGoldenEval_suites version.id t m σ
  rw [maybeEvalOnDetection]
  split_ifs
  · rfl
  · split <;> next h => rwa [h] at hrun

theorem registerPromptVersion_suites (a : RegisterArgs) (m : Moment K) (σ : EvalStore K ρ) :
    (registerPromptVersion a m σ).2.suites = σ.suites := by
  rw [registerPromptVersion]
  split
  · rfl
  · exact maybeEvalOnDetection_suites _ _ _ _

/-! ## Requests -/

/-- The request neither replaces the golden set of the slot nor drops it under this name. -/
def PromptsRequest.Spares (slotName : Str) : PromptsRequest K ρ → Prop
  | .registerSuite s _ _ => Text.strip s ≠ Text.strip slotName
  | .dropSuite none => False
  | .dropSuite (some s) => s ≠ slotName
  | _ => True

/-- The request registers no golden set for the slot. -/
def PromptsRequest.RegistersNone (slotName : Str) : PromptsRequest K ρ → Prop
  | .registerSuite s _ _ => Text.strip s ≠ Text.strip slotName
  | _ => True

/-- A request that registers no golden set for a slot keeps the one there is, or drops it. -/
theorem PromptsRequest.RegistersNone.suite_run {r : PromptsRequest K ρ} (h : r.RegistersNone s)
    (hs : Text.strip s = s) :
    (r.run u σ).suite s = σ.suite s ∨ (r.run u σ).suite s = none ∧ ¬ r.Spares s := by
  cases r with
  | registerSuite s' cases runner =>
    refine .inl ?_
    rw [PromptsRequest.run, suite_setGoldenSet_ne runner (hs ▸ Ne.symm h)]
  | dropSuite name =>
    cases name with
    | none => exact .inr ⟨rfl, id⟩
    | some name =>
      rw [PromptsRequest.run, suite_clearGoldenSet]
      by_cases hname : s = name
      · exact .inr ⟨if_pos hname, fun hspares ↦ hspares hname.symm⟩
      · exact .inl (if_neg hname)
  | register a m =>
    refine .inl ?_
    rw [PromptsRequest.run, EvalStore.suite, registerPromptVersion_suites, EvalStore.suite]
  | evaluate v t m =>
    refine .inl ?_
    rw [PromptsRequest.run, EvalStore.suite, runGoldenEval_suites, EvalStore.suite]
  | _ => exact .inl rfl

omit [LinearOrder K] [Field K] in
theorem PromptsRequest.Spares.registersNone {r : PromptsRequest K ρ} (h : r.Spares s) :
    r.RegistersNone s := by
  cases r with
  | registerSuite s' cases runner => exact h
  | _ => trivial

/-- **A golden set stays registered** under a name that stripping leaves alone. -/
theorem PromptsRequest.Spares.suite {r : PromptsRequest K ρ} (h : r.Spares s)
    (hs : Text.strip s = s) {suite : GoldenSuite ρ} (hsuite : σ.suite s = some suite) :
    (r.run u σ).suite s = some suite := by
  rcases h.registersNone.suite_run hs with hsame | ⟨-, hdrops⟩
  · exact hsame.trans hsuite
  · exact absurd h hdrops

/-- Without a registration there is no golden set. -/
theorem PromptsRequest.RegistersNone.suite {r : PromptsRequest K ρ} (h : r.RegistersNone s)
    (hs : Text.strip s = s) (hsuite : σ.suite s = none) : (r.run u σ).suite s = none := by
  rcases h.suite_run hs with hsame | ⟨hnone, -⟩
  · exact hsame.trans hsuite
  · exact hnone

/-- What every request keeps, all of them keep. -/
theorem EvalStore.runAll_invariant {P : EvalStore K ρ → Prop} {Q : PromptsRequest K ρ → Prop}
    (hrun : ∀ r σ, Q r → P σ → P (r.run u σ)) {requests : List (PromptsRequest K ρ)}
    (hrequests : ∀ r ∈ requests, Q r) (hσ : P σ) : P (σ.runAll u requests) := by
  induction requests generalizing σ with
  | nil => exact hσ
  | cons r requests ih =>
    rw [List.forall_mem_cons] at hrequests
    exact ih hrequests.2 (hrun r σ hrequests.1 hσ)

/-! ## Names -/

/-- What happens when a version is evaluated whose template is new. -/
def evaluation (version : PromptVersion) (t : Str) (suite : GoldenSuite ρ) (m : Moment K) :
    List (EvalEvent K ρ) :=
  .started version t suite ::
    match m.answers suite.cases.length with
    | none => []
    | some results => [.finished version suite results, .stored version.id]

/-- **The functions mean the same slot by a name.** -/
structure NamesAlike (u : Unicode) (K ρ : Type) [LinearOrder K] [Field K] (slotName : Str) :
    Prop where
  /-- New templates are evaluated by the golden set that was registered. -/
  evaluated : ∀ (σ : EvalStore K ρ) (cases : List GoldenCase) (runner : ρ) (hcases : cases ≠ [])
    (requests : List (PromptsRequest K ρ)), (∀ r ∈ requests, r.Spares slotName) →
    ∀ (a : RegisterArgs) (m : Moment K), a.slotName = slotName →
    let σ' := (setGoldenSet slotName cases runner σ).2.runAll u requests
    σ'.prompts.withHash a.slotName a.contentHash = none →
    (registerPromptVersion a m σ').2.events =
      σ'.events ++ evaluation (registerPromptVersion a m σ').1 a.template ⟨cases, runner, hcases⟩ m
  /-- Versions without a summary are not promoted. -/
  gated : ∀ (σ : EvalStore K ρ) (cases : List GoldenCase) (runner : ρ), cases ≠ [] →
    ∀ requests : List (PromptsRequest K ρ), (∀ r ∈ requests, r.Spares slotName) →
    let σ' := (setGoldenSet slotName cases runner σ).2.runAll u requests
    ∀ v now, σ'.prompts.evalSummary v = none →
    ∃ e, setPromptAlias u slotName production v now σ'.gate σ'.prompts = (.error e, σ'.prompts)
  /-- After the golden set is cleared nothing is evaluated, and nothing is gated. -/
  cleared : ∀ (σ : EvalStore K ρ) (requests : List (PromptsRequest K ρ)),
    (∀ r ∈ requests, r.RegistersNone slotName) →
    let σ' := (clearGoldenSet (some slotName) σ).runAll u requests
    (∀ (a : RegisterArgs) (m : Moment K), a.slotName = slotName →
      (registerPromptVersion a m σ').2.events = σ'.events) ∧
    (∀ v t m version, σ'.prompts.version v = some version → version.slotName = slotName →
      runGoldenEval v t m σ' = (.error (.noSuite slotName), σ')) ∧
    ∀ name v now e,
      (setPromptAlias u slotName name v now σ'.gate σ'.prompts).1 = .error e →
      e.evalRegression = false

/-! ### Evaluation -/

theorem runGoldenEval_events {v : ℤ} {version : PromptVersion} {suite : GoldenSuite ρ}
    (hversion : σ.prompts.version v = some version)
    (hsuite : σ.suite version.slotName = some suite) (t : Str) (m : Moment K) :
    (runGoldenEval v t m σ).2.events = σ.events ++ evaluation version t suite m := by
  rw [runGoldenEval, hversion]
  dsimp only
  rw [hsuite, evaluation]
  dsimp only
  cases m.answers suite.cases.length with
  | none => rfl
  | some results =>
    have hpersist (τ : EvalStore K ρ) (summary : EvalSummary K) :
        (τ.persist summary).events = τ.events ++ [.stored summary.promptVersionId] := rfl
    dsimp only
    split <;> simp [hpersist, EvalStore.note, summarize]

theorem maybeEvalOnDetection_events (version : PromptVersion) (t : Str) (m : Moment K)
    (hsuite : σ.suite version.slotName ≠ none) :
    (maybeEvalOnDetection version t m σ).2 = (runGoldenEval version.id t m σ).2 := by
  rw [maybeEvalOnDetection, if_neg hsuite]
  split <;> next h => rw [h]

theorem maybeEvalOnDetection_skip (version : PromptVersion) (t : Str) (m : Moment K)
    (hsuite : σ.suite version.slotName = none) : (maybeEvalOnDetection version t m σ).2 = σ := by
  rw [maybeEvalOnDetection, if_pos hsuite]

/-- A new template is evaluated if its slot has a golden set. -/
theorem registerPromptVersion_events {a : RegisterArgs} {suite : GoldenSuite ρ}
    (hnew : σ.prompts.withHash a.slotName a.contentHash = none)
    (hsuite : σ.suite a.slotName = some suite) (m : Moment K) :
    (registerPromptVersion a m σ).2.events =
      σ.events ++ evaluation (registerPromptVersion a m σ).1 a.template suite m := by
  rw [registerPromptVersion, hnew]
  dsimp only
  rw [maybeEvalOnDetection_events]
  · exact runGoldenEval_events (PromptStore.version_insertVersion _ _ _ _) hsuite _ _
  · exact hsuite ▸ Option.some_ne_none _

/-- Without one it is not. -/
theorem registerPromptVersion_skip {a : RegisterArgs} (hsuite : σ.suite a.slotName = none)
    (m : Moment K) : (registerPromptVersion a m σ).2.events = σ.events := by
  rw [registerPromptVersion]
  split
  · rfl
  · dsimp only
    rw [maybeEvalOnDetection_skip _ _ m hsuite]

/-! ### The gate -/

/-- A version without a summary is refused if the slot has a golden set. -/
theorem setPromptAlias_production {v : ℤ} (hsuite : σ.suite s ≠ none)
    (hnone : σ.prompts.evalSummary v = none) (now : Timestamp) :
    ∃ e, setPromptAlias u s production v now σ.gate σ.prompts = (.error e, σ.prompts) := by
  have hgate : gateAlias u s production v σ.gate σ.prompts = .error (.noEval v) := by
    rw [gateAlias, if_pos rfl, assertProductionPromotionAllowed,
      if_neg (not_not.mpr (EvalStore.mem_gate_suites.mpr hsuite)), hnone]
  rw [setPromptAlias, normalizeAlias_production, if_neg (by decide)]
  cases σ.prompts.version v with
  | none => exact ⟨_, rfl⟩
  | some version =>
    dsimp only
    split_ifs
    · exact ⟨_, rfl⟩
    · rw [hgate]
      exact ⟨_, rfl⟩

/-- Without a golden set nothing is refused for want of a summary. -/
theorem setPromptAlias_ungated {name : Str} {v : ℤ} {now : Timestamp} {e : AliasError K}
    (hsuite : σ.suite s = none)
    (h : (setPromptAlias u s name v now σ.gate σ.prompts).1 = .error e) :
    e.evalRegression = false := by
  have hgate (name : Str) : gateAlias u s name v σ.gate σ.prompts = .ok () := by
    have hmem : s ∉ σ.gate.suites := fun hmem ↦ EvalStore.mem_gate_suites.mp hmem hsuite
    rw [gateAlias, assertProductionPromotionAllowed, if_pos hmem, ite_self]
  have hrefresh (st : PromptStore K) (id : ℤ) (h : st.refreshAlias id = .error e) :
      e.evalRegression = false := by
    rw [PromptStore.refreshAlias] at h
    split at h
    · exact Except.error.inj h ▸ rfl
    · cases h
  rw [setPromptAlias] at h
  split_ifs at h
  · exact Except.error.inj h ▸ rfl
  · cases hversion : σ.prompts.version v with
    | none =>
      rw [hversion] at h
      exact Except.error.inj h ▸ rfl
    | some version =>
      rw [hversion] at h
      rw [hgate] at h
      dsimp only at h
      split_ifs at h
      · exact Except.error.inj h ▸ rfl
      · rw [PromptStore.writeAlias] at h
        split at h <;> exact hrefresh _ _ h

/-! ### The names that stripping leaves alone -/

theorem namesAlike_of_strip (hs : Text.strip s = s) (hne : s ≠ []) : NamesAlike u K ρ s := by
  have hregistered (σ : EvalStore K ρ) {cases : List GoldenCase} (runner : ρ)
      (hcases : cases ≠ []) {requests : List (PromptsRequest K ρ)}
      (hrequests : ∀ r ∈ requests, r.Spares s) :
      ((setGoldenSet s cases runner σ).2.runAll u requests).suite s =
        some ⟨cases, runner, hcases⟩ := by
    refine EvalStore.runAll_invariant (P := fun σ ↦ σ.suite s = some ⟨cases, runner, hcases⟩)
      (fun r σ hr hσ ↦ hr.suite hs hσ) hrequests ?_
    rw [suite_setGoldenSet runner (hs.symm ▸ hne) hcases, if_pos hs.symm]
  have hcleared (σ : EvalStore K ρ) {requests : List (PromptsRequest K ρ)}
      (hrequests : ∀ r ∈ requests, r.RegistersNone s) :
      ((clearGoldenSet (some s) σ).runAll u requests).suite s = none := by
    refine EvalStore.runAll_invariant (P := fun σ ↦ σ.suite s = none)
      (fun r σ hr hσ ↦ hr.suite hs hσ) hrequests ?_
    rw [suite_clearGoldenSet, if_pos rfl]
  constructor
  · rintro σ cases runner hcases requests hrequests a m rfl σ' hnew
    exact registerPromptVersion_events hnew (hregistered σ runner hcases hrequests) m
  · intro σ cases runner hcases requests hrequests σ' v now hnone
    refine setPromptAlias_production ?_ hnone now
    rw [hregistered σ runner hcases hrequests]
    exact Option.some_ne_none _
  · intro σ requests hrequests σ'
    have hsuite : σ'.suite s = none := hcleared σ hrequests
    refine ⟨?_, ?_, fun name v now e h ↦ setPromptAlias_ungated hsuite h⟩
    · rintro a m rfl
      exact registerPromptVersion_skip hsuite m
    · rintro v t m version hversion rfl
      rw [runGoldenEval, hversion]
      dsimp only
      rw [hsuite]

/-! ### Other names -/

/-- Under any other name a golden set is registered, and versions are not evaluated. -/
theorem not_namesAlike_of_strip [Nonempty ρ] (hs : Text.strip s ≠ s) (hne : Text.strip s ≠ []) :
    ¬ NamesAlike u K ρ s := by
  intro h
  obtain ⟨runner⟩ := ‹Nonempty ρ›
  let σ₀ : EvalStore K ρ := ⟨⟨[], [], []⟩, [], ⟨0, 0, 0⟩, []⟩
  let σ := (setGoldenSet s [refund] runner σ₀).2
  have hsuite : σ.suite s = none := by
    rw [suite_setGoldenSet runner hne (by decide), if_neg (Ne.symm hs)]
    rfl
  have hnew : σ.prompts.withHash s (fingerprintPrompt [] none) = none := by
    rw [setGoldenSet_prompts]
    rfl
  have hevents := h.evaluated σ₀ [refund] runner (by decide) [] nofun ⟨s, [], none⟩
    ⟨noon, fun _ ↦ none⟩ rfl hnew
  have hskip := registerPromptVersion_skip (a := ⟨s, [], none⟩) hsuite ⟨noon, fun _ ↦ none⟩
  have hlength := congrArg List.length (hskip.symm.trans hevents)
  simp [EvalStore.runAll, evaluation, σ] at hlength

/-- **The functions mean the same slot by a name** exactly if stripping leaves it alone, for every
name that a golden set can be registered under. -/
theorem slot_names_iff [Nonempty ρ] (hs : Text.strip s ≠ []) :
    NamesAlike u K ρ s ↔ Text.strip s = s := by
  constructor
  · intro h
    by_contra hstrip
    exact not_namesAlike_of_strip hstrip hs h
  · intro hstrip
    exact namesAlike_of_strip hstrip (hstrip ▸ hs)

/-- Everything means the same slot by `support`. -/
theorem support_namesAlike : NamesAlike .ascii ℚ Unit support :=
  (slot_names_iff (by decide)).mpr (by decide)

/-- The name with a blank in front. -/
def paddedSupport : Str := " support".toList

/-- The golden set is registered under the padded name. -/
def paddedStore : EvalStore ℚ Unit :=
  (setGoldenSet paddedSupport [refund] () (EvalSystem.init Unit Unit defaultThresholds).shared).2

/-- Then the first version is registered under it. -/
def paddedRegister : PromptVersion × EvalStore ℚ Unit :=
  registerPromptVersion ⟨paddedSupport, "Refund?".toList, none⟩
    ⟨noon, fun _ ↦ some (scoredCase true)⟩ paddedStore

/-- **A golden set that is never found.**  The golden set is accepted, the version is not evaluated,
and it is promoted without a summary. -/
theorem padded_name :
    (setGoldenSet paddedSupport [refund] ()
      (EvalSystem.init Unit Unit defaultThresholds).shared).1 = .ok () ∧
    paddedRegister.2.events = paddedStore.events ∧
    paddedRegister.2.prompts.evalSummary 1 = none ∧
    (setPromptAlias .ascii paddedSupport production 1 noon paddedRegister.2.gate
      paddedRegister.2.prompts).1 = .ok ⟨1, paddedSupport, production, 1, (utcnow noon).column⟩ ∧
    ¬ NamesAlike .ascii ℚ Unit paddedSupport := by
  exact ⟨rfl, rfl, rfl, rfl, not_namesAlike_of_strip (by decide) (by decide)⟩

end

end WiseTraceLoom
