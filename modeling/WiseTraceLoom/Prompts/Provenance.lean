import WiseTraceLoom.Prompts.Calls
import WiseTraceLoom.Prompts.Promotion

/-!
# Where summaries come from

A summary is written after a golden set was registered for the slot of a version, the run of the
version was started, and its runner has answered for every case.  `Evaluated` says this of a row,
with the events in this order.

A row is not written as a whole, however: an update leaves out the columns whose values are those
that were loaded.  So two runs of one version, of golden sets of different sizes, can leave a row
with the cases of one and the passes of the other.  In runs of `WholeStep`s, where what is left out
is still as it was loaded, every row is `Evaluated` (`summaries_relyGuarantee`).
-/

set_option autoImplicit false

namespace WiseTraceLoom

open Interleaving

variable {ι : Type} [DecidableEq ι] {K ρ : Type} {u : Unicode} {σ σ' : EvalStore K ρ} {s : Str}

/-! ## Where summaries come from -/

/-- The numbers of a summary are those of a run of a golden set that was registered for the slot of
the version, and whose runner has answered for every case. -/
def Scored (events : List (EvalEvent K ρ)) (summary : EvalSummary K) : Prop :=
  ∃ version template suite results,
    List.Sublist [.registered version.slotName suite, .started version template suite,
      .finished version suite results] events ∧
    version.id = summary.promptVersionId ∧ results.length = suite.cases.length ∧
    summary.nCases = suite.cases.length ∧
    summary.nPassed = results.countP EvalCaseResult.passed

/-- A summary that was stored after such a run. -/
def Evaluated (events : List (EvalEvent K ρ)) (row : EvalSummary K) : Prop :=
  ∃ version template suite results,
    List.Sublist [.registered version.slotName suite, .started version template suite,
      .finished version suite results, .stored version.id] events ∧
    version.id = row.promptVersionId ∧ results.length = suite.cases.length ∧
    row.nCases = suite.cases.length ∧ row.nPassed = results.countP EvalCaseResult.passed

theorem Scored.mono {events events' : List (EvalEvent K ρ)} {summary : EvalSummary K}
    (h : Scored events summary) (hsub : events.Sublist events') : Scored events' summary := by
  obtain ⟨version, template, suite, results, hevents, hrest⟩ := h
  exact ⟨version, template, suite, results, hevents.trans hsub, hrest⟩

theorem Evaluated.mono {events events' : List (EvalEvent K ρ)} {row : EvalSummary K}
    (h : Evaluated events row) (hsub : events.Sublist events') : Evaluated events' row := by
  obtain ⟨version, template, suite, results, hevents, hrest⟩ := h
  exact ⟨version, template, suite, results, hevents.trans hsub, hrest⟩

/-- A row with the numbers of a run, when it is stored. -/
theorem Scored.evaluated {events : List (EvalEvent K ρ)} {summary row : EvalSummary K}
    (h : Scored events summary) (hid : row.promptVersionId = summary.promptVersionId)
    (hcases : row.nCases = summary.nCases) (hpassed : row.nPassed = summary.nPassed) :
    Evaluated (events ++ [.stored summary.promptVersionId]) row := by
  obtain ⟨version, template, suite, results, hevents, hversion, hlength, hn, hp⟩ := h
  refine ⟨version, template, suite, results, ?_, hversion.trans hid.symm, hlength,
    hcases.trans hn, hpassed.trans hp⟩
  rw [← hversion]
  exact hevents.append (List.Sublist.refl [EvalEvent.stored version.id])

/-- No more cases have passed than there are. -/
theorem Evaluated.bounds {events : List (EvalEvent K ρ)} {row : EvalSummary K}
    (h : Evaluated events row) : 0 ≤ row.nPassed ∧ row.nPassed ≤ row.nCases := by
  obtain ⟨version, template, suite, results, -, -, hlength, hn, hp⟩ := h
  rw [hn, hp, ← hlength]
  exact ⟨Int.natCast_nonneg _, Int.ofNat_le.mpr List.countP_le_length⟩

/-! ## Steps -/

/-- The columns for the cases that an update leaves out still have the values that were loaded. -/
def EvalSummary.Kept (loaded summary : EvalSummary K) (st : PromptStore K) : Prop :=
  ∀ row ∈ st.summaries, row.promptVersionId = loaded.promptVersionId →
    (loaded.nCases = summary.nCases → row.nCases = loaded.nCases) ∧
    (loaded.nPassed = summary.nPassed → row.nPassed = loaded.nPassed)

/-- An update of a summary is about to leave out only columns that are still as the call has loaded
them. -/
def PromptsCall.KeepsSummary (st : PromptStore K) : PromptsCall K ρ → Prop
  | .detect _ _ (.found summary existing) => existing.Kept summary st
  | .evaluate (.found summary existing) => existing.Kept summary st
  | _ => True

/-- The call has just written a row that it had loaded or inserted. -/
def PromptsCall.wrote : PromptsCall K ρ → Bool
  | .setAlias (.written _) _ => true
  | .detect _ _ (.stored _) => true
  | .evaluate (.stored _) => true
  | _ => false

section

variable [LinearOrder K] [Field K]

/-- A step that leaves summaries whole. -/
def WholeStep (u : Unicode) (σ : EvalStore K ρ) (t : PromptsCall K ρ) (σ' : EvalStore K ρ)
    (t' : PromptsCall K ρ) : Prop :=
  PromptsStep u σ t σ' t' ∧ (t'.wrote = true → t.KeepsSummary σ.prompts)

end

/-! ## The invariant -/

/-- Registered golden sets and summaries have come about as they should. -/
structure EvalStore.Ok (σ : EvalStore K ρ) : Prop where
  suites : ∀ entry ∈ σ.suites, .registered entry.1 entry.2 ∈ σ.events
  summaries : ∀ row ∈ σ.prompts.summaries, Evaluated σ.events row

/-- What a run of a golden set knows. -/
def GoldenEval.Ok (events : List (EvalEvent K ρ)) : GoldenEval K ρ → Prop
  | .running version template suite _ =>
    List.Sublist [.registered version.slotName suite, .started version template suite] events
  | .scored summary => Scored events summary
  | .absent summary => Scored events summary
  | .found summary existing =>
    Scored events summary ∧ existing.promptVersionId = summary.promptVersionId
  | _ => True

/-- A call that has yet to write, or was refused. -/
def AliasCall.early : AliasCall K → Bool
  | .written _ => false
  | .returned _ => false
  | .raised .other => false
  | _ => true

/-- What a call knows: a run of a golden set as above; and a call that sets an alias has changed no
row as long as it is early, in particular not when the gate has refused. -/
def PromptsCall.Ok (events : List (EvalEvent K ρ)) : PromptsCall K ρ → Prop
  | .detect _ _ e => e.Ok events
  | .evaluate e => e.Ok events
  | .setAlias c wrote => c.early = true → wrote = false
  | _ => True

theorem GoldenEval.Ok.mono {events events' : List (EvalEvent K ρ)} {e : GoldenEval K ρ}
    (h : e.Ok events) (hsub : events.Sublist events') : e.Ok events' := by
  cases e with
  | running version template suite results => exact List.Sublist.trans h hsub
  | scored summary => exact Scored.mono h hsub
  | absent summary => exact Scored.mono h hsub
  | found summary existing => exact ⟨h.1.mono hsub, h.2⟩
  | _ => trivial

theorem PromptsCall.Ok.mono {events events' : List (EvalEvent K ρ)} {c : PromptsCall K ρ}
    (h : c.Ok events) (hsub : events.Sublist events') : c.Ok events' := by
  cases c with
  | detect a row e => exact GoldenEval.Ok.mono h hsub
  | evaluate e => exact GoldenEval.Ok.mono h hsub
  | setAlias c wrote => exact h
  | _ => trivial

theorem PromptStore.evalSummary_mem {st : PromptStore K} {v : ℤ} {row : EvalSummary K}
    (h : st.evalSummary v = some row) : row ∈ st.summaries ∧ row.promptVersionId = v :=
  ⟨List.mem_of_find?_eq_some h, by simpa using List.find?_some h⟩

theorem EvalStore.suite_mem {suite : GoldenSuite ρ} (h : σ.suite s = some suite) :
    (s, suite) ∈ σ.suites := by
  obtain ⟨entry, hentry, rfl⟩ := Option.map_eq_some_iff.mp h
  have hs : entry.1 = s := by simpa using List.find?_some hentry
  exact hs ▸ List.mem_of_find?_eq_some hentry

theorem EvalStore.Ok.note (h : σ.Ok) (e : EvalEvent K ρ) : (σ.note e).Ok where
  suites entry hentry := List.mem_append_left _ (h.suites entry hentry)
  summaries row hrow := (h.summaries row hrow).mono (List.sublist_append_left _ _)

/-- Nothing happens to the golden sets and the summaries. -/
theorem EvalStore.Ok.frame (h : σ.Ok) {st : PromptStore K}
    (hst : st.summaries = σ.prompts.summaries) : ({ σ with prompts := st } : EvalStore K ρ).Ok where
  suites := h.suites
  summaries row hrow := h.summaries row (hst ▸ hrow)

theorem EvalStore.note_events (σ : EvalStore K ρ) (e : EvalEvent K ρ) :
    σ.events.Sublist (σ.note e).events := List.sublist_append_left _ _

/-- The numbers of a summary that is stored over another one, if the row is as it was loaded. -/
theorem EvalSummary.overwrite_counts [DecidableEq K] {loaded summary row : EvalSummary K}
    (hcases : loaded.nCases = summary.nCases → row.nCases = loaded.nCases)
    (hpassed : loaded.nPassed = summary.nPassed → row.nPassed = loaded.nPassed) :
    (loaded.overwrite summary row).nCases = summary.nCases ∧
      (loaded.overwrite summary row).nPassed = summary.nPassed := by
  simp only [EvalSummary.overwrite]
  constructor
  · split_ifs with h
    · exact (hcases h).trans h
    · rfl
  · split_ifs with h
    · exact (hpassed h).trans h
    · rfl

/-- Clearing aliases does not touch the summaries. -/
theorem ClearStep.summaries {st st' : PromptStore K} {c c' : ClearCall}
    (h : ClearStep u st c st' c') : st'.summaries = st.summaries := by
  cases h <;> rfl

/-- Registering a version does not, as long as it is not evaluated. -/
theorem RegisterStep.summaries {st st' : PromptStore K} {c c' : RegisterCall}
    (h : RegisterStep st c st' c') (hc : ∀ a row, c = .committed a row → c' = .raised a) :
    st'.summaries = st.summaries := by
  cases h with
  | evaluate summary h => exact absurd (hc _ _ rfl) (by simp)
  | _ => rfl

theorem setGoldenSet_events (s : Str) (cases : List GoldenCase) (runner : ρ) (σ : EvalStore K ρ) :
    σ.events.Sublist (setGoldenSet s cases runner σ).2.events := by
  rw [setGoldenSet]
  dsimp only
  split_ifs
  · exact List.Sublist.refl _
  · exact List.Sublist.refl _
  · exact List.sublist_append_left _ _

/-- A golden set is registered under its stripped name. -/
theorem EvalStore.Ok.setGoldenSet (h : σ.Ok) (cases : List GoldenCase) (runner : ρ) :
    (setGoldenSet s cases runner σ).2.Ok := by
  rw [WiseTraceLoom.setGoldenSet]
  dsimp only
  split_ifs
  · exact h
  · exact h
  · refine ⟨fun entry hentry ↦ ?_, fun row hrow ↦
      (h.summaries row hrow).mono (List.sublist_append_left _ _)⟩
    rcases List.mem_cons.mp hentry with rfl | hentry
    · exact List.mem_append_right _ (List.mem_singleton_self _)
    · exact List.mem_append_left _ (h.suites entry (List.mem_of_mem_filter hentry))

theorem EvalStore.Ok.clearGoldenSet (h : σ.Ok) (name : Option Str) :
    (clearGoldenSet name σ).Ok := by
  cases name with
  | none => exact ⟨nofun, h.summaries⟩
  | some name => exact ⟨fun entry hentry ↦ h.suites entry (List.mem_of_mem_filter hentry),
      h.summaries⟩

theorem setGoldenSet_prompts (s : Str) (cases : List GoldenCase) (runner : ρ) (σ : EvalStore K ρ) :
    (setGoldenSet s cases runner σ).2.prompts = σ.prompts := by
  rw [setGoldenSet]
  dsimp only
  split_ifs <;> rfl

theorem clearGoldenSet_prompts (name : Option Str) (σ : EvalStore K ρ) :
    (clearGoldenSet name σ).prompts = σ.prompts := by
  cases name <;> rfl

theorem clearGoldenSet_events (name : Option Str) (σ : EvalStore K ρ) :
    (clearGoldenSet name σ).events = σ.events := by
  cases name <;> rfl

section

variable [LinearOrder K] [Field K]

/-- **One step of a run of a golden set.** -/
theorem EvalStep.ok {e e' : GoldenEval K ρ} (h : EvalStep σ e σ' e') (hσ : σ.Ok)
    (he : e.Ok σ.events) (hkept : ∀ summary existing v, e = .found summary existing →
      e' = .stored v → existing.Kept summary σ.prompts) :
    σ.events.Sublist σ'.events ∧ σ'.Ok ∧ e'.Ok σ'.events := by
  cases h with
  | @start version t suite hsuite =>
    refine ⟨σ.note_events _, hσ.note _, ?_⟩
    have hregistered := List.singleton_sublist.mpr (hσ.suites _ (EvalStore.suite_mem hsuite))
    exact hregistered.append (List.Sublist.refl [EvalEvent.started version t suite])
  | answer => exact ⟨List.Sublist.refl _, hσ, he⟩
  | @score version t suite results now hlength =>
    refine ⟨σ.note_events _, hσ.note _, version, t, suite, results, ?_, rfl, hlength, ?_, rfl⟩
    · exact List.Sublist.append he (List.Sublist.refl [EvalEvent.finished version suite results])
    · exact congrArg Nat.cast hlength
  | findNone => exact ⟨List.Sublist.refl _, hσ, he⟩
  | find hfind => exact ⟨List.Sublist.refl _, hσ, he, (PromptStore.evalSummary_mem hfind).2⟩
  | @insert summary st' hins =>
    refine ⟨EvalStore.note_events { σ with prompts := st' } _, ?_, trivial⟩
    rw [PromptStore.insertSummary] at hins
    split_ifs at hins
    obtain rfl := Option.some.inj hins
    refine ⟨fun entry hentry ↦ List.mem_append_left _ (hσ.suites entry hentry), fun row hrow ↦ ?_⟩
    rcases List.mem_append.mp hrow with hrow | hrow
    · exact (hσ.summaries row hrow).mono (List.sublist_append_left _ _)
    · obtain rfl := List.mem_singleton.mp hrow
      exact Scored.evaluated he rfl rfl rfl
  | @update summary existing =>
    obtain ⟨hscored, hid⟩ := he
    refine ⟨EvalStore.note_events { σ with prompts := _ } _, ?_, trivial⟩
    refine ⟨fun entry hentry ↦ List.mem_append_left _ (hσ.suites entry hentry), fun row hrow ↦ ?_⟩
    obtain ⟨old, hold, rfl⟩ := List.mem_map.mp hrow
    split_ifs with hrowid
    · -- the row of the version gets the numbers of the run
      obtain ⟨hcases, hpassed⟩ := hkept summary existing _ rfl rfl old hold hrowid
      obtain ⟨hn, hp⟩ := EvalSummary.overwrite_counts hcases hpassed
      exact hscored.evaluated (hrowid.trans hid) hn hp
    · exact (hσ.summaries old hold).mono (List.sublist_append_left _ _)
  | _ => exact ⟨List.Sublist.refl _, hσ, trivial⟩

/-- **Nothing is written early**, and a call that is early has always been. -/
theorem AliasStep.early {g : EvalGate K} {st st' : PromptStore K} {c c' : AliasCall K}
    (h : AliasStep u g st c st' c') (hc : c'.early = true) : c.early = true ∧ st' = st := by
  cases h <;> first
    | exact ⟨rfl, rfl⟩
    | cases hc

/-- **One step of any call.** -/
theorem WholeStep.ok {t t' : PromptsCall K ρ} (h : WholeStep u σ t σ' t') (hσ : σ.Ok)
    (ht : t.Ok σ.events) : σ.events.Sublist σ'.events ∧ σ'.Ok ∧ t'.Ok σ'.events := by
  obtain ⟨h, hwhole⟩ := h
  cases h with
  | setGoldenSet s cases runner =>
    exact ⟨setGoldenSet_events s cases runner σ, hσ.setGoldenSet cases runner, trivial⟩
  | clearGoldenSet name =>
    rw [clearGoldenSet_events]
    exact ⟨List.Sublist.refl _, hσ.clearGoldenSet name, trivial⟩
  | setRegressionThresholds => exact ⟨List.Sublist.refl _, ⟨hσ.suites, hσ.summaries⟩, trivial⟩
  | startSetAlias => exact ⟨List.Sublist.refl _, hσ, fun _ ↦ rfl⟩
  | setAlias h =>
    refine ⟨List.Sublist.refl _, hσ.frame h.grows.summaries, fun hearly ↦ ?_⟩
    obtain ⟨hearly, rfl⟩ := h.early hearly
    simp [ht hearly]
  | clearAlias h => exact ⟨List.Sublist.refl _, hσ.frame h.summaries, trivial⟩
  | register h hc => exact ⟨List.Sublist.refl _, hσ.frame (h.summaries hc), trivial⟩
  | detecting h =>
    refine h.ok hσ ht ?_
    rintro summary existing v rfl rfl
    exact hwhole rfl
  | evaluate h =>
    refine h.ok hσ ht ?_
    rintro summary existing v rfl rfl
    exact hwhole rfl
  | _ => exact ⟨List.Sublist.refl _, hσ, trivial⟩

/-- **The premises of the rely–guarantee rule**, for the summaries. -/
theorem summaries_relyGuarantee :
    RelyGuarantee (ι := ι) (WholeStep u (K := K) (ρ := ρ)) (fun _ ↦ True)
      (fun σ σ' ↦ σ.events.Sublist σ'.events) EvalStore.Ok (fun σ t ↦ t.Ok σ.events) where
  step _ _ _ _ _ _ hσ ht hstep := hstep.ok hσ ht
  stable _ _ _ hevents ht := ht.mono hevents

end

end WiseTraceLoom
