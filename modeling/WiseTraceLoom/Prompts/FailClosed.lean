import WiseTraceLoom.Prompts.Provenance

/-!
# No unevaluated version in production

A slot is registered in the registry of golden sets, and then versions of it are promoted while
other calls register and evaluate versions and set and clear aliases.  The gate wants a summary,
summaries are written after a run only, and none is ever deleted; so the version that `production`
names has been evaluated, unless one of two writes goes wrong:

* A row that was loaded is written by its primary key, and the key of an alias that was cleared is
  given out again.  A call that has loaded the row of `canary` then moves `production`, past the
  gate (`key_reuse`).
* Only the columns of a summary that a run changes are written, so two runs can leave a row that is
  of neither (`torn_summary`).

`fail_closed` says that in runs without these two the gate stays closed.  The invariant is that what
`production` names has a summary, and so has what a call past the gate is about to promote.
-/

set_option autoImplicit false

namespace WiseTraceLoom

open Interleaving

variable {ι : Type} [DecidableEq ι] {K ρ : Type} {u : Unicode} {σ σ' : EvalStore K ρ} {s : Str}

/-! ## Steps -/

/-- An update of an alias is about to reach the row of `production` only if that is the alias the
call is for. -/
def PromptsCall.MovesOwn (slotName : Str) (st : PromptStore K) : PromptsCall K ρ → Prop
  | .setAlias (.found a _ row) _ => ∀ r ∈ st.aliases, r.id = row.id →
      r.slotName = slotName → r.aliasName = production →
      a.slotName = slotName ∧ a.aliasName = production
  | _ => True

/-- A step that leaves summaries whole and moves only its own alias, while the slot is registered.
-/
def RegisteredStep [LinearOrder K] [Field K] (u : Unicode) (slotName : Str)
    (σ : EvalStore K ρ) (t : PromptsCall K ρ) (σ' : EvalStore K ρ) (t' : PromptsCall K ρ) :
    Prop :=
  WholeStep u σ t σ' t' ∧ (t'.wrote = true → t.MovesOwn slotName σ.prompts) ∧
    σ'.suite slotName ≠ none

/-! ## The invariant -/

/-- The arguments of a call that the gate has let pass, until it has moved its alias. -/
def AliasCall.passed : AliasCall K → Option AliasArgs
  | .gated a _ => some a
  | .absent a _ => some a
  | .conflicted a _ => some a
  | .found a _ _ => some a
  | _ => none

/-- The same of any call. -/
def PromptsCall.passed : PromptsCall K ρ → Option AliasArgs
  | .setAlias c _ => c.passed
  | _ => none

/-- What `production` names has a summary. -/
def PromptStore.Gated (slotName : Str) (st : PromptStore K) : Prop :=
  ∀ r ∈ st.aliases, r.slotName = slotName → r.aliasName = production →
    st.evalSummary r.promptVersionId ≠ none

/-- So has what a call past the gate is about to promote. -/
def PromptsCall.Admitted (slotName : Str) (st : PromptStore K) (c : PromptsCall K ρ) : Prop :=
  ∀ a, c.passed = some a → a.slotName = slotName → a.aliasName = production →
    st.evalSummary a.versionId ≠ none

/-- A version with a summary keeps one. -/
def PromptStore.KeepsEvals (st st' : PromptStore K) : Prop :=
  ∀ v, st.evalSummary v ≠ none → st'.evalSummary v ≠ none

theorem PromptStore.KeepsEvals.of_eq {st st' : PromptStore K}
    (h : st'.summaries = st.summaries) : st.KeepsEvals st' := by
  intro v hv
  rwa [evalSummary, h]

theorem PromptsCall.Admitted.mono {st st' : PromptStore K} {c : PromptsCall K ρ}
    (h : c.Admitted s st) (hst : st.KeepsEvals st') : c.Admitted s st' :=
  fun a ha hs hn ↦ hst _ (h a ha hs hn)

theorem PromptsCall.Admitted.of_none {st : PromptStore K} {c : PromptsCall K ρ}
    (h : c.passed = none) : c.Admitted s st := by
  intro a ha
  rw [h] at ha
  cases ha

/-- Aliases may go. -/
theorem PromptStore.Gated.mono {st st' : PromptStore K} (h : st.Gated s)
    (hst : st.KeepsEvals st') (haliases : st'.aliases ⊆ st.aliases) : st'.Gated s :=
  fun r hr hs hn ↦ hst _ (h r (haliases hr) hs hn)

theorem PromptStore.evalSummary_ne_none {st : PromptStore K} {v : ℤ} :
    st.evalSummary v ≠ none ↔ ∃ row ∈ st.summaries, row.promptVersionId = v := by
  simp [evalSummary]

theorem PromptStore.KeepsEvals.insertSummary {st st' : PromptStore K} {summary : EvalSummary K}
    (h : st.insertSummary summary = some st') : st.KeepsEvals st' ∧ st'.aliases = st.aliases := by
  rw [PromptStore.insertSummary] at h
  split_ifs at h
  obtain rfl := Option.some.inj h
  refine ⟨fun v hv ↦ ?_, rfl⟩
  obtain ⟨row, hrow, hid⟩ := evalSummary_ne_none.mp hv
  exact evalSummary_ne_none.mpr ⟨row, List.mem_append_left _ hrow, hid⟩

theorem PromptStore.KeepsEvals.updateSummary [DecidableEq K] (st : PromptStore K)
    (loaded summary : EvalSummary K) : st.KeepsEvals (st.updateSummary loaded summary) := by
  intro v hv
  obtain ⟨row, hrow, hid⟩ := evalSummary_ne_none.mp hv
  refine evalSummary_ne_none.mpr ⟨_, List.mem_map_of_mem hrow, ?_⟩
  split_ifs <;> exact hid

theorem ClearStep.aliases {st st' : PromptStore K} {c c' : ClearCall}
    (h : ClearStep u st c st' c') : st'.aliases ⊆ st.aliases := by
  cases h with
  | delete => exact List.filter_subset_self _
  | _ => exact List.Subset.refl _

theorem RegisterStep.aliases {st st' : PromptStore K} {c c' : RegisterCall}
    (h : RegisterStep st c st' c') : st'.aliases = st.aliases := by
  cases h <;> rfl

/-- The gate looks the slot up under the name it is given. -/
theorem EvalStore.mem_gate_suites : s ∈ σ.gate.suites ↔ σ.suite s ≠ none := by
  simp [EvalStore.gate, EvalStore.suite]

section

variable [LinearOrder K] [Field K]

/-- **The gate wants a summary.** -/
theorem evalSummary_of_allowed {g : EvalGate K} {st : PromptStore K} {v : ℤ}
    (h : assertProductionPromotionAllowed u g st s v = .ok ()) (hs : s ∈ g.suites) :
    st.evalSummary v ≠ none := by
  intro hnone
  rw [assertProductionPromotionAllowed, if_neg (not_not.mpr hs), hnone] at h
  cases h

/-- The first version of a slot that is promoted needs a summary only. -/
theorem allowed_of_first {g : EvalGate K} {st : PromptStore K} {v : ℤ} {row : EvalSummary K}
    (hrow : st.evalSummary v = some row) (hnone : st.promptAlias s production = none) :
    assertProductionPromotionAllowed u g st s v = .ok () := by
  have hresolve : resolvePromptAlias u st s production = .ok none := by
    rw [resolvePromptAlias, normalizeAlias_production, if_neg (by decide), hnone]
  rw [assertProductionPromotionAllowed, hrow, hresolve]
  exact ite_self _

/-- A run of a golden set leaves the aliases alone and deletes no summary. -/
theorem EvalStep.keepsEvals {e e' : GoldenEval K ρ} (h : EvalStep σ e σ' e') :
    σ.prompts.KeepsEvals σ'.prompts ∧ σ'.prompts.aliases = σ.prompts.aliases := by
  cases h with
  | insert h => exact PromptStore.KeepsEvals.insertSummary h
  | update => exact ⟨PromptStore.KeepsEvals.updateSummary _ _ _, rfl⟩
  | _ => exact ⟨.of_eq rfl, rfl⟩

/-- A call that is past the gate was let pass in this step, or before. -/
theorem AliasStep.passed {g : EvalGate K} {st st' : PromptStore K} {c c' : AliasCall K}
    (h : AliasStep u g st c st' c') {a : AliasArgs} (ha : c'.passed = some a) :
    c.passed = some a ∨ (a.aliasName = production →
      assertProductionPromotionAllowed u g st a.slotName a.versionId = .ok ()) := by
  cases h with
  | allow h =>
    obtain rfl := Option.some.inj ha
    exact .inr h
  | find | findNone | integrityError | reload => exact .inl ha
  | _ => cases ha

/-- A row that is written has the version of a call that is past the gate, or the one it had. -/
theorem AliasStep.gated {g : EvalGate K} {st st' : PromptStore K} {c c' : AliasCall K} {w w' : Bool}
    (h : AliasStep u g st c st' c') (hst : st.Gated s)
    (hc : (PromptsCall.setAlias (ρ := ρ) c w).Admitted s st)
    (hown : (PromptsCall.setAlias (ρ := ρ) c' w').wrote = true →
      (PromptsCall.setAlias (ρ := ρ) c w).MovesOwn s st) : st'.Gated s := by
  have hevals := PromptStore.KeepsEvals.of_eq h.grows.summaries
  rcases h.effect with rfl | ⟨a, seen, now, rfl, hins⟩ | ⟨a, seen, row, now, rfl, rfl, hup⟩
  · exact hst
  · obtain ⟨-, rfl⟩ := PromptStore.insertAlias_eq_some hins
    intro r hr hs hn
    rcases List.mem_append.mp hr with hr | hr
    · exact hevals _ (hst r hr hs hn)
    · obtain rfl := List.mem_singleton.mp hr
      exact hevals _ (hc a rfl hs hn)
  · rw [PromptStore.updateAlias_eq_some hup] at hevals ⊢
    intro r' hr' hs hn
    obtain ⟨r, hr, rfl⟩ := List.mem_map.mp hr'
    by_cases hid : r.id = row.id
    · rw [if_pos hid] at hs hn ⊢
      obtain ⟨has, han⟩ := hown rfl r hr hid hs hn
      rw [PromptAlias.move]
      dsimp only
      split_ifs
      · exact hevals _ (hst r hr hs hn)
      · exact hevals _ (hc a rfl has han)
    · rw [if_neg hid] at hs hn ⊢
      exact hevals _ (hst r hr hs hn)

/-- **One step of any call while the slot is registered.** -/
theorem RegisteredStep.gated {t t' : PromptsCall K ρ} (h : RegisteredStep u s σ t σ' t')
    (hsuite : σ.suite s ≠ none) (hσ : σ.prompts.Gated s) (ht : t.Admitted s σ.prompts) :
    σ.prompts.KeepsEvals σ'.prompts ∧ σ'.prompts.Gated s ∧ t'.Admitted s σ'.prompts := by
  obtain ⟨⟨h, -⟩, hown, -⟩ := h
  -- most steps neither touch the tables nor get past the gate
  have hframe {st : PromptStore K} {u : PromptsCall K ρ} (hst : st = σ.prompts)
      (hu : u.passed = none) : σ.prompts.KeepsEvals st ∧ st.Gated s ∧ u.Admitted s st := by
    subst hst
    exact ⟨.of_eq rfl, hσ, .of_none hu⟩
  cases h with
  | setGoldenSet s cases runner => exact hframe (setGoldenSet_prompts s cases runner σ) rfl
  | clearGoldenSet name => exact hframe (clearGoldenSet_prompts name σ) rfl
  | setAlias h =>
    have hevals := PromptStore.KeepsEvals.of_eq h.grows.summaries
    refine ⟨hevals, h.gated hσ ht hown, fun a ha hs hn ↦ ?_⟩
    rcases h.passed ha with hpassed | hallowed
    · exact hevals _ (ht a hpassed hs hn)
    · have hmem : a.slotName ∈ σ.gate.suites := EvalStore.mem_gate_suites.mpr (hs ▸ hsuite)
      exact hevals _ (evalSummary_of_allowed (hallowed hn) hmem)
  | clearAlias h =>
    have hevals := PromptStore.KeepsEvals.of_eq h.summaries
    exact ⟨hevals, hσ.mono hevals h.aliases, .of_none rfl⟩
  | register h hc =>
    have hevals := PromptStore.KeepsEvals.of_eq (h.summaries hc)
    exact ⟨hevals, hσ.mono hevals (fun _ hr ↦ h.aliases ▸ hr), .of_none rfl⟩
  | detecting h =>
    obtain ⟨hevals, haliases⟩ := h.keepsEvals
    exact ⟨hevals, hσ.mono hevals (fun _ hr ↦ haliases ▸ hr), .of_none rfl⟩
  | evaluate h =>
    obtain ⟨hevals, haliases⟩ := h.keepsEvals
    exact ⟨hevals, hσ.mono hevals (fun _ hr ↦ haliases ▸ hr), .of_none rfl⟩
  | _ => exact hframe rfl rfl

/-- **The premises of the rely–guarantee rule**, for the pointer. -/
theorem pointer_relyGuarantee (s : Str) :
    RelyGuarantee (ι := ι) (RegisteredStep u (K := K) (ρ := ρ) s) (fun d ↦ d.shared.suite s ≠ none)
      (fun σ σ' ↦ σ.prompts.KeepsEvals σ'.prompts) (fun σ ↦ σ.prompts.Gated s)
      (fun σ t ↦ t.Admitted s σ.prompts) where
  step _ _ _ _ hsuite _ hσ ht hstep := hstep.gated hsuite hσ ht
  stable _ _ _ hevals ht := ht.mono hevals

end

/-! ## Promotions fail closed -/

/-- The process and what all its threads are doing. -/
abbrev EvalSystem (ι K ρ : Type) := Config ι (EvalStore K ρ) (PromptsCall K ρ)

/-- Nothing is stored, nothing is registered and nothing is going on. -/
def EvalSystem.init (ι ρ : Type) {K : Type} (thresholds : RegressionThresholds K) :
    EvalSystem ι K ρ := ⟨⟨⟨[], [], []⟩, [], thresholds, []⟩, fun _ ↦ .idle⟩

/-- Nothing of the slot is in production, nor is an unevaluated version about to be. -/
structure EvalSystem.Unpromoted (c : EvalSystem ι K ρ) (slotName : Str) : Prop where
  /-- The alias names nothing. -/
  pointer : c.shared.prompts.promptAlias slotName production = none
  /-- No call is past the gate to promote a version that has no summary. -/
  calls : ∀ i, (c.locals i).Admitted slotName c.shared.prompts

/-- `EvalRegressionError`. -/
def AliasError.evalRegression : AliasError K → Bool
  | .noEval _ => true
  | .regressed _ _ _ => true
  | _ => false

/-- **Promotions fail closed**: in every run in which the slot is registered while nothing of it is
promoted, stays registered, and in which no row is written under another call's hands, what
`production` names has been evaluated, and a call that the gate refuses has changed no alias. -/
theorem fail_closed [LinearOrder K] [Field K] {thresholds : RegressionThresholds K}
    {c d : EvalSystem ι K ρ} (hpast : Steps (WholeStep u) (EvalSystem.init ι ρ thresholds) c)
    (hsuite : c.shared.suite s ≠ none) (hunpromoted : c.Unpromoted s)
    (hrun : Steps (RegisteredStep u s) c d) :
    (∀ v, d.shared.prompts.pointer s production = some v →
      ∃ row, d.shared.prompts.evalSummary v = some row ∧ Evaluated d.shared.events row ∧
        0 ≤ row.nPassed ∧ row.nPassed ≤ row.nCases) ∧
    ∀ i e wrote, d.locals i = .setAlias (.raised e) wrote → e.evalRegression = true →
      wrote = false := by
  -- every summary comes from a run
  have hwhole : Steps (WholeStep u) (EvalSystem.init ι ρ thresholds) d :=
    hpast.trans (Steps.mono (fun _ _ _ _ h ↦ h.1) hrun)
  obtain ⟨hok, hlocals⟩ := summaries_relyGuarantee.steps hwhole (fun _ _ ↦ trivial)
    ⟨nofun, nofun⟩ fun _ ↦ trivial
  -- what is promoted has a summary
  have hregistered (e : EvalSystem ι K ρ) (he : Steps (RegisteredStep u s) c e) :
      e.shared.suite s ≠ none := by
    rcases he.cases_tail with rfl | ⟨f, -, i, s', t', hstep, rfl⟩
    · exact hsuite
    · exact hstep.2.2
  have hgated : c.shared.prompts.Gated s := by
    intro r hr hs hn
    exact absurd hunpromoted.pointer (by
      simpa [PromptStore.promptAlias] using ⟨r, hr, hs, hn⟩)
  obtain ⟨hgated', -⟩ := (pointer_relyGuarantee s).steps hrun hregistered hgated hunpromoted.calls
  refine ⟨fun v hv ↦ ?_, fun i e wrote hi he ↦ ?_⟩
  · obtain ⟨r, hr, rfl⟩ := Option.map_eq_some_iff.mp hv
    have hmatch : r.slotName = s ∧ r.aliasName = production := by simpa using List.find?_some hr
    have hsome := hgated' r (List.mem_of_find?_eq_some hr) hmatch.1 hmatch.2
    obtain ⟨row, hrow⟩ := Option.ne_none_iff_exists'.mp hsome
    have hevaluated := hok.summaries row (PromptStore.evalSummary_mem hrow).1
    exact ⟨row, hrow, hevaluated, hevaluated.bounds⟩
  · have hi' := hlocals i
    rw [hi] at hi'
    refine hi' ?_
    cases e <;> first
      | rfl
      | cases he

/-! ### A first promotion -/

/-- The same tables with these aliases. -/
def EvalStore.withAliases (σ : EvalStore K ρ) (aliases : List PromptAlias) : EvalStore K ρ :=
  { σ with prompts := { σ.prompts with aliases } }

/-- **An evaluated version is promoted**, by a thread that is not interrupted. -/
theorem promote_first {ι : Type} [DecidableEq ι] {d : EvalSystem ι ℚ Unit}
    {R : EvalStore ℚ Unit → PromptsCall ℚ Unit → EvalStore ℚ Unit → PromptsCall ℚ Unit → Prop}
    (hR : ∀ {σ σ' : EvalStore ℚ Unit} {t t' : PromptsCall ℚ Unit}, PromptsStep .ascii σ t σ' t' →
      σ'.suites = d.shared.suites → t.KeepsSummary σ.prompts → t.MovesOwn support σ.prompts →
      R σ t σ' t')
    (i : ι) {v : ℤ} {version : PromptVersion} {row : EvalSummary ℚ} (hidle : d.locals i = .idle)
    (haliases : d.shared.prompts.aliases = [])
    (hversion : d.shared.prompts.version v = some version) (hslot : version.slotName = support)
    (hrow : d.shared.prompts.evalSummary v = some row) :
    Steps R d (d.set i (d.shared.withAliases [supportAlias v]) (.setAlias (.written 1) true)) := by
  let s := d.shared.withAliases
  have hs : d.shared = s [] := by
    simp only [s, EvalStore.withAliases, ← haliases]
  have hstep {l l' : List PromptAlias} {t t' : PromptsCall ℚ Unit}
      (h : PromptsStep .ascii (s l) t (s l') t') (hwhole : t.KeepsSummary (s l).prompts)
      (hown : t.MovesOwn support (s l).prompts) : R (s l) t (s l') t' := hR h rfl hwhole hown
  let a : AliasArgs := ⟨support, production, v⟩
  have hcheck : AliasStep .ascii (s []).gate (s []).prompts (.called support production v)
      (s []).prompts (.checked a) :=
    .check_normal (normalizeAlias_production _) (by decide) hversion hslot
  have hallow : AliasStep .ascii (s []).gate (s []).prompts (.checked a) (s []).prompts
      (.gated a none) :=
    .allow fun _ ↦ allowed_of_first hrow rfl
  have hinsert : AliasStep .ascii (s []).gate (s []).prompts (.absent a none)
      (s [supportAlias v]).prompts (.written 1) := .insert noon rfl
  have h1 : Solo R (s [], .idle) (s [], .setAlias (.called support production v) false) :=
    Solo.step .refl (hstep (.startSetAlias support production v) trivial trivial)
  have h2 : Solo R (s [], .idle) (s [], .setAlias (.checked a) false) :=
    h1.step (hstep (.setAlias hcheck) trivial trivial)
  have h3 : Solo R (s [], .idle) (s [], .setAlias (.gated a none) false) :=
    h2.step (hstep (.setAlias hallow) trivial trivial)
  have h4 : Solo R (s [], .idle) (s [], .setAlias (.absent a none) false) :=
    h3.step (hstep (.setAlias (.findNone rfl)) trivial trivial)
  have h5 : Solo R (s [], .idle) (s [supportAlias v], .setAlias (.written 1) true) :=
    h4.step (hstep (.setAlias hinsert) trivial trivial)
  exact Solo.lift (fun h ↦ h) i hs hidle h5

/-! ### One thread

The golden set of the slot has one case. -/

/-- A case. -/
def refund : GoldenCase := ⟨"refund".toList⟩

/-- The default thresholds. -/
def defaultThresholds : RegressionThresholds ℚ := ⟨1 / 50, 3 / 20, 1 / 5⟩

/-- The golden set with one case. -/
def oneCase : GoldenSuite Unit := ⟨[refund], (), by decide⟩

/-- What the runner answers if a version passes a case, or does not. -/
def scoredCase (passed : Bool) : EvalCaseResult ℚ := ⟨passed, 0, 0⟩

/-- The first version of the slot. -/
def refundVersion : PromptVersion := (⟨support, "Refund?".toList, none⟩ : RegisterArgs).row 1 0 noon

theorem RegisteredStep.of_suites {σ σ' τ : EvalStore ℚ Unit} {t t' : PromptsCall ℚ Unit}
    (h : PromptsStep .ascii σ t σ' t') (hsame : σ'.suites = τ.suites)
    (hsuite : τ.suite support ≠ none) (hwhole : t.KeepsSummary σ.prompts)
    (hown : t.MovesOwn support σ.prompts) :
    RegisteredStep .ascii support σ t σ' t' := by
  refine ⟨⟨h, fun _ ↦ hwhole⟩, fun _ ↦ hown, ?_⟩
  rwa [EvalStore.suite, hsame]

/-- A version that is registered, evaluated and promoted. -/
theorem fail_closed_alone : ∃ d : EvalSystem Unit ℚ Unit,
    d.shared.prompts.pointer support production = some 1 ∧
    ∃ row, d.shared.prompts.evalSummary 1 = some row ∧ Evaluated d.shared.events row ∧
      0 ≤ row.nPassed ∧ row.nPassed ≤ row.nCases := by
  let s (versions : List PromptVersion) (rows : List (EvalSummary ℚ))
      (events : List (EvalEvent ℚ Unit)) (aliases : List PromptAlias) : EvalStore ℚ Unit :=
    ⟨⟨versions, aliases, rows⟩, [(support, oneCase)], defaultThresholds, events⟩
  have hsuite (versions : List PromptVersion) (rows : List (EvalSummary ℚ))
      (events : List (EvalEvent ℚ Unit)) (l : List PromptAlias) :
      (s versions rows events l).suite support = some oneCase := by
    simp [s, EvalStore.suite]
  have hregistered (versions : List PromptVersion) (rows : List (EvalSummary ℚ))
      (events : List (EvalEvent ℚ Unit)) (l : List PromptAlias) :
      (s versions rows events l).suite support ≠ none := by
    simp [hsuite]
  have hstep {versions versions' : List PromptVersion} {rows rows' : List (EvalSummary ℚ)}
      {events events' : List (EvalEvent ℚ Unit)} {l l' : List PromptAlias}
      {t t' : PromptsCall ℚ Unit} (h : PromptsStep .ascii (s versions rows events l) t
        (s versions' rows' events' l') t')
      (hwhole : t.KeepsSummary (s versions rows events l).prompts)
      (hown : t.MovesOwn support (s versions rows events l).prompts) :
      RegisteredStep .ascii support (s versions rows events l) t
        (s versions' rows' events' l') t' :=
    ⟨⟨h, fun _ ↦ hwhole⟩, fun _ ↦ hown, hregistered _ _ _ _⟩
  let c : EvalSystem Unit ℚ Unit := ⟨s [] [] [.registered support oneCase] [], fun _ ↦ .idle⟩
  have hc : Steps (WholeStep .ascii) (EvalSystem.init Unit Unit defaultThresholds) c :=
    Steps.thread .refl () ⟨.setGoldenSet support [refund] (), fun h ↦ by cases h⟩
  let a : RegisterArgs := ⟨support, "Refund?".toList, none⟩
  let summary := summarize refundVersion [scoredCase true] noon
  have hinsertVersion : PromptsStep .ascii (s [] [] [.registered support oneCase] [])
      (.register (.counted a 0)) (s [refundVersion] [] [.registered support oneCase] [])
      (.register (.committed a refundVersion)) := .register (.insert noon) fun _ _ h ↦ by cases h
  have hinsertSummary (events : List (EvalEvent ℚ Unit)) :
      EvalStep (s [refundVersion] [] events []) (.absent summary)
        (s [refundVersion] [summary] (events ++ [.stored 1]) []) (.stored 1) := .insert rfl
  have hversion (events : List (EvalEvent ℚ Unit)) :
      (s [refundVersion] [summary] events []).prompts.version 1 = some refundVersion := rfl
  have hrow (events : List (EvalEvent ℚ Unit)) :
      (s [refundVersion] [summary] events []).prompts.evalSummary 1 = some summary := rfl
  have h0 : Steps (RegisteredStep .ascii support) c c := .refl
  -- the version is registered
  have h1 := Steps.thread h0 () (hstep (.startRegister a) trivial trivial)
  have h2 := Steps.thread h1 ()
    (hstep (.register (.miss rfl) fun _ _ h ↦ by cases h) trivial trivial)
  have h3 := Steps.thread h2 () (hstep (.register .count fun _ _ h ↦ by cases h) trivial trivial)
  have h4 := Steps.thread h3 () (hstep hinsertVersion trivial trivial)
  -- and evaluated
  have h5 := Steps.thread h4 () (hstep (.detect (hregistered _ _ _ _)) trivial trivial)
  have h6 := Steps.thread h5 () (hstep (.detecting (.load rfl)) trivial trivial)
  have h7 := Steps.thread h6 () (hstep (.detecting (.start (hsuite _ _ _ _))) trivial trivial)
  have h8 := Steps.thread h7 ()
    (hstep (.detecting (.answer (by decide) (scoredCase true))) trivial trivial)
  have h9 := Steps.thread h8 () (hstep (.detecting (.score noon rfl)) trivial trivial)
  have h10 := Steps.thread h9 () (hstep (.detecting (.findNone rfl)) trivial trivial)
  have h11 := Steps.thread h10 () (hstep (.detecting (hinsertSummary _)) trivial trivial)
  have h12 := Steps.thread h11 () (hstep .stop trivial trivial)
  -- and promoted
  have h13 := h12.trans (promote_first (R := RegisteredStep .ascii support)
    (fun h hsame hwhole hown ↦ .of_suites h hsame (hregistered _ _ _ _) hwhole hown) () rfl rfl
    (hversion _) rfl (hrow _))
  refine ⟨_, rfl, (fail_closed hc ?_ ⟨rfl, fun _ ↦ .of_none rfl⟩ h13).1 1 rfl⟩
  exact hregistered _ _ _ _

/-! ### A key that is given out again

The runner raises for the first version and passes the
second one. -/

/-- The golden set is registered, and then the two versions are. -/
def twoVersionsRequests : List (PromptsRequest ℚ Unit) :=
  [.registerSuite support [refund] (),
    .register ⟨support, "Refund?".toList, none⟩ ⟨noon, fun _ ↦ none⟩,
    .register ⟨support, "Refund!".toList, none⟩ ⟨noon, fun _ ↦ some ⟨true, 0, 0⟩⟩]

/-- The requests of a single thread are a run of the system. -/
theorem EvalSystem.init_runAll [LinearOrder K] [Field K] (i : ι)
    (thresholds : RegressionThresholds K) (requests : List (PromptsRequest K ρ)) :
    Steps (PromptsStep u) (EvalSystem.init ι ρ thresholds)
      ⟨(EvalSystem.init ι ρ thresholds).shared.runAll u requests, fun _ ↦ .idle⟩ := by
  let c : EvalSystem ι K ρ := EvalSystem.init ι ρ thresholds
  have hrun : Steps (PromptsStep u) c (c.set i (c.shared.runAll u requests) (id .idle)) :=
    Solo.lift (fun h ↦ h) i rfl rfl (EvalStore.runAll_solo requests _)
  have hidle : Function.update c.locals i .idle = fun _ ↦ .idle :=
    Function.update_eq_self_iff.mpr rfl
  rwa [Config.set, id_eq, hidle] at hrun

/-- What the registrations leave behind. -/
structure TwoVersions (σ : EvalStore ℚ Unit) : Prop where
  /-- The golden set is registered. -/
  suite : σ.suite support ≠ none
  /-- Both versions are of the slot. -/
  versions : ∀ v, v = 1 ∨ v = 2 → ∃ row, σ.prompts.version v = some row ∧ row.slotName = support
  /-- The first version has no summary. -/
  unevaluated : σ.prompts.evalSummary 1 = none
  /-- The second one has. -/
  evaluated : ∃ row, σ.prompts.evalSummary 2 = some row

theorem twoVersions_reachable : ∃ σ : EvalStore ℚ Unit,
    Steps (PromptsStep .ascii) (EvalSystem.init ℕ Unit defaultThresholds) ⟨σ, fun _ ↦ .idle⟩ ∧
      σ.prompts.aliases = [] ∧ TwoVersions σ := by
  let σ := (EvalSystem.init ℕ Unit defaultThresholds).shared.runAll .ascii twoVersionsRequests
  have hsuites : σ.gate.suites = [support] := by decide +kernel
  have hversion (v : ℤ) (hv : v = 1 ∨ v = 2) :
      (σ.prompts.version v).map PromptVersion.slotName = some support := by
    rcases hv with rfl | rfl <;> decide +kernel
  have hnone : (σ.prompts.evalSummary 1).isNone = true := by decide +kernel
  have hsome : (σ.prompts.evalSummary 2).isSome = true := by decide +kernel
  refine ⟨σ, EvalSystem.init_runAll 0 defaultThresholds _, by decide +kernel, ?_, ?_, ?_, ?_⟩
  · rw [← EvalStore.mem_gate_suites, hsuites]
    exact List.mem_singleton_self support
  · exact fun v hv ↦ Option.map_eq_some_iff.mp (hversion v hv)
  · exact Option.isNone_iff_eq_none.mp hnone
  · exact Option.isSome_iff_exists.mp hsome

/-- The alias that is not gated. -/
def canary : Str := "canary".toList

/-- The row of `canary` when it names a version. -/
def canaryAlias (n : ℤ) : PromptAlias := ⟨1, support, canary, n, (utcnow noon).column⟩

theorem TwoVersions.check {σ : EvalStore ℚ Unit} (h : TwoVersions σ) (l : List PromptAlias)
    {name : Str} {v : ℤ} (hname : normalizeAlias .ascii name = name) (hne : name ≠ [])
    (hv : v = 1 ∨ v = 2) :
    AliasStep .ascii (σ.withAliases l).gate (σ.withAliases l).prompts (.called support name v)
      (σ.withAliases l).prompts (.checked ⟨support, name, v⟩) := by
  obtain ⟨row, hrow, hs⟩ := h.versions v hv
  have hrow' : (σ.withAliases l).prompts.version v = some row := hrow
  exact .check_normal hname hne hrow' hs

/-- A step while `support` stays registered. -/
def SupportStep (σ : EvalStore ℚ Unit) (t : PromptsCall ℚ Unit) (σ' : EvalStore ℚ Unit)
    (t' : PromptsCall ℚ Unit) : Prop :=
  PromptsStep .ascii σ t σ' t' ∧ σ'.suite support ≠ none

theorem SupportStep.of_suites {σ σ' τ : EvalStore ℚ Unit} {t t' : PromptsCall ℚ Unit}
    (h : PromptsStep .ascii σ t σ' t') (hsame : σ'.suites = τ.suites)
    (hsuite : τ.suite support ≠ none) : SupportStep σ t σ' t' := by
  refine ⟨h, ?_⟩
  rwa [EvalStore.suite, hsame]

/-- **A version that was never evaluated is in production.**  It was to become the canary; the row
that the call had loaded was cleared, and its key was given to `production`. -/
theorem key_reuse : ∃ c d : EvalSystem ℕ ℚ Unit,
    Steps (PromptsStep .ascii) (EvalSystem.init ℕ Unit defaultThresholds) c ∧
    c.shared.suite support ≠ none ∧ c.Unpromoted support ∧ Steps SupportStep c d ∧
    d.shared.prompts.pointer support production = some 1 ∧
    d.shared.prompts.evalSummary 1 = none := by
  obtain ⟨σ, hσ, haliases, htwo⟩ := twoVersions_reachable
  let s := σ.withAliases
  have hs : σ = s [] := by
    simp only [s, EvalStore.withAliases, ← haliases]
  rw [hs] at hσ
  have hstep {l l' : List PromptAlias} {t t' : PromptsCall ℚ Unit}
      (h : PromptsStep .ascii (s l) t (s l') t') : SupportStep (s l) t (s l') t' := ⟨h, htwo.suite⟩
  have hcanary : normalizeAlias .ascii canary = canary := by decide
  have hungated : canary ≠ production := by decide
  have hinsert : AliasStep .ascii (s []).gate (s []).prompts (.absent ⟨support, canary, 2⟩ none)
      (s [canaryAlias 2]).prompts (.written 1) := .insert noon rfl
  have hfind : AliasStep .ascii (s [canaryAlias 2]).gate (s [canaryAlias 2]).prompts
      (.gated ⟨support, canary, 1⟩ (some 2)) (s [canaryAlias 2]).prompts
      (.found ⟨support, canary, 1⟩ (some 2) (canaryAlias 2)) := .find rfl
  have hload : ClearStep .ascii (s [canaryAlias 2]).prompts (.called support canary)
      (s [canaryAlias 2]).prompts (.found (canaryAlias 2)) := .find (by decide) rfl
  have hdelete : ClearStep .ascii (s [canaryAlias 2]).prompts (.found (canaryAlias 2))
      (s []).prompts .returned := .delete
  have hupdate : AliasStep .ascii (s [supportAlias 2]).gate (s [supportAlias 2]).prompts
      (.found ⟨support, canary, 1⟩ (some 2) (canaryAlias 2)) (s [supportAlias 1]).prompts
      (.written 1) := .update noon rfl
  let c : EvalSystem ℕ ℚ Unit := ⟨s [], fun _ ↦ .idle⟩
  have h0 : Steps SupportStep c c := .refl
  -- version 2 becomes the canary, and version 1 is about to
  have h1 := Steps.thread h0 0 (hstep (.startSetAlias support canary 2))
  have h2 := Steps.thread h1 0 (hstep (.setAlias (htwo.check [] hcanary (by decide) (.inr rfl))))
  have h3 := Steps.thread h2 0 (hstep (.setAlias (.allow (absurd · hungated))))
  have h4 := Steps.thread h3 0 (hstep (.setAlias (.findNone rfl)))
  have h5 := Steps.thread h4 0 (hstep (.setAlias hinsert))
  have h6 := Steps.thread h5 1 (hstep (.startSetAlias support canary 1))
  have h7 := Steps.thread h6 1 (hstep (.setAlias (htwo.check _ hcanary (by decide) (.inl rfl))))
  have h8 := Steps.thread h7 1 (hstep (.setAlias (.allow (absurd · hungated))))
  have h9 := Steps.thread h8 1 (hstep (.setAlias hfind))
  -- the canary is cleared
  have h10 := Steps.thread h9 2 (hstep (.startClearAlias support canary))
  have h11 := Steps.thread h10 2 (hstep (.clearAlias hload))
  have h12 := Steps.thread h11 2 (hstep (.clearAlias hdelete))
  -- version 2 is promoted under its key, and the second call goes on
  obtain ⟨version, hversion, hslot⟩ := htwo.versions 2 (.inr rfl)
  obtain ⟨row, hrow⟩ := htwo.evaluated
  have h13 := h12.trans (promote_first (fun h hsame _ _ ↦ .of_suites h hsame htwo.suite) 3 rfl rfl
    hversion hslot hrow)
  have h14 := Steps.thread h13 1 (hstep (.setAlias hupdate))
  exact ⟨c, _, hσ, htwo.suite, ⟨rfl, fun _ ↦ .of_none rfl⟩, h14, rfl, htwo.unevaluated⟩

/-! ### Two runs of one version

The golden set has two cases, of which a version passes the first one. -/

/-- Another case. -/
def greeting : GoldenCase := ⟨"greeting".toList⟩

/-- The golden set with both cases. -/
def bothCases : GoldenSuite Unit := ⟨[refund, greeting], (), by decide⟩

/-- The golden set is registered, and then the version is. -/
def oneVersionRequests : List (PromptsRequest ℚ Unit) :=
  [.registerSuite support [refund, greeting] (),
    .register ⟨support, "Refund?".toList, none⟩ ⟨noon, fun n ↦ some (scoredCase (n = 0))⟩]

/-- What the registration leaves behind. -/
theorem oneVersion_reachable : ∃ (σ : EvalStore ℚ Unit) (version : PromptVersion)
    (row : EvalSummary ℚ),
    Steps (PromptsStep .ascii) (EvalSystem.init ℕ Unit defaultThresholds) ⟨σ, fun _ ↦ .idle⟩ ∧
      σ.prompts.aliases = [] ∧ σ.suites = [(support, bothCases)] ∧
      σ.prompts.version 1 = some version ∧ version.id = 1 ∧ version.slotName = support ∧
      σ.prompts.summaries = [row] ∧ row.promptVersionId = 1 ∧ row.nCases = 2 ∧
      row.nPassed = 1 := by
  let σ := (EvalSystem.init ℕ Unit defaultThresholds).shared.runAll .ascii oneVersionRequests
  have hversion : (σ.prompts.version 1).map (fun v ↦ (v.id, v.slotName)) = some (1, support) := by
    decide +kernel
  have hrows : σ.prompts.summaries.map (fun r ↦ (r.promptVersionId, r.nCases, r.nPassed)) =
      [(1, 2, 1)] := by decide +kernel
  obtain ⟨version, hv, hfields⟩ := Option.map_eq_some_iff.mp hversion
  obtain ⟨row, hrow, hcounts⟩ := List.map_eq_singleton_iff.mp hrows
  simp only [Prod.mk.injEq] at hfields hcounts
  exact ⟨σ, version, row, EvalSystem.init_runAll 0 defaultThresholds _, by decide +kernel, rfl, hv,
    hfields.1, hfields.2, hrow, hcounts⟩

/-- **The summary of the version in production is of no run.**  A run of both cases and one of a
single case have loaded the same row, one writes the number of cases and the other the number that
passed. -/
theorem torn_summary : ∃ (c d : EvalSystem ℕ ℚ Unit) (row : EvalSummary ℚ),
    Steps (PromptsStep .ascii) (EvalSystem.init ℕ Unit defaultThresholds) c ∧
    c.shared.suite support ≠ none ∧ c.Unpromoted support ∧ Steps SupportStep c d ∧
    d.shared.prompts.pointer support production = some 1 ∧
    d.shared.prompts.evalSummary 1 = some row ∧ row.nCases < row.nPassed := by
  obtain ⟨⟨⟨versions, aliases, rows⟩, suites, thresholds, events⟩, version, row, hσ, haliases,
    hsuites, hversion, hid, hslot, hrows, hrow, hcases, hpassed⟩ := oneVersion_reachable
  dsimp only at haliases hsuites hrows
  subst haliases hsuites hrows
  -- only these parts of the state change
  let s (suite : GoldenSuite Unit) (row : EvalSummary ℚ) (events : List (EvalEvent ℚ Unit))
      (aliases : List PromptAlias) : EvalStore ℚ Unit :=
    ⟨⟨versions, aliases, [row]⟩, [(support, suite)], thresholds, events⟩
  have hstep {suite suite' : GoldenSuite Unit} {row row' : EvalSummary ℚ}
      {events events' : List (EvalEvent ℚ Unit)} {l l' : List PromptAlias}
      {t t' : PromptsCall ℚ Unit} (h : PromptsStep .ascii (s suite row events l) t
        (s suite' row' events' l') t') :
      SupportStep (s suite row events l) t (s suite' row' events' l') t' := by
    refine ⟨h, ?_⟩
    simp [s, EvalStore.suite]
  have hsuite (suite : GoldenSuite Unit) (row : EvalSummary ℚ) (events : List (EvalEvent ℚ Unit)) :
      (s suite row events []).suite version.slotName = some suite := by
    simp [s, EvalStore.suite, hslot]
  have hfound (suite : GoldenSuite Unit) (row : EvalSummary ℚ) (events : List (EvalEvent ℚ Unit))
      (l : List PromptAlias) (hrow : row.promptVersionId = 1) :
      (s suite row events l).prompts.evalSummary 1 = some row := by
    simp [s, PromptStore.evalSummary, hrow]
  have hupdate {suite : GoldenSuite Unit} {old summary : EvalSummary ℚ}
      {events : List (EvalEvent ℚ Unit)} (hold : old.promptVersionId = row.promptVersionId) :
      EvalStep (s suite old events []) (.found summary row)
        (s suite (row.overwrite summary old) (events ++ [.stored summary.promptVersionId]) [])
        (.stored summary.promptVersionId) := by
    have hwrite : (s suite old events []).prompts.updateSummary row summary =
        (s suite (row.overwrite summary old) events []).prompts := by
      simp [s, PromptStore.updateSummary, hold]
    have hstep : EvalStep (s suite old events []) (.found summary row) _ _ := .update
    rwa [hwrite] at hstep
  have hreplace (events : List (EvalEvent ℚ Unit)) :
      PromptsStep .ascii (s bothCases row events []) .idle
        (s oneCase row (events ++ [.registered support oneCase]) []) .idle :=
    .setGoldenSet support [refund] ()
  have hfind (suite : GoldenSuite Unit) (events : List (EvalEvent ℚ Unit))
      (results : List (EvalCaseResult ℚ)) :
      EvalStep (s suite row events []) (.scored (summarize version results noon))
        (s suite row events []) (.found (summarize version results noon) row) := by
    have hsummary : (summarize version results noon).promptVersionId = 1 := hid
    exact .find (hsummary.symm ▸ hfound suite row events [] hrow)
  let one := summarize version [scoredCase true] noon
  let both := summarize version [scoredCase true, scoredCase true] noon
  let torn := row.overwrite both (row.overwrite one row)
  let c : EvalSystem ℕ ℚ Unit := ⟨s bothCases row events [], fun _ ↦ .idle⟩
  have h0 : Steps SupportStep c c := .refl
  -- the version passes both cases this time
  have h1 := Steps.thread h0 0 (hstep (.startEvaluate 1 []))
  have h2 := Steps.thread h1 0 (hstep (.evaluate (.load hversion)))
  have h3 := Steps.thread h2 0 (hstep (.evaluate (.start (hsuite bothCases row _))))
  have h4 := Steps.thread h3 0 (hstep (.evaluate (.answer (by decide) (scoredCase true))))
  have h5 := Steps.thread h4 0 (hstep (.evaluate (.answer (by decide) (scoredCase true))))
  have h6 := Steps.thread h5 0 (hstep (.evaluate (.score noon rfl)))
  have h7 := Steps.thread h6 0 (hstep (.evaluate (hfind bothCases _ _)))
  -- the golden set is replaced, and the version passes its only case
  have h8 := Steps.thread h7 1 (hstep (hreplace _))
  have h9 := Steps.thread h8 1 (hstep (.startEvaluate 1 []))
  have h10 := Steps.thread h9 1 (hstep (.evaluate (.load hversion)))
  have h11 := Steps.thread h10 1 (hstep (.evaluate (.start (hsuite oneCase row _))))
  have h12 := Steps.thread h11 1 (hstep (.evaluate (.answer (by decide) (scoredCase true))))
  have h13 := Steps.thread h12 1 (hstep (.evaluate (.score noon rfl)))
  have h14 := Steps.thread h13 1 (hstep (.evaluate (hfind oneCase _ _)))
  -- both runs are written
  have h15 := Steps.thread h14 1 (hstep (.evaluate (hupdate rfl)))
  have h16 := Steps.thread h15 0 (hstep (.evaluate (hupdate rfl)))
  -- and the version is promoted
  have hsupport (suite : GoldenSuite Unit) (row : EvalSummary ℚ)
      (events : List (EvalEvent ℚ Unit)) : (s suite row events []).suite support ≠ none := by
    simp [s, EvalStore.suite]
  have h17 := h16.trans (promote_first
    (fun h hsame _ _ ↦ .of_suites h hsame (hsupport oneCase torn _)) 2 rfl rfl hversion hslot
    (hfound oneCase torn _ [] hrow))
  have hcounts : torn.nCases = 1 ∧ torn.nPassed = 2 := by
    simp [torn, EvalSummary.overwrite, both, one, summarize, scoredCase, hcases, hpassed]
  exact ⟨c, _, torn, hσ, hsupport bothCases row _, ⟨rfl, fun _ ↦ .of_none rfl⟩, h17, rfl,
    hfound oneCase torn _ _ hrow, by omega⟩

end WiseTraceLoom
