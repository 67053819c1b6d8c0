import WiseTraceLoom.Lib.Quantile
import WiseTraceLoom.Prompts.FailClosed

/-!
# The 95th percentile

The gate in front of `production` compares one latency of each version, `_p95` of those that were
measured.  `p95_nearestRank` says which one that is: the only one that at least 95% of the values
do not exceed and less than 95% are below.  It depends neither on the order of the values nor on
how ties are broken, and it does not get smaller when values get larger.

So the order of the cases makes no difference to a summary (`summarize_perm`).  And the latency in a
row is always the percentile of the answers to *all* cases of a run of the version
(`stored_p95Latency`), even where the row has been put together from two runs.
-/

set_option autoImplicit false

namespace WiseTraceLoom

open Quantile Interleaving

section Values

variable {K : Type} [LinearOrder K] [Zero K] {values values' : List K}

/-- `max(0, math.ceil(0.95 * n) - 1)`. -/
theorem p95_position (n : ℕ) :
    (((19 * n + 19) / 20 - 1 : ℕ) : ℤ) = max 0 (⌈(95 / 100 : ℚ) * n⌉ - 1) := by
  have hceil : ⌈(95 / 100 : ℚ) * n⌉ = ((19 * n + 19) / 20 : ℕ) := by
    refine eq_of_forall_ge_iff fun m ↦ ?_
    have hle : (95 / 100 : ℚ) * n ≤ m ↔ 19 * (n : ℤ) ≤ 20 * m := by
      rw [← Int.cast_le (R := ℚ)]
      push_cast
      constructor <;> intro h <;> linarith
    rw [Int.ceil_le, hle]
    omega
  rw [hceil]
  omega

theorem rank_p95 (n : ℕ) : rank (95 / 100) n = (19 * n + 19) / 20 - 1 :=
  Int.ofNat_inj.mp ((rank_cast (by norm_num) n).trans (p95_position n).symm)

/-- `_p95` finds the percentile in the sorted list. -/
theorem isQuantile_p95 (h : values ≠ []) : IsQuantile (95 / 100) values (p95 values) := by
  refine isQuantile_of_getElem? (by norm_num) ?_
  have hlength : (values.insertionSort (· ≤ ·)).length = values.length :=
    List.length_insertionSort _ _
  have hrank : rank (95 / 100) values.length < values.length :=
    rank_lt (by norm_num) (List.length_pos_iff.mpr h)
  have hclamp : min (rank (95 / 100) values.length) (values.length - 1) =
      rank (95 / 100) values.length := by omega
  rw [p95, hlength, ← rank_p95, hclamp, List.getElem?_eq_getElem (hlength.symm ▸ hrank),
    Option.getD_some]

theorem p95_perm (hperm : values.Perm values') : p95 values' = p95 values := by
  by_cases h : values = []
  · rw [h] at hperm ⊢
    rw [hperm.symm.eq_nil]
  · have h' : values' ≠ [] := fun hnil ↦ h (hnil ▸ hperm).eq_nil
    exact (isQuantile_p95 h').unique ((isQuantile_p95 h).perm hperm)

theorem p95_le (hle : List.Forall₂ (· ≤ ·) values values') : p95 values ≤ p95 values' := by
  by_cases h : values = []
  · rw [h] at hle ⊢
    cases hle
    exact le_rfl
  · have h' : values' ≠ [] := fun hnil ↦ h (List.forall₂_nil_right_iff.mp (hnil ▸ hle))
    exact (isQuantile_p95 h).le_of_forall₂ (isQuantile_p95 h') hle

/-- **The 95th percentile by nearest rank**: of a list of values that is not empty, `_p95` gives the
only one that at least 95% do not exceed and less than 95% are below; a rearrangement of the list
has the same one, and it does not get smaller when values get larger. -/
theorem p95_nearestRank (h : values ≠ []) :
    (∀ r, IsQuantile (95 / 100) values r ↔ r = p95 values) ∧
      (∀ values', values.Perm values' → p95 values' = p95 values) ∧
      ∀ values', List.Forall₂ (· ≤ ·) values values' → p95 values ≤ p95 values' :=
  have hp95 : IsQuantile (95 / 100) values (p95 values) := isQuantile_p95 h
  ⟨fun _ ↦ ⟨fun hr ↦ hr.unique hp95, fun hr ↦ hr ▸ hp95⟩, fun _ ↦ p95_perm, fun _ ↦ p95_le⟩

/-- Twenty latencies, the largest first. -/
def twentyLatencies : List ℕ := (List.range' 1 20).reverse

/-- Of twenty latencies it is the second largest. -/
theorem p95_twentyLatencies : p95 twentyLatencies = 19 :=
  have hvalues : twentyLatencies ≠ [] := by decide
  ((p95_nearestRank hvalues).1 19 |>.mp (by decide +kernel)).symm

end Values

/-! ## Summaries -/

variable {ι : Type} [DecidableEq ι] {K ρ : Type} [LinearOrder K] {u : Unicode}
  {σ σ' : EvalStore K ρ} {events events' : List (EvalEvent K ρ)} {summary row : EvalSummary K}

section

variable [Field K]

/-- **The order of the results does not matter.** -/
theorem summarize_perm (version : PromptVersion) {results results' : List (EvalCaseResult K)}
    (h : results.Perm results') (now : Timestamp) :
    summarize version results' now = summarize version results now := by
  rw [summarize, summarize, h.length_eq, h.countP_eq, (h.map _).sum_eq, p95_perm (h.map _)]

/-- **Slower results do not make a better summary.** -/
theorem summarize_p95Latency_le (version : PromptVersion)
    {results results' : List (EvalCaseResult K)}
    (h : List.Forall₂ (fun r r' ↦ r.latencyMs ≤ r'.latencyMs) results results') (now : Timestamp) :
    (summarize version results now).p95LatencyMs ≤ (summarize version results' now).p95LatencyMs :=
  p95_le (List.forall₂_map_left_iff.mpr (List.forall₂_map_right_iff.mpr h))

end

/-- The latency of a summary is the percentile of a run of the version that is over. -/
def MeasuredBy (events : List (EvalEvent K ρ)) (summary : EvalSummary K) : Prop :=
  ∃ version suite results, .finished version suite results ∈ events ∧
    version.id = summary.promptVersionId ∧ results.length = suite.cases.length ∧
    IsQuantile (95 / 100) (results.map EvalCaseResult.latencyMs) summary.p95LatencyMs

theorem MeasuredBy.mono (h : MeasuredBy events summary) (hsub : events ⊆ events') :
    MeasuredBy events' summary := by
  obtain ⟨version, suite, results, hfinished, hrest⟩ := h
  exact ⟨version, suite, results, hsub hfinished, hrest⟩

theorem MeasuredBy.congr (h : MeasuredBy events summary)
    (hid : row.promptVersionId = summary.promptVersionId)
    (hlatency : row.p95LatencyMs = summary.p95LatencyMs) : MeasuredBy events row := by
  rw [MeasuredBy, hid, hlatency]
  exact h

/-- What a call knows of the latency it is about to store. -/
def GoldenEval.Timed (events : List (EvalEvent K ρ)) : GoldenEval K ρ → Prop
  | .scored summary => MeasuredBy events summary
  | .absent summary => MeasuredBy events summary
  | .found summary existing => MeasuredBy events summary ∧
    existing.promptVersionId = summary.promptVersionId
  | _ => True

/-- The same, for every call. -/
def PromptsCall.Timed (events : List (EvalEvent K ρ)) : PromptsCall K ρ → Prop
  | .detect _ _ e => e.Timed events
  | .evaluate e => e.Timed events
  | _ => True

/-- All rows are measured. -/
def EvalStore.Timed (σ : EvalStore K ρ) : Prop :=
  ∀ row ∈ σ.prompts.summaries, MeasuredBy σ.events row

theorem PromptsCall.Timed.mono {c : PromptsCall K ρ} (h : c.Timed events)
    (hsub : events ⊆ events') : c.Timed events' := by
  have heval {e : GoldenEval K ρ} (he : e.Timed events) : e.Timed events' := by
    cases e with
    | scored summary => exact MeasuredBy.mono he hsub
    | absent summary => exact MeasuredBy.mono he hsub
    | found summary existing => exact ⟨he.1.mono hsub, he.2⟩
    | _ => trivial
  cases c with
  | detect a row e => exact heval h
  | evaluate e => exact heval h
  | _ => trivial

/-- Nothing happens to the summaries. -/
theorem EvalStore.Timed.frame (h : σ.Timed) (hevents : σ.events ⊆ σ'.events)
    (hsummaries : σ'.prompts.summaries = σ.prompts.summaries) : σ'.Timed :=
  fun row hrow ↦ (h row (hsummaries ▸ hrow)).mono hevents

/-! ## Runs -/

variable [Field K]

/-- A golden set has a case, and so a run of it has a percentile. -/
theorem measuredBy_summarize {version : PromptVersion} {suite : GoldenSuite ρ}
    {results : List (EvalCaseResult K)} (hlength : results.length = suite.cases.length)
    (now : Timestamp) (h : .finished version suite results ∈ events) :
    MeasuredBy events (summarize version results now) := by
  refine ⟨version, suite, results, h, rfl, hlength, isQuantile_p95 fun hnil ↦ suite.nonempty ?_⟩
  rw [← List.length_eq_zero_iff, ← hlength, List.map_eq_nil_iff.mp hnil, List.length_nil]

/-- **One step of a run of a golden set.** -/
theorem EvalStep.timed {e e' : GoldenEval K ρ} (h : EvalStep σ e σ' e') (hσ : σ.Timed)
    (he : e.Timed σ.events) : σ.events ⊆ σ'.events ∧ σ'.Timed ∧ e'.Timed σ'.events := by
  have hnote (st : PromptStore K) (event : EvalEvent K ρ) :
      σ.events ⊆ (({ σ with prompts := st } : EvalStore K ρ).note event).events :=
    List.subset_append_left _ _
  cases h with
  | start h => exact ⟨hnote _ _, hσ.frame (hnote _ _) rfl, trivial⟩
  | @score version t suite results now hlength =>
    exact ⟨hnote _ _, hσ.frame (hnote _ _) rfl,
      measuredBy_summarize hlength now (List.mem_append_right _ (List.mem_singleton_self _))⟩
  | findNone => exact ⟨List.Subset.refl _, hσ, he⟩
  | find hfind => exact ⟨List.Subset.refl _, hσ, he, (PromptStore.evalSummary_mem hfind).2⟩
  | @insert summary st' hins =>
    rw [PromptStore.insertSummary] at hins
    split_ifs at hins
    obtain rfl := Option.some.inj hins
    refine ⟨hnote _ _, fun row hrow ↦ ?_, trivial⟩
    rcases List.mem_append.mp hrow with hrow | hrow
    · exact (hσ row hrow).mono (hnote _ _)
    · rw [List.mem_singleton.mp hrow]
      exact MeasuredBy.mono he (hnote _ _)
  | @update summary existing =>
    obtain ⟨hmeasured, hid⟩ := he
    refine ⟨hnote _ _, fun row hrow ↦ ?_, trivial⟩
    obtain ⟨old, hold, rfl⟩ := List.mem_map.mp hrow
    refine MeasuredBy.mono ?_ (hnote _ _)
    split_ifs with hrowid
    · -- the column is that of the summary, or it is left as it is
      by_cases hsame : existing.p95LatencyMs = summary.p95LatencyMs
      · exact (hσ old hold).congr rfl (if_pos hsame)
      · exact hmeasured.congr (hrowid.trans hid) (if_neg hsame)
    · exact hσ old hold
  | _ => exact ⟨List.Subset.refl _, hσ, trivial⟩

/-- **One step of any call.** -/
theorem PromptsStep.timed {t t' : PromptsCall K ρ} (h : PromptsStep u σ t σ' t') (hσ : σ.Timed)
    (ht : t.Timed σ.events) : σ.events ⊆ σ'.events ∧ σ'.Timed ∧ t'.Timed σ'.events := by
  have hframe {st : PromptStore K} (hst : st.summaries = σ.prompts.summaries) :
      ({ σ with prompts := st } : EvalStore K ρ).Timed := hσ.frame (List.Subset.refl _) hst
  cases h with
  | setGoldenSet s cases runner =>
    have hevents := (setGoldenSet_events s cases runner σ).subset
    exact ⟨hevents, hσ.frame hevents (by rw [setGoldenSet_prompts]), trivial⟩
  | clearGoldenSet name =>
    have hevents : σ.events ⊆ (WiseTraceLoom.clearGoldenSet name σ).events := by
      rw [clearGoldenSet_events]
      exact List.Subset.refl _
    exact ⟨hevents, hσ.frame hevents (by rw [clearGoldenSet_prompts]), trivial⟩
  | setAlias h => exact ⟨List.Subset.refl _, hframe h.grows.summaries, trivial⟩
  | clearAlias h => exact ⟨List.Subset.refl _, hframe h.summaries, trivial⟩
  | register h hc => exact ⟨List.Subset.refl _, hframe (h.summaries hc), trivial⟩
  | detecting h => exact h.timed hσ ht
  | evaluate h => exact h.timed hσ ht
  | _ => exact ⟨List.Subset.refl _, hσ, trivial⟩

theorem timed_relyGuarantee :
    RelyGuarantee (ι := ι) (PromptsStep u (K := K) (ρ := ρ)) (fun _ ↦ True)
      (fun σ σ' ↦ σ.events ⊆ σ'.events) EvalStore.Timed (fun σ t ↦ t.Timed σ.events) where
  step _ _ _ _ _ _ hσ ht hstep := hstep.timed hσ ht
  stable _ _ _ hevents ht := ht.mono hevents

/-- **What the gate compares**: after any run, the latency in a row is the percentile of what was
measured for all cases in one run of its version. -/
theorem stored_p95Latency {thresholds : RegressionThresholds K} {c : EvalSystem ι K ρ}
    (h : Steps (PromptsStep u) (EvalSystem.init ι ρ thresholds) c) :
    ∀ row ∈ c.shared.prompts.summaries, MeasuredBy c.shared.events row :=
  (timed_relyGuarantee.steps h (fun _ _ ↦ trivial) nofun fun _ ↦ trivial).1

end WiseTraceLoom
