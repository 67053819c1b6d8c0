import Mathlib.Algebra.Order.Field.Rat
import Mathlib.Tactic.NormNum
import WiseTraceLoom.Lib.Interleaving
import WiseTraceLoom.Prompts.Alias

/-!
# Is every promotion a gated one?

Any number of threads set aliases.  The gate compares the new version with the one that
`production` names when the gate looks, and the pointer is moved later, over whatever it names by
then.  Two promotions that race can therefore each pass the gate against the same version, and the
second one replaces the first ungated (`promotion_race`).

What does hold is `promotion_gated`: in a run in which every call that is about to move a pointer
still finds it as its gate has seen it, every change of `production` has passed the gate.  The
condition is `AliasCall.Undisturbed`; the invariant is that a call that is past the gate knows that
its version passes against the version seen.
-/

set_option autoImplicit false

namespace WiseTraceLoom

open Interleaving

variable {ι : Type} [DecidableEq ι] {K : Type} {u : Unicode} {g : EvalGate K}
  {st st' : PromptStore K}

/-! ## The system -/

/-- What a thread is doing. -/
inductive PromptCall (K : Type) where
  | idle
  | setAlias (c : AliasCall K)

/-- One step of one thread. -/
inductive PromptStep [LinearOrder K] [Zero K] [Sub K] [Div K] (u : Unicode) (g : EvalGate K) :
    PromptStore K → PromptCall K → PromptStore K → PromptCall K → Prop
  | start {st : PromptStore K} (slotName name : Str) (versionId : ℤ) :
      PromptStep u g st .idle st (.setAlias (.called slotName name versionId))
  /-- The call has ended, or the thread was killed in the middle of it. -/
  | stop {st : PromptStore K} {c : PromptCall K} : PromptStep u g st c st .idle
  | setAlias {st st' : PromptStore K} {c c' : AliasCall K} (h : AliasStep u g st c st' c') :
      PromptStep u g st (.setAlias c) st' (.setAlias c')

/-- The tables, and what every thread is doing. -/
abbrev PromptSystem (ι K : Type) := Config ι (PromptStore K) (PromptCall K)

/-- What the database enforces on the aliases. -/
structure PromptStore.AliasesOk (st : PromptStore K) : Prop where
  /-- The primary keys are unique. -/
  ids : (st.aliases.map PromptAlias.id).Nodup
  /-- A slot has one alias of a name. -/
  unique : (st.aliases.map fun r ↦ (r.slotName, r.aliasName)).Nodup

/-! ## What the updates can do to the tables -/

/-- What may happen to the tables while a thread is not looking. -/
structure PromptStore.Grows (st st' : PromptStore K) : Prop where
  /-- The evaluations stay as they are. -/
  summaries : st'.summaries = st.summaries
  /-- A row of an alias stays the row of this alias. -/
  aliases : Grown (fun r r' : PromptAlias ↦ r'.id = r.id ∧ r'.slotName = r.slotName ∧
    r'.aliasName = r.aliasName) st.aliases st'.aliases

theorem PromptStore.Grows.refl (st : PromptStore K) : st.Grows st :=
  ⟨rfl, .refl (fun _ ↦ ⟨rfl, rfl, rfl⟩) _⟩

/-- A row that was looked up is the row of its alias. -/
theorem PromptStore.promptAlias_mem {s n : Str} {row : PromptAlias}
    (h : st.promptAlias s n = some row) :
    ∃ r ∈ st.aliases, r.id = row.id ∧ r.slotName = s ∧ r.aliasName = n := by
  have hmatch := List.find?_some h
  simp only [Bool.decide_and, Bool.and_eq_true, decide_eq_true_eq] at hmatch
  exact ⟨row, List.mem_of_find?_eq_some h, rfl, hmatch⟩

theorem PromptStore.insertAlias_eq_some {row : PromptAlias}
    (h : st.insertAlias row = some st') : st.promptAlias row.slotName row.aliasName = none ∧
      st' = { st with aliases := st.aliases ++ [row] } := by
  rw [insertAlias] at h
  split_ifs at h with htaken
  exact ⟨by simpa using htaken, (Option.some.inj h).symm⟩

theorem PromptStore.updateAlias_eq_some {row : PromptAlias} {v : ℤ} {now : Timestamp}
    (h : st.updateAlias row v now = some st') :
    st' = { st with aliases := st.aliases.map fun r ↦
      if r.id = row.id then row.move v now r else r } := by
  rw [updateAlias] at h
  split_ifs at h
  exact (Option.some.inj h).symm

/-- An update moves the row that was loaded and leaves every other where it is. -/
theorem PromptStore.promptAlias_updateAlias {row : PromptAlias} {c : ℤ} {now : Timestamp}
    (hup : st.updateAlias row c now = some st') (s n : Str) :
    st'.promptAlias s n =
      (st.promptAlias s n).map fun r ↦ if r.id = row.id then row.move c now r else r := by
  have hsame : ((fun r : PromptAlias ↦ decide (r.slotName = s ∧ r.aliasName = n)) ∘ fun r ↦
      if r.id = row.id then row.move c now r else r) =
      fun r ↦ decide (r.slotName = s ∧ r.aliasName = n) := by
    funext r
    simp only [Function.comp_apply]
    split_ifs <;> rfl
  rw [PromptStore.updateAlias_eq_some hup, PromptStore.promptAlias, List.find?_map, hsame]
  rfl

theorem PromptStore.AliasesOk.insert (h : st.AliasesOk) {s n : Str} {v : ℤ} {now : Timestamp}
    (hins : st.insertAlias (st.newAlias s n v now) = some st') : st'.AliasesOk := by
  obtain ⟨hfree, rfl⟩ := PromptStore.insertAlias_eq_some hins
  constructor
  · exact nodup_map_concat h.ids fun r hr ↦ (lt_nextId (List.mem_map_of_mem hr)).ne
  · refine nodup_map_concat h.unique fun r hr hkey ↦ ?_
    rw [Prod.mk.injEq] at hkey
    exact List.find?_eq_none.mp hfree r hr (by simp [hkey])

theorem PromptStore.AliasesOk.update (h : st.AliasesOk) {row : PromptAlias} {v : ℤ}
    {now : Timestamp} (hup : st.updateAlias row v now = some st') : st'.AliasesOk := by
  rw [PromptStore.updateAlias_eq_some hup]
  have hsame {β : Type} (f : PromptAlias → β)
      (hf : ∀ r, f (row.move v now r) = f r) : (st.aliases.map fun r ↦
        if r.id = row.id then row.move v now r else r).map f = st.aliases.map f := by
    rw [List.map_map]
    refine List.map_congr_left fun r _ ↦ ?_
    simp only [Function.comp_apply]
    split_ifs
    · exact hf r
    · rfl
  constructor
  · rw [hsame PromptAlias.id fun _ ↦ rfl]
    exact h.ids
  · rw [hsame (fun r ↦ (r.slotName, r.aliasName)) fun _ ↦ rfl]
    exact h.unique

section

variable [LinearOrder K] [Zero K] [Sub K] [Div K]

/-! ## The gate -/

/-- What the thresholds ask of a new version: the relative increases only if the value of the
current version is not 0. -/
structure EvalGate.Passes (g : EvalGate K) (baseline candidate : EvalSummary K) : Prop where
  /-- The pass rate has not dropped too much. -/
  passRate : baseline.passRate - candidate.passRate ≤ g.thresholds.passRateMaxDrop
  /-- The cost has not increased too much. -/
  cost : baseline.meanCostUsd ≠ 0 →
    (candidate.meanCostUsd - baseline.meanCostUsd) / baseline.meanCostUsd ≤
      g.thresholds.costMaxIncrease
  /-- The latency has not increased too much. -/
  p95Latency : baseline.p95LatencyMs ≠ 0 →
    (candidate.p95LatencyMs - baseline.p95LatencyMs) / baseline.p95LatencyMs ≤
      g.thresholds.p95LatencyMaxIncrease

/-- The cost and the latency of a version are not negative. -/
structure EvalSummary.Measured (s : EvalSummary K) : Prop where
  /-- The cost. -/
  cost : 0 ≤ s.meanCostUsd
  /-- The latency. -/
  p95Latency : 0 ≤ s.p95LatencyMs

theorem relativeIncrease_eq_nil {metric : GateMetric} {limit baseline candidate : K}
    (h : relativeIncrease metric limit baseline candidate = []) (hpos : 0 ≤ baseline)
    (hne : baseline ≠ 0) : (candidate - baseline) / baseline ≤ limit := by
  rw [relativeIncrease] at h
  split_ifs at h with hbad
  exact not_lt.mp fun hlt ↦ hbad ⟨lt_of_le_of_ne hpos hne.symm, hlt⟩

/-- No failures means that the thresholds are met. -/
theorem EvalGate.passes_of_failures {baseline candidate : EvalSummary K}
    (h : g.failures baseline candidate = []) (hbaseline : baseline.Measured) :
    g.Passes baseline candidate := by
  rw [EvalGate.failures, List.append_eq_nil_iff, List.append_eq_nil_iff] at h
  obtain ⟨⟨hrate, hcost⟩, hlatency⟩ := h
  split_ifs at hrate with hdrop
  exact ⟨not_lt.mp hdrop, relativeIncrease_eq_nil hcost hbaseline.cost,
    relativeIncrease_eq_nil hlatency hbaseline.p95Latency⟩

/-- **What the gate has checked** when it lets a version pass: the version against the one that
`production` names. -/
theorem failures_eq_nil {slotName : Str} {v p : ℤ} {baseline candidate : EvalSummary K}
    (h : assertProductionPromotionAllowed u g st slotName v = .ok ()) (hslot : slotName ∈ g.suites)
    (hp : st.pointer slotName production = some p) (hne : p ≠ v)
    (hbaseline : st.evalSummary p = some baseline)
    (hcandidate : st.evalSummary v = some candidate) :
    g.failures baseline candidate = [] := by
  obtain ⟨row, hrow, rfl⟩ := Option.map_eq_some_iff.mp hp
  have hnil : production ≠ [] := by decide
  rw [assertProductionPromotionAllowed, if_neg (not_not.mpr hslot), hcandidate] at h
  simp only [resolvePromptAlias, normalizeAlias_production, if_neg hnil, hrow] at h
  cases hversion : st.version row.promptVersionId with
  | none => simp [hversion] at h
  | some current =>
    have hid : current.id = row.promptVersionId := by simpa using List.find?_some hversion
    simp only [hversion, hid, if_neg hne, hbaseline] at h
    cases hfailures : g.failures baseline candidate with
    | nil => rfl
    | cons f fs => simp [hfailures] at h

/-! ## What a step can do to the pointers -/

/-- **What a step of a call can do**: nothing, insert a row for an alias that has none, or move the
alias of a row it has loaded. -/
theorem AliasStep.effect {c c' : AliasCall K} (h : AliasStep u g st c st' c') :
    st' = st ∨
      (∃ a seen now, c = .absent a seen ∧
        st.insertAlias (st.newAlias a.slotName a.aliasName a.versionId now) = some st') ∨
      ∃ a seen row now, c = .found a seen row ∧ c' = .written row.id ∧
        st.updateAlias row a.versionId now = some st' := by
  cases h
  case insert a seen now h => exact Or.inr (Or.inl ⟨a, seen, now, rfl, h⟩)
  case update a seen row now h => exact Or.inr (Or.inr ⟨a, seen, row, now, rfl, rfl, h⟩)
  all_goals exact Or.inl rfl

theorem AliasStep.grows {c c' : AliasCall K} (h : AliasStep u g st c st' c') : st.Grows st' := by
  rcases h.effect with rfl | ⟨a, seen, now, rfl, hins⟩ | ⟨a, seen, row, now, rfl, rfl, hup⟩
  · exact .refl _
  · obtain ⟨-, rfl⟩ := PromptStore.insertAlias_eq_some hins
    exact ⟨rfl, .append (fun _ ↦ ⟨rfl, rfl, rfl⟩) _ _⟩
  · rw [PromptStore.updateAlias_eq_some hup]
    refine ⟨rfl, .map fun r _ ↦ ?_⟩
    split_ifs <;> exact ⟨rfl, rfl, rfl⟩

theorem AliasStep.aliasesOk {c c' : AliasCall K} (h : AliasStep u g st c st' c')
    (hst : st.AliasesOk) : st'.AliasesOk := by
  rcases h.effect with rfl | ⟨a, seen, now, rfl, hins⟩ | ⟨a, seen, row, now, rfl, rfl, hup⟩
  · exact hst
  · exact hst.insert hins
  · exact hst.update hup

/-- **What moves a pointer**: the update of the row of this alias, to the version of the call. -/
theorem AliasStep.pointer {c c' : AliasCall K} (h : AliasStep u g st c st' c') {s n : Str} {p v : ℤ}
    (hp : st.pointer s n = some p) (hv : st'.pointer s n = some v) (hne : p ≠ v) :
    ∃ a seen row, c = .found a seen row ∧ c' = .written row.id ∧ v = a.versionId ∧
      row.promptVersionId ≠ a.versionId ∧ ∃ r ∈ st.aliases, r.id = row.id ∧ r.slotName = s ∧
        r.aliasName = n := by
  obtain ⟨r, hr, rfl⟩ := Option.map_eq_some_iff.mp hp
  rcases h.effect with rfl | ⟨a, seen, now, rfl, hins⟩ | ⟨a, seen, row, now, rfl, rfl, hup⟩
  · rw [hp] at hv
    exact absurd (Option.some.inj hv) hne
  · obtain ⟨-, rfl⟩ := PromptStore.insertAlias_eq_some hins
    rw [PromptStore.promptAlias] at hr
    rw [PromptStore.pointer, PromptStore.promptAlias, List.find?_append, hr] at hv
    exact absurd (Option.some.inj hv) hne
  · have hfind := PromptStore.promptAlias_updateAlias hup s n
    rw [hr, Option.map_some] at hfind
    rw [PromptStore.pointer, hfind, Option.map_some, Option.some.injEq] at hv
    split_ifs at hv with hid
    · rw [PromptAlias.move] at hv
      dsimp only at hv
      split_ifs at hv with hsame
      · exact absurd hv hne
      · obtain ⟨r', hmem, hid', halias⟩ := PromptStore.promptAlias_mem hr
        exact ⟨a, seen, row, rfl, rfl, hv.symm, hsame, r', hmem, hid'.trans hid, halias⟩
    · exact absurd hv hne

/-! ## What a call knows past the gate -/

/-- The new version of a gated promotion has passed against the version seen. -/
def EvalGate.Admits (g : EvalGate K) (st : PromptStore K) (a : AliasArgs) (seen : Option ℤ) :
    Prop :=
  a.aliasName = production → a.slotName ∈ g.suites → ∀ p baseline candidate, seen = some p →
    p ≠ a.versionId → st.evalSummary p = some baseline →
    st.evalSummary a.versionId = some candidate → g.failures baseline candidate = []

/-- What a call knows: past the gate, that its version is admitted, and when it has loaded a row,
that this is the row of its alias. -/
def PromptCall.GateOk (g : EvalGate K) (st : PromptStore K) : PromptCall K → Prop
  | .setAlias (.gated a seen) => g.Admits st a seen
  | .setAlias (.absent a seen) => g.Admits st a seen
  | .setAlias (.conflicted a seen) => g.Admits st a seen
  | .setAlias (.found a seen row) => g.Admits st a seen ∧
      ∃ r ∈ st.aliases, r.id = row.id ∧ r.slotName = a.slotName ∧ r.aliasName = a.aliasName
  | _ => True

theorem EvalGate.Admits.mono {a : AliasArgs} {seen : Option ℤ} (h : g.Admits st a seen)
    (hst : st.Grows st') : g.Admits st' a seen := by
  intro ha hslot p baseline candidate
  rw [PromptStore.evalSummary, PromptStore.evalSummary, hst.summaries]
  exact h ha hslot p baseline candidate

theorem PromptCall.GateOk.mono {c : PromptCall K} (hc : c.GateOk g st) (hst : st.Grows st') :
    c.GateOk g st' := by
  match c, hc with
  | .setAlias (.gated a seen), hc => exact EvalGate.Admits.mono hc hst
  | .setAlias (.absent a seen), hc => exact EvalGate.Admits.mono hc hst
  | .setAlias (.conflicted a seen), hc => exact EvalGate.Admits.mono hc hst
  | .setAlias (.found a seen row), hc =>
    obtain ⟨hadmits, r, hr, hid, hslot, hname⟩ := hc
    obtain ⟨r', hr', hid', hslot', hname'⟩ := hst.aliases.exists_mem hr
    exact ⟨hadmits.mono hst, r', hr', hid'.trans hid, hslot'.trans hslot, hname'.trans hname⟩
  | .idle, _ | .setAlias (.called _ _ _), _ | .setAlias (.checked _), _ => trivial
  | .setAlias (.written _), _ | .setAlias (.returned _), _ | .setAlias (.raised _), _ => trivial

/-- **One step of a call.** -/
theorem AliasStep.gateOk {c c' : AliasCall K} (h : AliasStep u g st c st' c')
    (hc : (PromptCall.setAlias c).GateOk g st) : (PromptCall.setAlias c').GateOk g st' := by
  have hgrows := h.grows
  cases h with
  | allow h =>
    intro ha hslot p baseline candidate hseen hne hbaseline hcandidate
    rw [ha] at hseen
    exact failures_eq_nil (h ha) hslot hseen hne hbaseline hcandidate
  | find h => exact ⟨hc, PromptStore.promptAlias_mem h⟩
  | findNone => exact hc
  | integrityError => exact hc
  | reload h => exact ⟨hc, PromptStore.promptAlias_mem h⟩
  | _ => trivial

/-- **The premises of the rely–guarantee rule.** -/
theorem gate_relyGuarantee (g : EvalGate K) :
    RelyGuarantee (ι := ι) (PromptStep u g) (fun _ ↦ True) PromptStore.Grows PromptStore.AliasesOk
      (PromptCall.GateOk g) where
  step := by
    intro c i st' t' _ _ hst hc hstep
    generalize c.locals i = t at *
    cases hstep with
    | setAlias h => exact ⟨h.grows, h.aliasesOk hst, h.gateOk hc⟩
    | _ => exact ⟨.refl _, hst, trivial⟩
  stable := fun _ _ _ hgrows hc ↦ hc.mono hgrows

/-! ## Promotions -/

/-- A call that is about to move `production` where it is gated: it still names the version that the
gate has seen, or already the new one, and the measurements of the version seen are not negative. -/
def AliasCall.Undisturbed (g : EvalGate K) (st : PromptStore K) : AliasCall K → Prop
  | .found a seen row => a.aliasName = production → a.slotName ∈ g.suites →
      row.promptVersionId ≠ a.versionId →
      (st.pointer a.slotName production = seen ∨
        st.pointer a.slotName production = some a.versionId) ∧
      ∀ p s, seen = some p → st.evalSummary p = some s → s.Measured
  | _ => True

/-- A step that moves no pointer under a call's hands. -/
def GuardedStep (u : Unicode) (g : EvalGate K) (st : PromptStore K) (t : PromptCall K)
    (st' : PromptStore K) (t' : PromptCall K) : Prop :=
  PromptStep u g st t st' t' ∧
    ∀ c id, t = .setAlias c → t' = .setAlias (.written id) → c.Undisturbed g st

/-- **Every promotion is gated** in a run in which no call finds the pointer moved under its hands:
every change of `production`, in a slot with a golden set, from one evaluated version to another one
keeps within the thresholds. -/
theorem promotion_gated {c : PromptSystem ι K} (hok : c.shared.AliasesOk)
    (hidle : ∀ i, c.locals i = .idle) {d e : PromptSystem ι K} (hrun : Steps (GuardedStep u g) c d)
    {i : ι} (hstep : StepOf (GuardedStep u g) i d e) {slotName : Str} (hslot : slotName ∈ g.suites)
    {p v : ℤ} (hp : d.shared.pointer slotName production = some p)
    (hv : e.shared.pointer slotName production = some v) (hne : p ≠ v)
    {baseline candidate : EvalSummary K} (hbaseline : e.shared.evalSummary p = some baseline)
    (hcandidate : e.shared.evalSummary v = some candidate) : g.Passes baseline candidate := by
  have hruns : Steps (PromptStep u g) c d := Steps.mono (fun _ _ _ _ h ↦ h.1) hrun
  obtain ⟨hst, hlocals⟩ := (gate_relyGuarantee g).steps hruns (fun _ _ ↦ trivial) hok
    fun j ↦ by rw [hidle j]; trivial
  obtain ⟨st', t', ⟨hstep, hguard⟩, rfl⟩ := hstep
  have hcall := hlocals i
  rw [Config.set_shared] at hv hbaseline hcandidate
  generalize d.locals i = t at *
  cases hstep with
  | setAlias h =>
    rw [PromptStore.evalSummary, h.grows.summaries] at hbaseline hcandidate
    obtain ⟨a, seen, row, rfl, rfl, rfl, hmoved, r, hr, hid, hs, hn⟩ := h.pointer hp hv hne
    obtain ⟨hadmits, r', hr', hid', hs', hn'⟩ := hcall
    have hrow : r = r' := List.inj_on_of_nodup_map hst.ids hr hr' (hid.trans hid'.symm)
    rw [hrow, hs'] at hs
    rw [hrow, hn'] at hn
    rw [← hs] at hp hslot
    obtain ⟨hseen, hmeasured⟩ := hguard _ _ rfl rfl hn hslot hmoved
    rw [hp] at hseen
    rcases hseen with hseen | hseen
    · exact EvalGate.passes_of_failures
        (hadmits hn hslot p baseline candidate hseen.symm hne hbaseline hcandidate)
        (hmeasured p baseline hseen.symm hbaseline)
    · exact absurd (Option.some.inj hseen) hne
  | _ =>
    rw [hp] at hv
    exact absurd (Option.some.inj hv) hne

end

/-! ### Two promotions

The golden set gives version 1 a pass rate of 1, version 2 a pass rate of 0 and version 3 one
of 99/100. -/

/-- A slot. -/
def support : Str := "support".toList

/-- A gate with the default thresholds. -/
def supportGate : EvalGate ℚ := ⟨[support], ⟨1 / 50, 3 / 20, 1 / 5⟩⟩

/-- A version of the slot. -/
def supportVersion (n : ℤ) : PromptVersion :=
  ⟨n, support, Text.ofInt n, n, Text.ofInt n, (utcnow noon).column⟩

/-- What was measured for a version. -/
def supportSummary (n : ℤ) (passed : ℤ) : EvalSummary ℚ :=
  ⟨n, support, 100, passed, passed / 100, 0, 0, (utcnow noon).column⟩

/-- The tables, with these aliases. -/
def supportStore (aliases : List PromptAlias) : PromptStore ℚ :=
  ⟨[supportVersion 1, supportVersion 2, supportVersion 3], aliases,
    [supportSummary 1 100, supportSummary 2 0, supportSummary 3 99]⟩

/-- The row of `production` when it names a version. -/
def supportAlias (n : ℤ) : PromptAlias := ⟨1, support, production, n, (utcnow noon).column⟩

/-- A promotion. -/
def promote (n : ℤ) : AliasArgs := ⟨support, production, n⟩

theorem check_promote {aliases : List PromptAlias} {n : ℤ}
    (h : (supportStore aliases).version n = some (supportVersion n)) :
    AliasStep .ascii supportGate (supportStore aliases) (.called support production n)
      (supportStore aliases) (.checked (promote n)) :=
  .check_normal (normalizeAlias_production _) (by decide) h rfl

/-- **Two promotions that race.**  Both pass the gate while `production` names nothing, the first
one is written, and the second one replaces it although its pass rate is 0 instead of 1. -/
theorem promotion_race : ∃ c d e : PromptSystem Bool ℚ, c.shared.AliasesOk ∧
    (∀ i, c.locals i = .idle) ∧ Steps (PromptStep .ascii supportGate) c d ∧
    StepOf (PromptStep .ascii supportGate) true d e ∧ support ∈ supportGate.suites ∧
    d.shared.pointer support production = some 1 ∧ e.shared.pointer support production = some 2 ∧
    e.shared.evalSummary 1 = some (supportSummary 1 100) ∧
    e.shared.evalSummary 2 = some (supportSummary 2 0) ∧
    ¬ supportGate.Passes (supportSummary 1 100) (supportSummary 2 0) := by
  let s₀ := supportStore []
  let s₁ := supportStore [supportAlias 1]
  let s₂ := supportStore [supportAlias 2]
  have hallow (n : ℤ)
      (h : assertProductionPromotionAllowed .ascii supportGate s₀ support n = .ok ()) :
      AliasStep .ascii supportGate s₀ (.checked (promote n)) s₀ (.gated (promote n) none) :=
    .allow fun _ ↦ h
  have hinsert : AliasStep .ascii supportGate s₀ (.absent (promote 1) none) s₁ (.written 1) :=
    .insert noon rfl
  have hfind : AliasStep .ascii supportGate s₁ (.gated (promote 2) none) s₁
      (.found (promote 2) none (supportAlias 1)) := .find rfl
  have hupdate : AliasStep .ascii supportGate s₁ (.found (promote 2) none (supportAlias 1)) s₂
      (.written 1) := .update noon rfl
  let c : PromptSystem Bool ℚ := ⟨s₀, fun _ ↦ .idle⟩
  have h0 : Steps (PromptStep .ascii supportGate) c c := .refl
  have h1 := Steps.thread h0 false (.start support production 1)
  have h2 := Steps.thread h1 true (.start support production 2)
  have h3 := Steps.thread h2 false (.setAlias (check_promote rfl))
  have h4 := Steps.thread h3 true (.setAlias (check_promote rfl))
  have h5 := Steps.thread h4 false (.setAlias (hallow 1 rfl))
  have h6 := Steps.thread h5 true (.setAlias (hallow 2 rfl))
  have h7 := Steps.thread h6 false (.setAlias (.findNone rfl))
  have h8 := Steps.thread h7 false (.setAlias hinsert)
  have h9 := Steps.thread h8 true (.setAlias hfind)
  refine ⟨c, _, _, ⟨by simp [c, s₀, supportStore], by simp [c, s₀, supportStore]⟩, fun _ ↦ rfl, h9,
    ⟨s₂, _, .setAlias hupdate, rfl⟩, by simp [supportGate], rfl, rfl, rfl, rfl, fun h ↦ ?_⟩
  have := h.passRate
  norm_num [supportGate, supportSummary] at this

/-- A single promotion is gated: version 3 replaces version 1. -/
theorem promotion_gated_alone : ∃ c d e : PromptSystem Unit ℚ, (∀ i, c.locals i = .idle) ∧
    Steps (GuardedStep .ascii supportGate) c d ∧ StepOf (GuardedStep .ascii supportGate) () d e ∧
    d.shared.pointer support production = some 1 ∧ e.shared.pointer support production = some 3 ∧
    supportGate.Passes (supportSummary 1 100) (supportSummary 3 99) := by
  let s₁ := supportStore [supportAlias 1]
  let s₃ := supportStore [supportAlias 3]
  have hgate : assertProductionPromotionAllowed .ascii supportGate s₁ support 3 = .ok () := by
    decide +kernel
  have hallow : AliasStep .ascii supportGate s₁ (.checked (promote 3)) s₁
      (.gated (promote 3) (some 1)) :=
    .allow fun _ ↦ hgate
  have hfind : AliasStep .ascii supportGate s₁ (.gated (promote 3) (some 1)) s₁
      (.found (promote 3) (some 1) (supportAlias 1)) := .find rfl
  have hupdate : AliasStep .ascii supportGate s₁ (.found (promote 3) (some 1) (supportAlias 1)) s₃
      (.written 1) := .update noon rfl
  have hmeasured : (supportSummary 1 100).Measured := ⟨le_rfl, le_rfl⟩
  let c : PromptSystem Unit ℚ := ⟨s₁, fun _ ↦ .idle⟩
  have hok : c.shared.AliasesOk :=
    ⟨by simp [c, s₁, supportStore], by simp [c, s₁, supportStore]⟩
  have h0 : Steps (GuardedStep .ascii supportGate) c c := .refl
  have h1 := Steps.thread h0 () ⟨.start support production 3, nofun⟩
  have h2 := Steps.thread h1 () ⟨.setAlias (check_promote rfl), nofun⟩
  have h3 := Steps.thread h2 () ⟨.setAlias hallow, nofun⟩
  have h4 := Steps.thread h3 () ⟨.setAlias hfind, nofun⟩
  let d := c.set () s₁ (.setAlias (.found (promote 3) (some 1) (supportAlias 1)))
  have hstep : StepOf (GuardedStep .ascii supportGate) () d
      (d.set () s₃ (.setAlias (.written 1))) := by
    refine ⟨s₃, _, ⟨.setAlias hupdate, ?_⟩, rfl⟩
    rintro _ _ ⟨⟩ - - - -
    refine ⟨Or.inl rfl, ?_⟩
    rintro p s ⟨⟩ ⟨⟩
    exact hmeasured
  have h5 : Steps (GuardedStep .ascii supportGate) c d := by simpa [d, Config.set] using h4
  have hp : d.shared.pointer support production = some 1 := rfl
  have hv : s₃.pointer support production = some 3 := rfl
  exact ⟨c, d, _, fun _ ↦ rfl, h5, hstep, hp, hv, promotion_gated hok (fun _ ↦ rfl) h5 hstep
    (List.mem_singleton_self support) hp hv (by decide) rfl rfl⟩

end WiseTraceLoom
