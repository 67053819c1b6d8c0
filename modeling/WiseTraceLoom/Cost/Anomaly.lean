import Mathlib.Algebra.Order.Field.Basic
import Mathlib.Tactic.Linarith
import WiseTraceLoom.Cost.Attribution
import WiseTraceLoom.Lib.Calendar

/-!
# The rolling baseline and its alerts

`getRollingBaseline` averages what a tenant has spent over the days before a day, and
`checkSpendAnomaly` warns if the day itself has gone past a multiple of that.  `llm_call` runs the
check after it has recorded its cost.  Amounts are exact, and in the runs that are looked at here no
statement and no check raises: `llm_call` would go on without a warning.

## What is here

* `rolling_baseline_recorded` — the baseline counts every recorded amount of the window once, and
  nothing else, whatever the order in which the calls came.
* `anomaly_noticed` — of the calls that race past the limit, at least one warns.
-/

set_option autoImplicit false

namespace WiseTraceLoom

open Calendar Interleaving

/-! ## The window -/

/-- `date.isoformat()`. -/
def isoDate (d : Date) : Str :=
  Text.zeroPad 4 d.year ++ '-' :: (Text.zeroPad 2 d.month ++ '-' :: Text.zeroPad 2 d.day)

theorem isoDate_injective : Function.Injective isoDate := by
  have hdash (w n : ℕ) : '-' ∉ Text.zeroPad w n := fun h ↦ by
    have hdigit := Text.isDigit_of_mem_leftpad h
    simp at hdigit
  intro d e h
  obtain ⟨hyear, hrest⟩ := Text.append_sep_inj (hdash 4 _) (hdash 4 _) h
  obtain ⟨hmonth, hday⟩ := Text.append_sep_inj (hdash 2 _) (hdash 2 _) hrest
  have hyear := Int.ofNat.inj (Text.zeroPad_injective 4 hyear)
  have hmonth := Int.ofNat.inj (Text.zeroPad_injective 2 hmonth)
  have hday := Int.ofNat.inj (Text.zeroPad_injective 2 hday)
  obtain ⟨y, m, n⟩ := d
  obtain ⟨y', m', n'⟩ := e
  simp_all

/-- The `window_days` days before a day, or none if there are not so many. -/
def windowDates (today : Date) (windowDays : ℤ) : Option (List Date) :=
  today.daysBefore windowDays.toNat

/-- The `OverflowError` of a date before year 1. -/
structure DateOverflow where
  deriving DecidableEq

/-- The row is that of a tenant on one of these days. -/
def TenantDailySpend.inWindow (tenantId : Str) (dates : List Date) (row : TenantDailySpend) :
    Bool := row.tenantId = tenantId ∧ (dates.map isoDate).contains row.spendDate

/-- `get_rolling_baseline`. -/
def getRollingBaseline (st : CostStore) (tenantId : Str) (today : Date) (windowDays : ℤ) :
    Except DateOverflow (Option ℚ) :=
  match windowDates today windowDays with
  | none => .error ⟨⟩
  | some dates =>
    match st.spends.filter (TenantDailySpend.inWindow tenantId dates) with
    | [] => .ok none
    | rows => .ok (some ((rows.map TenantDailySpend.totalUsd).sum / windowDays))

/-! ## Checking -/

/-- The arguments of `check_spend_anomaly`. -/
structure AnomalyArgs where
  /-- The tenant. -/
  tenantId : Str
  /-- The day. -/
  today : Date
  /-- How many days the baseline covers. -/
  windowDays : ℤ := 7
  /-- How many times the baseline are too much. -/
  thresholdMultiplier : ℚ := 2

/-- `SpendAnomalyResult`. -/
structure SpendAnomalyResult where
  /-- Was it too much? -/
  isAnomalous : Bool
  /-- What has been spent on the day. -/
  todaySpend : ℚ
  /-- The baseline, if there is one. -/
  baseline : Option ℚ
  /-- How many times the baseline are too much. -/
  thresholdMultiplier : ℚ

/-- `is_anomalous`. -/
def isAnomalous (todaySpend : ℚ) (baseline : Option ℚ) (thresholdMultiplier : ℚ) : Bool :=
  match baseline with
  | none => false
  | some baseline => 0 < baseline ∧ baseline * thresholdMultiplier < todaySpend

/-- What `check_spend_anomaly` makes of the two amounts it has read. -/
def AnomalyArgs.result (a : AnomalyArgs) (todaySpend : ℚ) (baseline : Option ℚ) :
    SpendAnomalyResult :=
  ⟨isAnomalous todaySpend baseline a.thresholdMultiplier, todaySpend, baseline,
    a.thresholdMultiplier⟩

/-- `check_spend_anomaly`, while nothing else happens. -/
def checkSpendAnomaly (st : CostStore) (a : AnomalyArgs) :
    Except DateOverflow SpendAnomalyResult :=
  let todaySpend := st.getDailySpend a.tenantId (isoDate a.today)
  (getRollingBaseline st a.tenantId a.today a.windowDays).map (a.result todaySpend)

theorem checkSpendAnomaly_of_baseline {st : CostStore} {a : AnomalyArgs} {baseline : Option ℚ}
    (h : getRollingBaseline st a.tenantId a.today a.windowDays = .ok baseline) :
    checkSpendAnomaly st a =
      .ok (a.result (st.getDailySpend a.tenantId (isoDate a.today)) baseline) := by
  rw [checkSpendAnomaly, h]
  rfl

/-! ## What the baseline adds up -/

variable {st st' : CostStore} {t : Str} {dates : List Date}

/-- The tenant and the day of a row. -/
def TenantDailySpend.key (row : TenantDailySpend) : Str × Str := (row.tenantId, row.spendDate)

/-- A tenant has one row a day, which is what the unique constraint says. -/
def CostStore.SpendsUnique (st : CostStore) : Prop := (st.spends.map TenantDailySpend.key).Nodup

theorem CostStore.SpendsUnique.recordSpend (h : st.SpendsUnique) (t d : Str) (amount : ℚ) :
    (st.recordSpend t d amount).SpendsUnique := by
  rw [SpendsUnique, CostStore.recordSpend]
  split_ifs with hany
  · have hsame : (st.spends.map fun row ↦
        if row.isFor t d then { row with totalUsd := row.totalUsd + amount } else row).map
        TenantDailySpend.key = st.spends.map TenantDailySpend.key := by
      rw [List.map_map]
      refine List.map_congr_left fun row _ ↦ ?_
      rw [Function.comp_apply]
      split_ifs <;> rfl
    rwa [hsame]
  · refine nodup_map_concat h fun row hrow hkey ↦ hany (List.any_eq_true.mpr ⟨row, hrow, ?_⟩)
    exact TenantDailySpend.isFor_iff.mpr hkey

/-- The total of a day is the sum over its rows, of which there is at most one. -/
theorem CostStore.SpendsUnique.sum_isFor (h : st.SpendsUnique) (t d : Str) :
    ((st.spends.filter (TenantDailySpend.isFor t d)).map TenantDailySpend.totalUsd).sum =
      st.getDailySpend t d := by
  rw [CostStore.getDailySpend]
  rw [SpendsUnique] at h
  generalize st.spends = rows at h
  induction rows with
  | nil => rfl
  | cons row rows ih =>
    rw [List.map_cons, List.nodup_cons] at h
    by_cases hrow : row.isFor t d = true
    · have hrest : rows.filter (TenantDailySpend.isFor t d) = [] := by
        refine List.filter_eq_nil_iff.mpr fun row' hmem hfor ↦
          h.1 (List.mem_map.mpr ⟨row', hmem, ?_⟩)
        exact (TenantDailySpend.isFor_iff.mp hfor).trans (TenantDailySpend.isFor_iff.mp hrow).symm
      rw [List.filter_cons_of_pos hrow, hrest, List.find?_cons_of_pos hrow]
      simp
    · rw [List.filter_cons_of_neg hrow, List.find?_cons_of_neg hrow]
      exact ih h.2

/-- A sum over what satisfies one or the other of two conditions, but never both. -/
theorem sum_filter_of_or {α : Type} {p q r : α → Bool} (f : α → ℚ)
    (hor : ∀ a, r a = true ↔ p a = true ∨ q a = true) (hnot : ∀ a, p a = true → ¬q a = true)
    (l : List α) :
    ((l.filter r).map f).sum = ((l.filter p).map f).sum + ((l.filter q).map f).sum := by
  induction l with
  | nil => simp
  | cons a l ih =>
    by_cases hp : p a = true
    · rw [List.filter_cons_of_pos ((hor a).mpr (.inl hp)), List.filter_cons_of_pos hp,
        List.filter_cons_of_neg (hnot a hp), List.map_cons, List.map_cons, List.sum_cons,
        List.sum_cons, ih, add_assoc]
    by_cases hq : q a = true
    · rw [List.filter_cons_of_pos ((hor a).mpr (.inr hq)), List.filter_cons_of_neg hp,
        List.filter_cons_of_pos hq, List.map_cons, List.map_cons, List.sum_cons, List.sum_cons, ih,
        add_left_comm]
    · rw [List.filter_cons_of_neg fun hr ↦ ((hor a).mp hr).elim hp hq,
        List.filter_cons_of_neg hp, List.filter_cons_of_neg hq, ih]

/-- What a tenant has spent on these days. -/
def CostStore.spendOver (st : CostStore) (tenantId : Str) (dates : List Date) : ℚ :=
  (dates.map fun d ↦ st.getDailySpend tenantId (isoDate d)).sum

/-- **The rows of a window add up to what was spent on its days.** -/
theorem CostStore.SpendsUnique.sum_inWindow (h : st.SpendsUnique) (hdates : dates.Nodup) :
    ((st.spends.filter (TenantDailySpend.inWindow t dates)).map TenantDailySpend.totalUsd).sum =
      st.spendOver t dates := by
  induction dates with
  | nil =>
    have hnone : st.spends.filter (TenantDailySpend.inWindow t []) = [] :=
      List.filter_eq_nil_iff.mpr fun row _ ↦ by simp [TenantDailySpend.inWindow]
    rw [hnone]
    rfl
  | cons d dates ih =>
    rw [List.nodup_cons] at hdates
    rw [CostStore.spendOver, List.map_cons, List.sum_cons, ← CostStore.spendOver, ← ih hdates.2,
      ← h.sum_isFor]
    -- a row is of the first day or of one of the others, but not of both
    have hnew : isoDate d ∉ dates.map isoDate := fun hmem ↦
      hdates.1 ((List.mem_map_of_injective isoDate_injective).mp hmem)
    refine sum_filter_of_or _ (fun row ↦ ?_) (fun row hfor hin ↦ ?_) _
    · simp [TenantDailySpend.inWindow, TenantDailySpend.isFor, and_or_left]
    · rw [TenantDailySpend.isFor_iff, Prod.mk.injEq] at hfor
      rw [TenantDailySpend.inWindow, decide_eq_true_iff, hfor.2] at hin
      exact hnew (List.contains_iff_mem.mp hin.2)

/-- Something is on record for a tenant on a day. -/
def CostStore.Has (st : CostStore) (tenantId spendDate : Str) : Prop :=
  ∃ row ∈ st.spends, row.isFor tenantId spendDate = true

theorem CostStore.has_recordSpend (st : CostStore) (t d : Str) (amount : ℚ) (t' d' : Str) :
    (st.recordSpend t d amount).Has t' d' ↔ st.Has t' d' ∨ (t', d') = (t, d) := by
  simp only [CostStore.Has, CostStore.recordSpend]
  split_ifs with hany
  · obtain ⟨row, hrow, hfor⟩ := List.any_eq_true.mp hany
    have hsame (r : TenantDailySpend) : (if r.isFor t d = true then
        { r with totalUsd := r.totalUsd + amount } else r).isFor t' d' = r.isFor t' d' := by
      split_ifs <;> rfl
    simp only [List.mem_map, exists_exists_and_eq_and, hsame]
    refine ⟨.inl, fun h ↦ h.elim id fun heq ↦ ⟨row, hrow, ?_⟩⟩
    rw [TenantDailySpend.isFor_iff] at hfor ⊢
    exact hfor.trans heq.symm
  · simp only [List.mem_append, List.mem_singleton, or_and_right, exists_or, exists_eq_left,
      TenantDailySpend.isFor_iff]
    exact or_congr_right eq_comm

/-- Nothing is on record for a window if and only if there are no rows for it. -/
theorem CostStore.inWindow_eq_nil (st : CostStore) (t : Str) (dates : List Date) :
    st.spends.filter (TenantDailySpend.inWindow t dates) = [] ↔
      ∀ d ∈ dates, ¬st.Has t (isoDate d) := by
  rw [List.filter_eq_nil_iff]
  simp only [CostStore.Has, TenantDailySpend.inWindow, TenantDailySpend.isFor]
  grind

theorem getRollingBaseline_of_empty {today : Date} {windowDays : ℤ}
    (hdates : windowDates today windowDays = some dates)
    (hnone : ∀ d ∈ dates, ¬st.Has t (isoDate d)) :
    getRollingBaseline st t today windowDays = .ok none := by
  rw [getRollingBaseline, hdates]
  dsimp only
  rw [(st.inWindow_eq_nil t dates).mpr hnone]

/-- **What `get_rolling_baseline` returns** once something is on record for the window. -/
theorem CostStore.SpendsUnique.getRollingBaseline (h : st.SpendsUnique) {today : Date}
    {windowDays : ℤ} (hdates : windowDates today windowDays = some dates)
    (hsome : ∃ d ∈ dates, st.Has t (isoDate d)) :
    getRollingBaseline st t today windowDays =
      .ok (some (st.spendOver t dates / windowDays)) := by
  rw [WiseTraceLoom.getRollingBaseline, hdates]
  dsimp only
  rw [← h.sum_inWindow (Date.daysBefore_nodup hdates)]
  cases hrows : st.spends.filter (TenantDailySpend.inWindow t dates) with
  | nil =>
    obtain ⟨d, hd, hhas⟩ := hsome
    exact absurd hhas ((st.inWindow_eq_nil t dates).mp hrows d hd)
  | cons row rows => rfl

/-! ## Who has recorded what -/

/-- The block or call has recorded something for a tenant on a day. -/
def SpendCall.Recorded (tenantId spendDate : Str) : SpendCall → Prop
  | .spent t d _ => (tenantId, spendDate) = (t, d)
  | .left _ _ span day =>
    span.tenantId = some tenantId ∧ span.estimatedCostUsd ≠ none ∧ day = spendDate
  | _ => False

/-- **The step lemma**: what is on record after a step was on record before, or is what the block or
call has just recorded. -/
theorem SpendStep.recorded {st st' : CostTables} {c c' : SpendCall} (h : SpendStep st c st' c')
    (t d : Str) : (st'.store.Has t d ↔ st.store.Has t d ∨ c'.Recorded t d) ∧ ¬c.Recorded t d := by
  refine ⟨?_, by cases h <;> exact id⟩
  cases h with
  | enter | edit | finish | hostCost | ownPrice | noOwnPrice | globalPrice | reprice
  | writePricing => exact (or_iff_left id).symm
  | @record e pricing span t' cost htenant hcost day =>
    refine (CostStore.has_recordSpend _ _ _ _ _ _).trans (or_congr_right ?_)
    simp [SpendCall.Recorded, htenant, hcost, eq_comm]
  | @nothing e pricing span h day =>
    refine (or_iff_left ?_).symm
    rintro ⟨htenant, hcost, -⟩
    exact h.elim hcost fun hnone ↦ by rw [hnone] at htenant; cases htenant
  | spend t' day amount => exact CostStore.has_recordSpend _ _ _ _ _ _

theorem SpendStep.spendsUnique {st st' : CostTables} {c c' : SpendCall}
    (h : SpendStep st c st' c') (hst : st.store.SpendsUnique) : st'.store.SpendsUnique := by
  cases h with
  | record | spend => exact hst.recordSpend _ _ _
  | _ => exact hst

variable {ι : Type} [DecidableEq ι] {x : Config ι CostTables SpendCall}
  {prices : List PricingConfig} {quotas : List QuotaConfig}

/-- **The run lemma**: on record is what some block or call has recorded. -/
theorem has_iff_recorded (h : Steps SpendStep (spendStart quotas prices) x) (t d : Str) :
    x.shared.store.Has t d ↔ ∃ i, (x.locals i).Recorded t d := by
  refine h.invariant (I := fun x : Config ι CostTables SpendCall ↦
    x.shared.store.Has t d ↔ ∃ i, (x.locals i).Recorded t d) ?_ ?_
  · intro x i st' c' hx hstep
    obtain ⟨hhas, hfirst⟩ := hstep.recorded t d
    rw [Config.set_shared, hhas, hx]
    constructor
    · rintro (⟨j, hj⟩ | hc')
      · have hji : j ≠ i := by
          rintro rfl
          exact hfirst hj
        exact ⟨j, by rwa [Config.set_locals_ne x st' c' hji]⟩
      · exact ⟨i, by rwa [Config.set_locals_self]⟩
    · rintro ⟨j, hj⟩
      by_cases hji : j = i
      · subst hji
        exact .inr (by rwa [Config.set_locals_self] at hj)
      · exact .inl ⟨j, by rwa [Config.set_locals_ne x st' c' hji] at hj⟩
  · refine iff_of_false ?_ ?_
    · rintro ⟨row, hrow, -⟩
      cases hrow
    · rintro ⟨i, hi⟩
      exact hi

/-- What has been recorded for a tenant on these days, by all blocks and calls together. -/
noncomputable def recordedOver (x : Config ι CostTables SpendCall) (t : Str) (dates : List Date) :
    ℚ :=
  (dates.map fun d ↦ tally (SpendCall.direct t (isoDate d)) x.locals +
    tally (SpendCall.attributed t (isoDate d)) x.locals).sum

theorem spendOver_eq_recordedOver (h : Steps SpendStep (spendStart quotas prices) x) (t : Str)
    (dates : List Date) : x.shared.store.spendOver t dates = recordedOver x t dates := by
  refine congrArg List.sum (List.map_congr_left fun d _ ↦ ?_)
  have hsum := h.tally (fun hstep ↦ hstep.total t (isoDate d)) fun _ ↦ add_zero 0
  rw [hsum, tally_add (h.few fun _ ↦ rfl) (h.few fun _ ↦ rfl)]
  exact zero_add _

theorem spendsUnique_of_steps (h : Steps SpendStep (spendStart quotas prices) x) :
    x.shared.store.SpendsUnique :=
  h.invariant (I := fun x : Config ι CostTables SpendCall ↦ x.shared.store.SpendsUnique)
    (fun _ _ _ _ hx hstep ↦ hstep.spendsUnique hx) List.nodup_nil

/-- **The rolling baseline counts every recorded amount of its window once**, and nothing else.  In
every state that any number of blocks and direct calls reach, it is there if and only if one of them
has recorded something for the tenant on a day of the window, and it is then the sum of all they
have recorded for these days, over the number of days.  The check that comes with it finds today's
sum too much if and only if it is more than the multiple of a baseline that is more than 0. -/
theorem rolling_baseline_recorded (h : Steps SpendStep (spendStart quotas prices) x) (t : Str)
    (today : Date) (windowDays : ℤ) (dates : List Date)
    (hdates : windowDates today windowDays = some dates) :
    ∃ baseline, getRollingBaseline x.shared.store t today windowDays = .ok baseline ∧
      (baseline ≠ none ↔ ∃ d ∈ dates, ∃ i, (x.locals i).Recorded t (isoDate d)) ∧
      (∀ b ∈ baseline, b * windowDays = recordedOver x t dates) ∧
      ∀ multiplier, ∃ r,
        checkSpendAnomaly x.shared.store ⟨t, today, windowDays, multiplier⟩ = .ok r ∧
        (r.isAnomalous = true ↔ 0 < recordedOver x t dates ∧
          recordedOver x t dates * multiplier < windowDays * recordedOver x t [today]) := by
  have hhas := has_iff_recorded h t
  have htoday : x.shared.store.getDailySpend t (isoDate today) = recordedOver x t [today] := by
    rw [← spendOver_eq_recordedOver h, CostStore.spendOver, List.map_singleton, List.sum_singleton]
  simp only [← hhas, ← spendOver_eq_recordedOver h t dates, ← htoday]
  by_cases hsome : ∃ d ∈ dates, x.shared.store.Has t (isoDate d)
  · have hbaseline := (spendsUnique_of_steps h).getRollingBaseline hdates hsome
    have hpos : (0 : ℚ) < windowDays := by
      obtain ⟨d, hd, -⟩ := hsome
      have hlength := List.length_pos_of_mem hd
      rw [Date.daysBefore_length hdates] at hlength
      have hdays : 0 < windowDays := by omega
      exact_mod_cast hdays
    refine ⟨_, hbaseline, iff_of_true (by simp) hsome, ?_,
      fun multiplier ↦ ⟨_, checkSpendAnomaly_of_baseline hbaseline, ?_⟩⟩
    · rintro b ⟨⟩
      exact div_mul_cancel₀ _ hpos.ne'
    · rw [AnomalyArgs.result, isAnomalous, decide_eq_true_iff, div_pos_iff_of_pos_right hpos,
        div_mul_eq_mul_div, div_lt_iff₀' hpos]
  · have hnone : ∀ d ∈ dates, ¬x.shared.store.Has t (isoDate d) := fun d hd hd' ↦
      hsome ⟨d, hd, hd'⟩
    have hbaseline := getRollingBaseline_of_empty hdates hnone
    have hzero : x.shared.store.spendOver t dates = 0 := by
      rw [← (spendsUnique_of_steps h).sum_inWindow (Date.daysBefore_nodup hdates),
        (x.shared.store.inWindow_eq_nil t dates).mpr hnone]
      rfl
    refine ⟨none, hbaseline, iff_of_false (by simp) hsome, by simp,
      fun multiplier ↦ ⟨_, checkSpendAnomaly_of_baseline hbaseline, ?_⟩⟩
    simp [AnomalyArgs.result, isAnomalous, hzero]

/-- A day of January 2026. -/
def january (day : ℕ) (h : 1 ≤ day ∧ day ≤ 31) : Date :=
  ⟨2026, 1, day, by decide, by decide, h⟩

/-- The week before the eighth. -/
def firstWeek : List Date :=
  [january 7 (by decide), january 6 (by decide), january 5 (by decide), january 4 (by decide),
    january 3 (by decide), january 2 (by decide), january 1 (by decide)]

theorem windowDates_january : windowDates (january 8 (by decide)) 7 = some firstWeek := by decide

/-- A tenant that has spent 7 on the fifth has a baseline on the eighth. -/
theorem rolling_baseline_acme : ∃ (x : Config Bool CostTables SpendCall) (baseline : Option ℚ),
    getRollingBaseline x.shared.store "acme".toList (january 8 (by decide)) 7 = .ok baseline ∧
      baseline ≠ none := by
  have hrun : Steps SpendStep (spendStart [] []) _ :=
    Steps.thread (.refl : Steps SpendStep (spendStart [] [] : Config Bool _ _) _) false
      (.spend "acme".toList (isoDate (january 5 (by decide))) 7)
  obtain ⟨baseline, hbaseline, hiff, -⟩ :=
    rolling_baseline_recorded hrun "acme".toList _ 7 _ windowDates_january
  refine ⟨_, baseline, hbaseline, hiff.mpr ⟨january 5 (by decide), by decide, false, ?_⟩⟩
  rw [Config.set_locals_self]
  rfl

/-! ## Checks among others -/

/-- A `wisetraceloom_spend_anomaly` event. -/
structure SpendAnomalyEvent where
  /-- The tenant. -/
  tenantId : Str
  /-- What it has spent on the day. -/
  todaySpendUsd : ℚ
  /-- The baseline. -/
  baselineUsd : Option ℚ
  /-- How many times the baseline are too much. -/
  thresholdMultiplier : ℚ

/-- The totals, and the warnings that were logged. -/
structure SpendAlerts where
  /-- The totals. -/
  store : CostStore
  /-- The warnings. -/
  warnings : List SpendAnomalyEvent

/-- The warning for a result. -/
def AnomalyArgs.event (a : AnomalyArgs) (r : SpendAnomalyResult) : SpendAnomalyEvent :=
  ⟨a.tenantId, r.todaySpend, r.baseline, r.thresholdMultiplier⟩

/-- Where an `_attribute_cost` stands, or a call to `record_spend` or `check_spend_anomaly`. -/
inductive AnomalyCall where
  | idle
  /-- `_attribute_cost` has recorded the cost of a span. -/
  | recorded (tenantId : Str) (day : Date) (amountUsd : ℚ)
  /-- The host has called `record_spend`. -/
  | spent (tenantId spendDate : Str) (amountUsd : ℚ)
  /-- `check_spend_anomaly` is called. -/
  | checking (a : AnomalyArgs)
  /-- `get_daily_spend` has returned. -/
  | loaded (a : AnomalyArgs) (todaySpend : ℚ)
  /-- So has `get_rolling_baseline`. -/
  | compared (a : AnomalyArgs) (r : SpendAnomalyResult)
  | returned (a : AnomalyArgs) (r : SpendAnomalyResult)
  | raised

/-- Has the call ended? -/
def AnomalyCall.ended : AnomalyCall → Bool
  | .idle | .spent _ _ _ | .returned _ _ | .raised => true
  | _ => false

/-- One step of a call. -/
inductive AnomalyStep : SpendAlerts → AnomalyCall → SpendAlerts → AnomalyCall → Prop
  | record {x : SpendAlerts} (t : Str) (day : Date) (amount : ℚ) :
      AnomalyStep x .idle { x with store := x.store.recordSpend t (isoDate day) amount }
        (.recorded t day amount)
  | spend {x : SpendAlerts} (t d : Str) (amount : ℚ) :
      AnomalyStep x .idle { x with store := x.store.recordSpend t d amount } (.spent t d amount)
  /-- `check_spend_anomaly(span.tenant_id)`, on the day the clock shows by then. -/
  | recordedCheck {x : SpendAlerts} {t : Str} {day : Date} {amount : ℚ} (today : Date) :
      AnomalyStep x (.recorded t day amount) x (.checking { tenantId := t, today := today })
  | check {x : SpendAlerts} (a : AnomalyArgs) : AnomalyStep x .idle x (.checking a)
  | readToday {x : SpendAlerts} {a : AnomalyArgs} :
      AnomalyStep x (.checking a) x
        (.loaded a (x.store.getDailySpend a.tenantId (isoDate a.today)))
  | readWindow {x : SpendAlerts} {a : AnomalyArgs} {todaySpend : ℚ} {baseline : Option ℚ}
      (h : getRollingBaseline x.store a.tenantId a.today a.windowDays = .ok baseline) :
      AnomalyStep x (.loaded a todaySpend) x (.compared a (a.result todaySpend baseline))
  | overflow {x : SpendAlerts} {a : AnomalyArgs} {todaySpend : ℚ} {e : DateOverflow}
      (h : getRollingBaseline x.store a.tenantId a.today a.windowDays = .error e) :
      AnomalyStep x (.loaded a todaySpend) x .raised
  | warn {x : SpendAlerts} {a : AnomalyArgs} {r : SpendAnomalyResult} (h : r.isAnomalous = true) :
      AnomalyStep x (.compared a r) { x with warnings := x.warnings ++ [a.event r] }
        (.returned a r)
  | calm {x : SpendAlerts} {a : AnomalyArgs} {r : SpendAnomalyResult} (h : r.isAnomalous = false) :
      AnomalyStep x (.compared a r) x (.returned a r)
  /-- A statement raises, or the warning does. -/
  | fail {x : SpendAlerts} {c : AnomalyCall} (h : c.ended = false) : AnomalyStep x c x .raised
  | again {x : SpendAlerts} {c : AnomalyCall} (h : c.ended = true) : AnomalyStep x c x .idle

/-- **The two views agree**: `check_spend_anomaly` on its own is a run of these steps. -/
theorem checkSpendAnomaly_steps (x : SpendAlerts) (a : AnomalyArgs) :
    match checkSpendAnomaly x.store a with
    | .error _ => Solo AnomalyStep (x, .checking a) (x, .raised)
    | .ok r => Solo AnomalyStep (x, .checking a)
        ({ x with warnings := x.warnings ++ if r.isAnomalous then [a.event r] else [] },
          .returned a r) := by
  have hread : Solo AnomalyStep (x, .checking a) (x, .loaded a _) := Solo.step .refl .readToday
  rw [checkSpendAnomaly]
  cases hbaseline : getRollingBaseline x.store a.tenantId a.today a.windowDays with
  | error e => exact hread.step (.overflow hbaseline)
  | ok baseline =>
    have hcompared := hread.step (.readWindow hbaseline)
    show Solo AnomalyStep _ _
    split_ifs with hanomalous
    · exact hcompared.step (.warn hanomalous)
    · rw [List.append_nil]
      exact hcompared.step (.calm (Bool.eq_false_iff.mpr hanomalous))

/-! ## One tenant on one day -/

/-- What is watched: a tenant on a day, and its baseline. -/
structure AnomalyWatch where
  /-- The tenant. -/
  tenantId : Str
  /-- The day. -/
  today : Date
  /-- The baseline. -/
  baseline : ℚ

variable {w : AnomalyWatch} {x x' : SpendAlerts} {c c' : AnomalyCall}

namespace AnomalyWatch

/-- What `_attribute_cost` checks. -/
def args (w : AnomalyWatch) : AnomalyArgs := { tenantId := w.tenantId, today := w.today }

/-- What has been spent on the day. -/
def total (w : AnomalyWatch) (x : SpendAlerts) : ℚ :=
  x.store.getDailySpend w.tenantId (isoDate w.today)

/-- What is too much. -/
def limit (w : AnomalyWatch) : ℚ := w.baseline * w.args.thresholdMultiplier

/-- A step of the day.  Nothing raises; blocks of the tenant record their cost and check it before
the day is over; no cost is negative; and nobody else records anything for the tenant. -/
def Allowed (w : AnomalyWatch) (x : SpendAlerts) (c : AnomalyCall) (x' : SpendAlerts)
    (c' : AnomalyCall) : Prop :=
  AnomalyStep x c x' c' ∧
    match c' with
    | .recorded t day amount => t = w.tenantId → day = w.today ∧ 0 ≤ amount
    | .spent t _ _ => t ≠ w.tenantId
    | .checking a => a.tenantId = w.tenantId → a = w.args
    | .raised => False
    | _ => True

/-- The baseline is what it was, and whoever was warned about has spent too much. -/
structure Ok (w : AnomalyWatch) (x : SpendAlerts) : Prop where
  /-- The baseline is what it was. -/
  baseline : getRollingBaseline x.store w.tenantId w.today w.args.windowDays = .ok (some w.baseline)
  /-- The warnings are right. -/
  warnings : ∀ e ∈ x.warnings, e.tenantId = w.tenantId → w.limit < e.todaySpendUsd ∧
    e.todaySpendUsd ≤ w.total x

end AnomalyWatch

/-- What a check knows of the total of the day. -/
def AnomalyCall.Ok (w : AnomalyWatch) (x : SpendAlerts) : AnomalyCall → Prop
  | .checking a => a.tenantId = w.tenantId → a = w.args
  | .loaded a todaySpend => a.tenantId = w.tenantId → a = w.args ∧ todaySpend ≤ w.total x
  | .compared a r => a.tenantId = w.tenantId → a = w.args ∧
      ∃ todaySpend ≤ w.total x, r = a.result todaySpend (some w.baseline)
  | _ => True

/-- A check that is going to warn. -/
def AnomalyCall.Due (w : AnomalyWatch) : AnomalyCall → Prop
  | .recorded t _ _ => t = w.tenantId
  | .checking a => a.tenantId = w.tenantId
  | .loaded a todaySpend => a.tenantId = w.tenantId ∧ w.limit < todaySpend
  | .compared a r => a.tenantId = w.tenantId ∧ r.isAnomalous = true
  | _ => False

/-- A warning about the tenant was logged. -/
def AnomalyWatch.Noticed (w : AnomalyWatch) (x : SpendAlerts) : Prop :=
  ∃ e ∈ x.warnings, e.tenantId = w.tenantId

theorem AnomalyCall.Ok.mono (hc : c.Ok w x) (h : w.total x ≤ w.total x') : c.Ok w x' := by
  cases c with
  | loaded a todaySpend => exact fun ha ↦ ⟨(hc ha).1, (hc ha).2.trans h⟩
  | compared a r =>
    intro ha
    obtain ⟨hargs, todaySpend, hle, hr⟩ := hc ha
    exact ⟨hargs, todaySpend, hle.trans h, hr⟩
  | checking a => exact hc
  | _ => trivial

/-- Recording an amount on another day, or for another tenant, leaves a baseline as it is. -/
theorem getRollingBaseline_recordSpend {today : Date} {windowDays : ℤ}
    (hdates : windowDates today windowDays = some dates) {t' d : Str}
    (h : t' = t → d ∉ dates.map isoDate) (amount : ℚ) :
    getRollingBaseline (st.recordSpend t' d amount) t today windowDays =
      getRollingBaseline st t today windowDays := by
  have hrows : (st.recordSpend t' d amount).spends.filter (TenantDailySpend.inWindow t dates) =
      st.spends.filter (TenantDailySpend.inWindow t dates) := by
    have hout (row : TenantDailySpend) (hrow : row.isFor t' d = true) :
        row.inWindow t dates = false := by
      rw [TenantDailySpend.isFor_iff, Prod.mk.injEq] at hrow
      rw [TenantDailySpend.inWindow, decide_eq_false_iff_not, hrow.1, hrow.2]
      exact fun hin ↦ h hin.1 (List.contains_iff_mem.mp hin.2)
    rw [CostStore.recordSpend]
    split_ifs with hany
    · rw [List.filter_map]
      have hsame : (TenantDailySpend.inWindow t dates ∘ fun row : TenantDailySpend ↦
          if row.isFor t' d then { row with totalUsd := row.totalUsd + amount } else row) =
          TenantDailySpend.inWindow t dates := by
        funext row
        rw [Function.comp_apply]
        split_ifs <;> rfl
      rw [hsame]
      refine (List.map_congr_left fun row hrow ↦ if_neg fun hfor ↦ ?_).trans (List.map_id _)
      have hin := (List.mem_filter.mp hrow).2
      rw [hout row hfor] at hin
      cases hin
    · have hnew : TenantDailySpend.inWindow t dates ⟨t', d, amount⟩ = false :=
        hout _ (TenantDailySpend.isFor_iff.mpr rfl)
      rw [List.filter_append, List.filter_cons_of_neg (by rw [hnew]; decide), List.filter_nil,
        List.append_nil]
  rw [getRollingBaseline, getRollingBaseline, hdates]
  simp only [hrows]

/-- **What is recorded on the day** makes the total grow and leaves the baseline as it is. -/
theorem AnomalyWatch.Ok.recordSpend (hx : w.Ok x)
    (hdates : windowDates w.today w.args.windowDays = some dates) (t d : Str) (amount : ℚ)
    (h : t = w.tenantId → d = isoDate w.today ∧ 0 ≤ amount) :
    w.total x ≤ w.total { x with store := x.store.recordSpend t d amount } ∧
      w.Ok { x with store := x.store.recordSpend t d amount } := by
  have hgrows : w.total x ≤ w.total { x with store := x.store.recordSpend t d amount } := by
    rw [total, total, CostStore.getDailySpend_recordSpend]
    split_ifs with hkey
    · rw [Prod.mk.injEq] at hkey
      linarith [(h hkey.1.symm).2]
    · rw [add_zero]
  refine ⟨hgrows, ?_, fun e he ht ↦ ?_⟩
  · have hout : t = w.tenantId → d ∉ dates.map isoDate := by
      rintro ht hmem
      rw [(h ht).1, List.mem_map_of_injective isoDate_injective] at hmem
      exact Date.not_mem_daysBefore hdates hmem
    exact (getRollingBaseline_recordSpend hdates hout amount).trans hx.baseline
  · obtain ⟨hlimit, hle⟩ := hx.warnings e he ht
    exact ⟨hlimit, hle.trans hgrows⟩

/-- **One step of the day.** -/
theorem AnomalyWatch.Allowed.ok (h : w.Allowed x c x' c')
    (hdates : windowDates w.today w.args.windowDays = some dates) (hx : w.Ok x) (hc : c.Ok w x) :
    w.total x ≤ w.total x' ∧ w.Ok x' ∧ c'.Ok w x' := by
  obtain ⟨hstep, hallowed⟩ := h
  cases hstep with
  | record t day amount =>
    obtain ⟨hgrows, hx'⟩ := hx.recordSpend hdates t (isoDate day) amount
      fun ht ↦ ⟨congrArg isoDate (hallowed ht).1, (hallowed ht).2⟩
    exact ⟨hgrows, hx', trivial⟩
  | spend t d amount =>
    obtain ⟨hgrows, hx'⟩ := hx.recordSpend hdates t d amount fun ht ↦ absurd ht hallowed
    exact ⟨hgrows, hx', trivial⟩
  | recordedCheck today => exact ⟨le_rfl, hx, hallowed⟩
  | check a => exact ⟨le_rfl, hx, hallowed⟩
  | @readToday a =>
    refine ⟨le_rfl, hx, fun ha ↦ ⟨hc ha, ?_⟩⟩
    rw [hc ha]
    rfl
  | @readWindow a todaySpend baseline h =>
    refine ⟨le_rfl, hx, fun ha ↦ ?_⟩
    obtain ⟨rfl, hle⟩ := hc ha
    obtain rfl := Except.ok.inj (h.symm.trans hx.baseline)
    exact ⟨rfl, todaySpend, hle, rfl⟩
  | overflow | fail => exact hallowed.elim
  | @warn a r hr =>
    refine ⟨le_rfl, ⟨hx.baseline, fun e he ht ↦ ?_⟩, trivial⟩
    rcases List.mem_append.mp he with he | he
    · exact hx.warnings e he ht
    · obtain rfl := List.mem_singleton.mp he
      obtain ⟨rfl, todaySpend, hle, rfl⟩ := hc ht
      exact ⟨(of_decide_eq_true hr).2, hle⟩
  | calm | again => exact ⟨le_rfl, hx, trivial⟩

/-- Only what a block of the tenant records takes the total past the limit, and the block has yet to
check it. -/
theorem AnomalyWatch.Allowed.passes (h : w.Allowed x c x' c') (hunder : ¬w.limit < w.total x)
    (hover : w.limit < w.total x') : c'.Due w := by
  obtain ⟨hstep, hallowed⟩ := h
  have hother {t d : Str} {amount : ℚ} (ht : t ≠ w.tenantId)
      (hx' : x' = { x with store := x.store.recordSpend t d amount }) : False := by
    rw [hx', total, CostStore.getDailySpend_recordSpend, if_neg, add_zero] at hover
    · exact hunder hover
    · exact fun hkey ↦ ht (Prod.mk.inj hkey).1.symm
  cases hstep with
  | record t day amount =>
    by_contra ht
    exact hother ht rfl
  | spend t d amount => exact (hother hallowed rfl).elim
  | _ => exact absurd hover hunder

/-- **A check that is going to warn does warn.** -/
theorem AnomalyWatch.Allowed.due (h : w.Allowed x c x' c') (hpos : 0 < w.baseline) (hx : w.Ok x)
    (hc : c.Ok w x) (hover : w.limit < w.total x) (hdue : w.Noticed x ∨ c.Due w) :
    w.Noticed x' ∨ c'.Due w := by
  obtain ⟨hstep, hallowed⟩ := h
  cases hstep with
  | record | spend | check => exact .inl (hdue.resolve_right id)
  | recordedCheck today => exact hdue
  | @readToday a =>
    refine hdue.imp_right fun ha ↦ ⟨ha, ?_⟩
    rw [hc ha]
    exact hover
  | @readWindow a todaySpend baseline h =>
    refine hdue.imp_right fun ⟨ha, hlimit⟩ ↦ ⟨ha, ?_⟩
    obtain ⟨rfl, -⟩ := hc ha
    obtain rfl := Except.ok.inj (h.symm.trans hx.baseline)
    exact decide_eq_true ⟨hpos, hlimit⟩
  | overflow | fail => exact hallowed.elim
  | @warn a r hr =>
    left
    rcases hdue with ⟨e, he, ht⟩ | ⟨ha, -⟩
    · exact ⟨e, List.mem_append_left _ he, ht⟩
    · exact ⟨a.event r, List.mem_append_right _ List.mem_cons_self, ha⟩
  | @calm a r hr =>
    refine .inl (hdue.resolve_right fun ⟨_, hdue⟩ ↦ ?_)
    rw [hr] at hdue
    cases hdue
  | @again c h =>
    refine .inl (hdue.resolve_right fun hdue ↦ ?_)
    cases c <;> first | exact hdue | cases h

/-- **The premises of the rely–guarantee rule.** -/
theorem anomaly_relyGuarantee (hdates : windowDates w.today w.args.windowDays = some dates) :
    RelyGuarantee (ι := ι) w.Allowed (fun _ ↦ True) (fun x x' ↦ w.total x ≤ w.total x') w.Ok
      (fun x c ↦ c.Ok w x) where
  step _ _ _ _ _ _ hx hc h := h.ok hdates hx hc
  stable _ _ _ h hc := hc.mono h

/-- **Past the limit, somebody is going to warn**, unless somebody has. -/
theorem AnomalyWatch.attended (hdates : windowDates w.today w.args.windowDays = some dates)
    (hpos : 0 < w.baseline) {start : SpendAlerts} (hstart : w.Ok start)
    (hbelow : ¬w.limit < w.total start) {c : Config ι SpendAlerts AnomalyCall}
    (h : Steps w.Allowed ⟨start, fun _ ↦ .idle⟩ c) (hover : w.limit < w.total c.shared) :
    Attended w.Noticed (AnomalyCall.Due w) c := by
  induction h with
  | refl => exact absurd hover hbelow
  | @tail c d hrun hstep ih =>
    obtain ⟨i, x', c', ht, rfl⟩ := hstep
    obtain ⟨hx, hlocals⟩ := (anomaly_relyGuarantee hdates).steps hrun (fun _ _ ↦ trivial) hstart
      fun _ ↦ trivial
    by_cases hbefore : w.limit < w.total c.shared
    · exact (ih hbefore).set (ht.due hpos hx (hlocals i) hbefore)
    · exact Attended.of_duty c i x' (ht.passes hbefore hover)

/-- **No anomaly goes unnoticed, and nothing else is called one.**  Take a day that starts below the
limit of a tenant, with a baseline of more than 0 and no warning about the tenant yet, and any
number of blocks of it that record their costs and check them, in any order and all at once.  When
all of them have been left, a warning about the tenant has been logged if and only if the total of
the day is past the limit, and every such warning shows a sum that is past the limit as well. -/
theorem anomaly_noticed (hdates : windowDates w.today w.args.windowDays = some dates)
    (hpos : 0 < w.baseline) {start : SpendAlerts}
    (hbaseline : getRollingBaseline start.store w.tenantId w.today w.args.windowDays =
      .ok (some w.baseline)) (hquiet : ¬w.Noticed start) (hbelow : w.total start ≤ w.limit)
    {c : Config ι SpendAlerts AnomalyCall} (h : Steps w.Allowed ⟨start, fun _ ↦ .idle⟩ c)
    (hended : ∀ i, (c.locals i).ended = true) :
    (w.Noticed c.shared ↔ w.limit < w.total c.shared) ∧
      ∀ e ∈ c.shared.warnings, e.tenantId = w.tenantId → w.limit < e.todaySpendUsd ∧
        e.todaySpendUsd ≤ w.total c.shared := by
  have hstart : w.Ok start := ⟨hbaseline, fun e he ht ↦ absurd ⟨e, he, ht⟩ hquiet⟩
  obtain ⟨hx, -⟩ := (anomaly_relyGuarantee hdates).steps h (fun _ _ ↦ trivial) hstart
    fun _ ↦ trivial
  refine ⟨⟨?_, fun hover ↦ ?_⟩, hx.warnings⟩
  · rintro ⟨e, he, ht⟩
    obtain ⟨hlimit, hle⟩ := hx.warnings e he ht
    exact hlimit.trans_le hle
  · rcases w.attended hdates hpos hstart hbelow.not_gt h hover with hnoticed | ⟨i, hi⟩
    · exact hnoticed
    · have hend := hended i
      generalize c.locals i = call at hi hend
      cases call <;> first | exact hi.elim | cases hend

/-- The tenant on the eighth, with a baseline of 1. -/
def acmeWatch : AnomalyWatch := ⟨"acme".toList, january 8 (by decide), 1⟩

/-- It has spent 7 the day before, and nothing yet. -/
def acmeAlerts : SpendAlerts :=
  ⟨⟨[], [⟨"acme".toList, isoDate (january 7 (by decide)), 7⟩]⟩, []⟩

theorem acmeAlerts_baseline :
    getRollingBaseline acmeAlerts.store acmeWatch.tenantId acmeWatch.today
      acmeWatch.args.windowDays = .ok (some acmeWatch.baseline) := by
  decide +kernel

/-- A block that costs 5 is noticed. -/
theorem anomaly_acme : ∃ c : Config Unit SpendAlerts AnomalyCall, acmeWatch.Noticed c.shared := by
  let spent : SpendAlerts :=
    ⟨acmeAlerts.store.recordSpend "acme".toList (isoDate acmeWatch.today) 5, []⟩
  have htotal : spent.store.getDailySpend "acme".toList (isoDate acmeWatch.today) = 5 := by
    decide +kernel
  have hbaseline : getRollingBaseline spent.store "acme".toList acmeWatch.today 7 =
      .ok (some 1) := by decide +kernel
  have h0 : Steps acmeWatch.Allowed ⟨acmeAlerts, fun _ : Unit ↦ .idle⟩ _ := .refl
  have h1 := Steps.thread h0 () ⟨.record "acme".toList acmeWatch.today 5, fun _ ↦ ⟨rfl, by decide⟩⟩
  have h2 := Steps.thread h1 () ⟨.recordedCheck acmeWatch.today, fun _ ↦ rfl⟩
  have h3 := Steps.thread h2 () ⟨.readToday, trivial⟩
  have h4 := Steps.thread h3 () ⟨.readWindow hbaseline, trivial⟩
  have h5 := Steps.thread h4 () ⟨.warn (by decide +kernel), trivial⟩
  refine ⟨_, (anomaly_noticed windowDates_january (by decide +kernel) acmeAlerts_baseline ?_
    (by decide +kernel) h5 fun _ ↦ rfl).1.mpr ?_⟩
  · rintro ⟨e, he, -⟩
    cases he
  · show acmeWatch.limit < spent.store.getDailySpend "acme".toList (isoDate acmeWatch.today)
    rw [htotal]
    decide +kernel

end WiseTraceLoom
