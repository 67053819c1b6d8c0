import Mathlib.Algebra.Order.Field.Rat
import WiseTraceLoom.Storage.Config

/-!
# Daily spend and quotas

What a tenant has spent on a day is a running total, which `recordSpend` increments in one
statement.  `assertWithinQuota` is the kill-switch that the host calls before it makes a call to a
provider: it raises if the total of the day has reached the cap of the tenant.

Amounts are exact.
-/

set_option autoImplicit false

namespace WiseTraceLoom

/-! ## Tables -/

/-- The daily cap of a tenant, or of everyone. -/
structure QuotaConfig where
  /-- The tenant, `none` for the global row. -/
  tenantId : Option Str
  /-- The cap. -/
  dailyCapUsd : ℚ
  deriving DecidableEq

/-- The running total of a tenant on a day. -/
structure TenantDailySpend where
  /-- The tenant. -/
  tenantId : Str
  /-- The UTC day, as its ISO text. -/
  spendDate : Str
  /-- What has been recorded. -/
  totalUsd : ℚ
  deriving DecidableEq

/-- The tables for costs. -/
structure CostStore where
  /-- The quotas. -/
  quotas : List QuotaConfig
  /-- The totals. -/
  spends : List TenantDailySpend

/-! ## Statements -/

/-- The first quota row of a tenant, or of everyone. -/
def CostStore.quotaRow (st : CostStore) (tenantId : Option Str) : Option QuotaConfig :=
  st.quotas.find? fun row ↦ row.tenantId = tenantId

/-- The row is the total of a tenant on a day. -/
def TenantDailySpend.isFor (tenantId spendDate : Str) (row : TenantDailySpend) : Bool :=
  row.tenantId = tenantId ∧ row.spendDate = spendDate

/-- `get_daily_spend`. -/
def CostStore.getDailySpend (st : CostStore) (tenantId spendDate : Str) : ℚ :=
  ((st.spends.find? (TenantDailySpend.isFor tenantId spendDate)).map
    TenantDailySpend.totalUsd).getD 0

/-- The upsert of `record_spend`: `INSERT … ON CONFLICT DO UPDATE`. -/
def CostStore.recordSpend (st : CostStore) (tenantId spendDate : Str) (amountUsd : ℚ) :
    CostStore :=
  { st with
    spends :=
      if st.spends.any (TenantDailySpend.isFor tenantId spendDate) then
        st.spends.map fun row ↦
          if row.isFor tenantId spendDate then { row with totalUsd := row.totalUsd + amountUsd }
          else row
      else st.spends ++ [⟨tenantId, spendDate, amountUsd⟩] }

/-- The write of `set_quota_config`: an update of the row that was found, or an insert. -/
def CostStore.writeQuota (st : CostStore) (tenantId : Option Str) (dailyCapUsd : ℚ)
    (found : Bool) : CostStore :=
  { st with
    quotas :=
      if found then
        replaceFirst (fun row ↦ row.tenantId = tenantId) ⟨tenantId, dailyCapUsd⟩ st.quotas
      else st.quotas ++ [⟨tenantId, dailyCapUsd⟩] }

/-! ## Functions -/

/-- `get_quota_config`. -/
def getQuotaConfig (st : CostStore) (tenantId : Option Str) : Option QuotaConfig :=
  (tenantId.bind fun t ↦ st.quotaRow (some t)).or (st.quotaRow none)

/-- A `QuotaExceededError`. -/
structure QuotaExceededError where
  /-- The tenant. -/
  tenantId : Str
  /-- What it has spent on the day. -/
  spent : ℚ
  /-- Its cap. -/
  dailyCapUsd : ℚ
  deriving DecidableEq

/-- `assert_within_quota`. -/
def assertWithinQuota (st : CostStore) (tenantId spendDate : Str) :
    Except QuotaExceededError Unit :=
  match getQuotaConfig st (some tenantId) with
  | none => .ok ()
  | some quota =>
    let spent := st.getDailySpend tenantId spendDate
    if quota.dailyCapUsd ≤ spent then .error ⟨tenantId, spent, quota.dailyCapUsd⟩ else .ok ()

/-! ## What the writes do -/

theorem TenantDailySpend.isFor_iff {t d : Str} {row : TenantDailySpend} :
    row.isFor t d = true ↔ (row.tenantId, row.spendDate) = (t, d) := by
  simp [TenantDailySpend.isFor]

/-- **No update is lost**: the total grows by the amount, and no other total changes. -/
theorem CostStore.getDailySpend_recordSpend (st : CostStore) (t d : Str) (amount : ℚ)
    (t' d' : Str) : (st.recordSpend t d amount).getDailySpend t' d' =
      st.getDailySpend t' d' + if (t', d') = (t, d) then amount else 0 := by
  have hiff (row : TenantDailySpend) (hrow : row.isFor t' d' = true) :
      row.isFor t d = true ↔ (t', d') = (t, d) := by
    rw [TenantDailySpend.isFor_iff, TenantDailySpend.isFor_iff.mp hrow]
  rw [CostStore.recordSpend, CostStore.getDailySpend, CostStore.getDailySpend]
  dsimp only
  by_cases hany : st.spends.any (TenantDailySpend.isFor t d) = true
  · -- an update changes neither the keys nor their order
    have hsame : (TenantDailySpend.isFor t' d' ∘ fun row : TenantDailySpend ↦
        if row.isFor t d then { row with totalUsd := row.totalUsd + amount } else row) =
        TenantDailySpend.isFor t' d' := by
      funext row
      rw [Function.comp_apply]
      split_ifs <;> rfl
    rw [if_pos hany, List.find?_map, hsame]
    cases hfind : st.spends.find? (TenantDailySpend.isFor t' d') with
    | none =>
      have hne : (t', d') ≠ (t, d) := by
        rw [Ne, Prod.mk.injEq]
        rintro ⟨rfl, rfl⟩
        rw [List.any_eq_true, ← List.find?_isSome, hfind] at hany
        cases hany
      simp [hne]
    | some row =>
      have hrow := hiff row (List.find?_some hfind)
      by_cases hkey : (t', d') = (t, d)
      · simp [hrow.mpr hkey, hkey]
      · simp [Bool.eq_false_iff.mpr (mt hrow.mp hkey), hkey]
  · have hnone : st.spends.find? (TenantDailySpend.isFor t d) = none :=
      List.find?_eq_none.mpr fun row hrow hfor ↦ hany (List.any_eq_true.mpr ⟨row, hrow, hfor⟩)
    rw [if_neg hany, List.find?_append, List.find?_singleton]
    by_cases hkey : (t', d') = (t, d)
    · rw [Prod.mk.injEq] at hkey
      obtain ⟨rfl, rfl⟩ := hkey
      simp [hnone, TenantDailySpend.isFor]
    · have hrow : (⟨t, d, amount⟩ : TenantDailySpend).isFor t' d' = false := by
        rw [Bool.eq_false_iff, Ne, TenantDailySpend.isFor_iff]
        exact fun heq ↦ hkey heq.symm
      simp [hrow, hkey]

/-- Setting a quota changes the quota of that tenant only. -/
theorem CostStore.quotaRow_writeQuota_of_ne (st : CostStore) {tenantId t : Option Str}
    (cap : ℚ) (found : Bool) (h : t ≠ tenantId) :
    (st.writeQuota tenantId cap found).quotaRow t = st.quotaRow t := by
  rw [CostStore.quotaRow, CostStore.quotaRow, CostStore.writeQuota]
  cases found with
  | false => simp [List.find?_append, Ne.symm h]
  | true =>
    have hne : QuotaConfig.tenantId ⟨tenantId, cap⟩ ≠ t := h.symm
    exact find?_replaceFirst_of_ne hne st.quotas

end WiseTraceLoom
