import Mathlib.Tactic.Linarith
import WiseTraceLoom.Cost
import WiseTraceLoom.Lib.Interleaving

/-!
# By how much a quota is exceeded

A call to a provider is admitted when `assert_within_quota` reads a total below the cap, and what it
has spent is recorded later.  In between other calls are admitted on the same total, so the total
goes past the cap; but every call that is admitted and has not recorded yet adds at most its bound
`c`, and the last admission has seen a total below the cap.  The invariant `Overshoot.bound` counts
the amounts of the calls in flight as if they had been recorded.

The queries are steps of their own.  What comes after a query and before the next one touches no
table, so a call is admitted when it reads the total.
-/

set_option autoImplicit false

namespace WiseTraceLoom

open Interleaving

variable {ι : Type} [DecidableEq ι] {st st' : CostStore} {tenantId spendDate : Str} {c : ℚ}
  {k : ℕ}

/-! ## Calls -/

/-- Where a request of the host stands, or a call to `set_quota_config`. -/
inductive CostCall where
  | idle
  /-- `assert_within_quota` is called. -/
  | called (tenantId spendDate : Str)
  /-- The tenant has no cap of its own. -/
  | searching (tenantId spendDate : Str)
  /-- The cap is known. -/
  | resolved (tenantId spendDate : Str) (quota : Option QuotaConfig)
  /-- `assert_within_quota` has not raised. -/
  | admitted (tenantId spendDate : Str)
  | refused (e : QuotaExceededError)
  /-- `record_spend` has added an amount. -/
  | recorded (tenantId spendDate : Str) (amountUsd : ℚ)
  /-- `set_quota_config` has looked for the row of the tenant. -/
  | configuring (tenantId : Option Str) (dailyCapUsd : ℚ) (found : Bool)
  | configured (tenantId : Option Str)
  deriving DecidableEq

/-- One step of a request. -/
inductive CostStep : CostStore → CostCall → CostStore → CostCall → Prop
  | start {st : CostStore} (t d : Str) : CostStep st .idle st (.called t d)
  | ownQuota {st : CostStore} {t d : Str} {quota : QuotaConfig}
      (h : st.quotaRow (some t) = some quota) :
      CostStep st (.called t d) st (.resolved t d (some quota))
  | noOwnQuota {st : CostStore} {t d : Str} (h : st.quotaRow (some t) = none) :
      CostStep st (.called t d) st (.searching t d)
  | defaultQuota {st : CostStore} {t d : Str} :
      CostStep st (.searching t d) st (.resolved t d (st.quotaRow none))
  | noQuota {st : CostStore} {t d : Str} :
      CostStep st (.resolved t d none) st (.admitted t d)
  | withinQuota {st : CostStore} {t d : Str} {quota : QuotaConfig}
      (h : st.getDailySpend t d < quota.dailyCapUsd) :
      CostStep st (.resolved t d (some quota)) st (.admitted t d)
  | refuse {st : CostStore} {t d : Str} {quota : QuotaConfig}
      (h : quota.dailyCapUsd ≤ st.getDailySpend t d) :
      CostStep st (.resolved t d (some quota)) st
        (.refused ⟨t, st.getDailySpend t d, quota.dailyCapUsd⟩)
  | record {st : CostStore} {t d : Str} (amount : ℚ) :
      CostStep st (.admitted t d) (st.recordSpend t d amount) (.recorded t d amount)
  | configure {st : CostStore} (t : Option Str) (cap : ℚ) :
      CostStep st .idle st (.configuring t cap (st.quotaRow t).isSome)
  | writeQuota {st : CostStore} {t : Option Str} {cap : ℚ} {found : Bool} :
      CostStep st (.configuring t cap found) (st.writeQuota t cap found) (.configured t)
  | again {st : CostStore} {call : CostCall}
      (h : (∃ e, call = .refused e) ∨ (∃ t d a, call = .recorded t d a) ∨
        ∃ t, call = .configured t) : CostStep st call st .idle

/-- The state in which `assert_within_quota` ends. -/
def CostCall.ofResult (tenantId spendDate : Str) : Except QuotaExceededError Unit → CostCall
  | .ok () => .admitted tenantId spendDate
  | .error e => .refused e

/-- **The two views agree**: `assert_within_quota` on its own is a run of these steps. -/
theorem assertWithinQuota_steps (st : CostStore) (t d : Str) :
    Solo CostStep (st, .called t d) (st, .ofResult t d (assertWithinQuota st t d)) := by
  have hresolved : Solo CostStep (st, .called t d)
      (st, .resolved t d (getQuotaConfig st (some t))) := by
    rw [getQuotaConfig, Option.bind_some]
    cases hown : st.quotaRow (some t) with
    | some quota => exact Solo.step .refl (.ownQuota hown)
    | none => exact (Solo.step .refl (.noOwnQuota hown)).step .defaultQuota
  rw [assertWithinQuota]
  cases hquota : getQuotaConfig st (some t) with
  | none =>
    rw [hquota] at hresolved
    exact hresolved.step .noQuota
  | some quota =>
    rw [hquota] at hresolved
    dsimp only
    split_ifs with hcap
    · exact hresolved.step (.refuse hcap)
    · exact hresolved.step (.withinQuota (lt_of_not_ge hcap))

/-! ## Requests of one tenant on one day -/

/-- What is fixed: a tenant, a day, the bound on what a call records, and how many calls are in
flight at most. -/
structure Overshoot where
  tenantId : Str
  spendDate : Str
  /-- The bound of a call. -/
  c : ℚ
  /-- The number of calls. -/
  k : ℕ

/-- The call was admitted and has not recorded what it spent. -/
def Overshoot.InFlight (o : Overshoot) (call : CostCall) : Prop :=
  call = .admitted o.tenantId o.spendDate

/-- What a call has recorded for the tenant and the day. -/
def Overshoot.amount (o : Overshoot) : CostCall → Option ℚ
  | .recorded t d a => if (o.tenantId, o.spendDate) = (t, d) then some a else none
  | _ => none

/-- A step that a run may take: what is recorded for the tenant and the day is within the bound, and
no more than `k` calls are in flight; and nobody sets the rows that the cap comes from. -/
def Overshoot.Allowed (o : Overshoot) (x : Config ι CostStore CostCall) (i : ι)
    (st' : CostStore) (call' : CostCall) : Prop :=
  CostStep x.shared (x.locals i) st' call' ∧
  (∀ a, o.amount call' = some a → 0 ≤ a ∧ a ≤ o.c) ∧
  ((x.set i st' call').threads o.InFlight).encard ≤ o.k ∧
  call' ≠ .configured (some o.tenantId) ∧ call' ≠ .configured none

variable {o : Overshoot} {call call' : CostCall} {start : CostStore} {quota : QuotaConfig}
  {l : List CostCall} {x y : Config ι CostStore CostCall} {i : ι}

/-! ## What a step does -/

theorem Overshoot.inFlight_admitted {t d : Str} :
    o.InFlight (.admitted t d) ↔ (o.tenantId, o.spendDate) = (t, d) := by
  rw [Overshoot.InFlight, CostCall.admitted.injEq, Prod.mk.injEq, eq_comm, @eq_comm _ d]

theorem Overshoot.not_inFlight (h : ∀ t d, call ≠ .admitted t d) : ¬o.InFlight call := h _ _

/-- **A step and the tenant's day**: a call is admitted, an amount is recorded, or neither. -/
theorem CostStep.effect (h : CostStep st call st' call') (o : Overshoot) :
    (¬o.InFlight call ∧ o.InFlight call' ∧ st' = st ∧
      (call = .resolved o.tenantId o.spendDate none ∨
        ∃ quota, call = .resolved o.tenantId o.spendDate (some quota) ∧
          st.getDailySpend o.tenantId o.spendDate < quota.dailyCapUsd)) ∨
    (o.InFlight call ∧ ¬o.InFlight call' ∧ ∃ a, o.amount call' = some a ∧
      st'.getDailySpend o.tenantId o.spendDate = st.getDailySpend o.tenantId o.spendDate + a) ∨
    (¬o.InFlight call ∧ ¬o.InFlight call' ∧ o.amount call' = none ∧
      st'.getDailySpend o.tenantId o.spendDate = st.getDailySpend o.tenantId o.spendDate) := by
  cases h with
  | @noQuota t d =>
    have hcall : ¬o.InFlight (.resolved t d none) := o.not_inFlight (by simp)
    by_cases hkey : (o.tenantId, o.spendDate) = (t, d)
    · refine Or.inl ⟨hcall, o.inFlight_admitted.mpr hkey, rfl, Or.inl ?_⟩
      cases hkey
      rfl
    · exact Or.inr (Or.inr ⟨hcall, mt o.inFlight_admitted.mp hkey, rfl, rfl⟩)
  | @withinQuota t d quota h =>
    have hcall : ¬o.InFlight (.resolved t d (some quota)) := o.not_inFlight (by simp)
    by_cases hkey : (o.tenantId, o.spendDate) = (t, d)
    · refine Or.inl ⟨hcall, o.inFlight_admitted.mpr hkey, rfl, Or.inr ⟨quota, ?_⟩⟩
      cases hkey
      exact ⟨rfl, h⟩
    · exact Or.inr (Or.inr ⟨hcall, mt o.inFlight_admitted.mp hkey, rfl, rfl⟩)
  | @record t d a =>
    have hcall' : ¬o.InFlight (.recorded t d a) := o.not_inFlight (by simp)
    rw [CostStore.getDailySpend_recordSpend]
    by_cases hkey : (o.tenantId, o.spendDate) = (t, d)
    · exact Or.inr (Or.inl ⟨o.inFlight_admitted.mpr hkey, hcall', a, if_pos hkey,
        by rw [if_pos hkey]⟩)
    · exact Or.inr (Or.inr ⟨mt o.inFlight_admitted.mp hkey, hcall', if_neg hkey,
        by rw [if_neg hkey, add_zero]⟩)
  | again h =>
    refine Or.inr (Or.inr ⟨?_, o.not_inFlight (by simp), rfl, rfl⟩)
    rcases h with ⟨e, rfl⟩ | ⟨t, d, a, rfl⟩ | ⟨t, rfl⟩ <;> exact o.not_inFlight (by simp)
  | _ => exact Or.inr (Or.inr ⟨o.not_inFlight (by simp), o.not_inFlight (by simp), rfl, rfl⟩)

/-- Quotas are set by `set_quota_config` only. -/
theorem CostStep.quotaRow_eq (h : CostStep st call st' call') {t : Option Str}
    (ht : call' ≠ .configured t) : st'.quotaRow t = st.quotaRow t := by
  cases h with
  | writeQuota => exact st.quotaRow_writeQuota_of_ne _ _ fun heq ↦ ht (heq ▸ rfl)
  | _ => rfl

/-- What a call of the tenant knows of its quota. -/
def CostCall.Knows (tenantId : Str) (st : CostStore) : CostCall → Prop
  | .searching t _ => t = tenantId → st.quotaRow (some tenantId) = none
  | .resolved t _ quota => t = tenantId → quota = getQuotaConfig st (some tenantId)
  | _ => True

theorem CostStep.knows (h : CostStep st call st' call') (hcall : call.Knows tenantId st) :
    call'.Knows tenantId st' := by
  cases h with
  | ownQuota h =>
    rintro rfl
    rw [getQuotaConfig, Option.bind_some, h]
    rfl
  | noOwnQuota h => exact fun ht ↦ ht ▸ h
  | defaultQuota =>
    intro ht
    rw [getQuotaConfig, Option.bind_some, hcall ht]
    rfl
  | _ => trivial

/-- What is known stays true while nobody sets the rows that the cap comes from. -/
theorem CostCall.Knows.mono (h : call.Knows tenantId st)
    (hown : st'.quotaRow (some tenantId) = st.quotaRow (some tenantId))
    (hdefault : st'.quotaRow none = st.quotaRow none) : call.Knows tenantId st' := by
  cases call with
  | searching t d => exact fun ht ↦ hown.trans (h ht)
  | resolved t d quota =>
    intro ht
    rw [h ht, getQuotaConfig, getQuotaConfig, Option.bind_some, Option.bind_some, hown, hdefault]
  | _ => trivial

/-! ## The invariant -/

/-- What holds after a run from `start` with history `l`, if the cap is that of `quota`. -/
structure Overshoot.Ok (o : Overshoot) (start : CostStore) (quota : QuotaConfig)
    (l : List CostCall) (x : Config ι CostStore CostCall) : Prop where
  /-- The cap is still the same. -/
  cap : getQuotaConfig x.shared (some o.tenantId) = some quota
  /-- All calls of the tenant know it. -/
  knows : ∀ i, (x.locals i).Knows o.tenantId x.shared
  finite : (x.threads o.InFlight).Finite
  /-- Nothing that was recorded is lost. -/
  total : x.shared.getDailySpend o.tenantId o.spendDate =
    start.getDailySpend o.tenantId o.spendDate + (l.filterMap o.amount).sum
  /-- The total stays below the bound even when all calls in flight record the most they may. -/
  bound : (∃ call ∈ l, o.InFlight call) →
    x.shared.getDailySpend o.tenantId o.spendDate + (x.threads o.InFlight).ncard * o.c <
      quota.dailyCapUsd + o.k * o.c

/-- A call that is admitted has seen a total below the cap. -/
theorem CostStep.below_cap (h : CostStep st call st' call') (hknows : call.Knows o.tenantId st)
    (hquota : getQuotaConfig st (some o.tenantId) = some quota) (hcall : ¬o.InFlight call)
    (hcall' : o.InFlight call') :
    st' = st ∧ st.getDailySpend o.tenantId o.spendDate < quota.dailyCapUsd := by
  rcases h.effect o with ⟨-, -, rfl, rfl | ⟨quota', rfl, hbelow⟩⟩ | ⟨hflight, -⟩ | ⟨-, hnot, -⟩
  · cases (hknows rfl).trans hquota
  · cases (hknows rfl).trans hquota
    exact ⟨rfl, hbelow⟩
  · exact absurd hflight hcall
  · exact absurd hcall' hnot

/-- **One step.** -/
theorem Overshoot.Ok.step (h : o.Ok start quota l x) (hc : 0 ≤ o.c)
    (hallowed : o.Allowed x i st' call') : o.Ok start quota (l ++ [call']) (x.set i st' call') := by
  obtain ⟨hstep, hamount, hk, hown, hdefault⟩ := hallowed
  have hown' := hstep.quotaRow_eq hown
  have hdefault' := hstep.quotaRow_eq hdefault
  have hquota : getQuotaConfig st' (some o.tenantId) = some quota := by
    rw [← h.cap, getQuotaConfig, getQuotaConfig, Option.bind_some, Option.bind_some, hown',
      hdefault']
  have hknows (j : ι) : ((x.set i st' call').locals j).Knows o.tenantId st' :=
    Config.forall_locals (P := fun _ (call : CostCall) ↦ call.Knows o.tenantId st')
      (hstep.knows (h.knows i)) (fun j _ ↦ (h.knows j).mono hown' hdefault') j
  have hfinite : ((x.set i st' call').threads o.InFlight).Finite :=
    Set.finite_of_encard_le_coe hk
  have hbefore {P : Prop} (hcall : ¬o.InFlight call') :
      ((∃ call ∈ l ++ [call'], o.InFlight call) → P) ↔ ((∃ call ∈ l, o.InFlight call) → P) := by
    simp [or_and_right, exists_or, hcall]
  rcases hstep.effect o with ⟨hcall, hcall', -⟩ | ⟨hcall, hcall', a, ha, htotal⟩ |
    ⟨hcall, hcall', ha, htotal⟩
  · -- a call is admitted: the bound holds anew, whatever was before
    obtain ⟨rfl, hbelow⟩ := hstep.below_cap (h.knows i) h.cap hcall hcall'
    have hamount : o.amount call' = none := by
      rw [hcall']
      rfl
    refine ⟨hquota, hknows, hfinite, ?_, fun _ ↦ ?_⟩
    · simpa [hamount] using h.total
    · have hcard : ((x.set i x.shared call').threads o.InFlight).ncard ≤ o.k := by
        rw [← Nat.cast_le (α := ℕ∞), hfinite.cast_ncard_eq]
        exact hk
      have hmul : (((x.set i x.shared call').threads o.InFlight).ncard : ℚ) * o.c ≤ o.k * o.c :=
        mul_le_mul_of_nonneg_right (Nat.cast_le.mpr hcard) hc
      exact add_lt_add_of_lt_of_le hbelow hmul
  · -- an amount is recorded: what was counted for the call covers it
    obtain ⟨-, hle⟩ := hamount a ha
    refine ⟨hquota, hknows, hfinite, ?_, (hbefore hcall').mpr fun hadmitted ↦ ?_⟩
    · rw [Config.set_shared, htotal, h.total]
      simp [ha, add_assoc]
    · have hcard : ((x.set i st' call').threads o.InFlight).ncard + 1 =
          (x.threads o.InFlight).ncard := by
        rw [x.threads_set_of_neg st' hcall']
        exact Set.ncard_sdiff_singleton_add_one hcall h.finite
      have hbound := h.bound hadmitted
      rw [← hcard] at hbound
      rw [Config.set_shared, htotal]
      push_cast at hbound
      linarith
  · have hsame : (x.set i st' call').threads o.InFlight = x.threads o.InFlight :=
      x.threads_set_of_iff st' (iff_of_false hcall' hcall)
    refine ⟨hquota, hknows, hfinite, ?_, (hbefore hcall').mpr fun hadmitted ↦ ?_⟩
    · rw [Config.set_shared, htotal, h.total]
      simp [ha]
    · rw [Config.set_shared, htotal, hsame]
      exact h.bound hadmitted

/-- Nothing has been called yet. -/
def costStart (ι : Type) (start : CostStore) : Config ι CostStore CostCall := ⟨start, fun _ ↦ .idle⟩

/-- **The invariant holds after every run.** -/
theorem Overshoot.ok (hc : 0 ≤ o.c) (hquota : getQuotaConfig start (some o.tenantId) = some quota)
    (hrun : Trace o.Allowed (costStart ι start) l x) : o.Ok start quota l x := by
  induction hrun with
  | nil =>
    have hnobody : (costStart ι start).threads o.InFlight = ∅ :=
      Set.eq_empty_of_forall_notMem fun _ ↦ o.not_inFlight (by simp [costStart])
    refine ⟨hquota, fun _ ↦ trivial, ?_, by simp [costStart], by simp⟩
    rw [hnobody]
    exact Set.finite_empty
  | snoc _ hallowed ih => exact ih.step hc hallowed

/-- A total that has reached the cap does not fall below it, and nobody is admitted any more. -/
theorem Overshoot.Ok.closed (h : o.Ok start quota l x) (hc : 0 ≤ o.c) {l' : List CostCall}
    (hreached : quota.dailyCapUsd ≤ x.shared.getDailySpend o.tenantId o.spendDate)
    (hrun : Trace o.Allowed x l' y) :
    quota.dailyCapUsd ≤ y.shared.getDailySpend o.tenantId o.spendDate ∧
      ∀ call ∈ l', ¬o.InFlight call := by
  suffices hall : o.Ok start quota (l ++ l') y ∧
      quota.dailyCapUsd ≤ y.shared.getDailySpend o.tenantId o.spendDate ∧
        ∀ call ∈ l', ¬o.InFlight call from hall.2
  induction hrun with
  | nil => exact ⟨by rwa [List.append_nil], hreached, by simp⟩
  | @snoc l' y i st' call' _ hallowed ih =>
    obtain ⟨hok, hcap, hnobody⟩ := ih
    have hok' := hok.step hc hallowed
    have hstep := hallowed.1
    rw [List.append_assoc] at hok'
    have hnot : ¬o.InFlight call' ∧
        quota.dailyCapUsd ≤ st'.getDailySpend o.tenantId o.spendDate := by
      rcases hstep.effect o with ⟨hcall, hcall', -⟩ | ⟨-, hcall', a, ha, htotal⟩ |
        ⟨-, hcall', -, htotal⟩
      · exact absurd hcap (hstep.below_cap (hok.knows i) hok.cap hcall hcall').2.not_ge
      · have hpos := (hallowed.2.1 a ha).1
        exact ⟨hcall', by linarith⟩
      · exact ⟨hcall', htotal ▸ hcap⟩
    refine ⟨hok', hnot.2, fun call hmem ↦ ?_⟩
    rcases List.mem_append.mp hmem with hmem | hmem
    · exact hnobody call hmem
    · rw [List.mem_singleton.mp hmem]
      exact hnot.1

/-- **The quota is exceeded by less than the calls in flight can spend.**  In every run in which at
most `k` calls are in flight, each of which records between `0` and `c`, the total of the day is
below the cap plus `k * c` from the first admission on; once it has reached the cap no call is
admitted any more; and it is what it was before plus all that has been recorded. -/
theorem quota_overshoot (hc : 0 ≤ o.c)
    (hquota : getQuotaConfig start (some o.tenantId) = some quota)
    (hrun : Trace o.Allowed (costStart ι start) l x) :
    ((∃ call ∈ l, o.InFlight call) →
      x.shared.getDailySpend o.tenantId o.spendDate < quota.dailyCapUsd + o.k * o.c) ∧
    (quota.dailyCapUsd ≤ x.shared.getDailySpend o.tenantId o.spendDate →
      ∀ l' y, Trace o.Allowed x l' y → ∀ call ∈ l', ¬o.InFlight call) ∧
    x.shared.getDailySpend o.tenantId o.spendDate =
      start.getDailySpend o.tenantId o.spendDate + (l.filterMap o.amount).sum := by
  have hok := o.ok hc hquota hrun
  refine ⟨fun hadmitted ↦ ?_, fun hreached l' y hrun' ↦ (hok.closed hc hreached hrun').2, hok.total⟩
  have hflight : (0 : ℚ) ≤ (x.threads o.InFlight).ncard * o.c :=
    mul_nonneg (Nat.cast_nonneg _) hc
  exact (le_add_of_nonneg_right hflight).trans_lt (hok.bound hadmitted)

/-! ### Two calls in flight

The cap is 10, a call spends 6, and both calls are admitted before either has recorded. -/

/-- Two calls at a time, each of at most 6. -/
def acmeOvershoot : Overshoot := ⟨"acme".toList, "2026-01-01".toList, 6, 2⟩

/-- The cap. -/
def acmeQuota : QuotaConfig := ⟨some "acme".toList, 10⟩

/-- What two threads can do one after the other. -/
theorem acme_allowed {x : Config Bool CostStore CostCall} {i : Bool} {st' : CostStore}
    {call' : CostCall} (hstep : CostStep x.shared (x.locals i) st' call')
    (hamount : ∀ a, acmeOvershoot.amount call' = some a → 0 ≤ a ∧ a ≤ 6)
    (hown : call' ≠ .configured (some "acme".toList)) (hdefault : call' ≠ .configured none) :
    acmeOvershoot.Allowed x i st' call' := by
  refine ⟨hstep, hamount, ?_, hown, hdefault⟩
  refine (Set.encard_le_encard (Set.subset_univ _)).trans ?_
  rw [Set.encard_univ, ENat.card_eq_coe_fintype_card]
  rfl

/-- The total passes the cap and stays below the bound. -/
theorem acme_overshoot : ∃ (l : List CostCall) (x : Config Bool CostStore CostCall),
    Trace acmeOvershoot.Allowed (costStart Bool ⟨[acmeQuota], []⟩) l x ∧
    acmeOvershoot.tenantId = "acme".toList ∧
    x.shared.getDailySpend "acme".toList "2026-01-01".toList = 12 ∧
    x.shared.getDailySpend "acme".toList "2026-01-01".toList < 10 + 2 * 6 := by
  let t := "acme".toList
  let d := "2026-01-01".toList
  have hsix : ∀ a, acmeOvershoot.amount (.recorded t d 6) = some a → 0 ≤ a ∧ a ≤ 6 := by
    intro a ha
    rw [Overshoot.amount, if_pos (by rfl)] at ha
    cases ha
    exact ⟨by norm_num, le_rfl⟩
  have hbelow : (⟨[acmeQuota], []⟩ : CostStore).getDailySpend t d < acmeQuota.dailyCapUsd := by
    decide
  have hcalled := fun a ↦ (by simp [Overshoot.amount] :
    acmeOvershoot.amount (.called t d) = some a → 0 ≤ a ∧ a ≤ 6)
  have hresolved := fun a ↦ (by simp [Overshoot.amount] :
    acmeOvershoot.amount (.resolved t d (some acmeQuota)) = some a → 0 ≤ a ∧ a ≤ 6)
  have hadmitted := fun a ↦ (by simp [Overshoot.amount] :
    acmeOvershoot.amount (.admitted t d) = some a → 0 ≤ a ∧ a ≤ 6)
  have h0 : Trace acmeOvershoot.Allowed (costStart Bool ⟨[acmeQuota], []⟩) [] _ := .nil
  have h1 := h0.snoc (acme_allowed (i := true) (.start t d) hcalled (by simp) (by simp))
  have h2 := h1.snoc (acme_allowed (i := false) (.start t d) hcalled (by simp) (by simp))
  have h3 := h2.snoc (acme_allowed (i := true) (.ownQuota rfl) hresolved (by simp) (by simp))
  have h4 := h3.snoc (acme_allowed (i := false) (.ownQuota rfl) hresolved (by simp) (by simp))
  have h5 := h4.snoc (acme_allowed (i := true) (.withinQuota hbelow) hadmitted (by simp) (by simp))
  have h6 := h5.snoc (acme_allowed (i := false) (.withinQuota hbelow) hadmitted (by simp) (by simp))
  have h7 := h6.snoc (acme_allowed (i := true) (.record 6) hsix (by simp) (by simp))
  have h8 := h7.snoc (acme_allowed (i := false) (.record 6) hsix (by simp) (by simp))
  have hquota : getQuotaConfig ⟨[acmeQuota], []⟩ (some acmeOvershoot.tenantId) = some acmeQuota :=
    rfl
  obtain ⟨hbound, -, -⟩ := quota_overshoot (by norm_num [acmeOvershoot]) hquota h8
  have hlimit : acmeQuota.dailyCapUsd + acmeOvershoot.k * acmeOvershoot.c = 10 + 2 * 6 := by
    norm_num [acmeQuota, acmeOvershoot]
  have htwice : (((⟨[acmeQuota], []⟩ : CostStore).recordSpend t d 6).recordSpend t d
      6).getDailySpend t d = 12 := by
    have hnothing : (⟨[acmeQuota], []⟩ : CostStore).getDailySpend t d = 0 := rfl
    rw [CostStore.getDailySpend_recordSpend, CostStore.getDailySpend_recordSpend, if_pos rfl,
      hnothing]
    norm_num
  refine ⟨_, _, h8, rfl, htwice, ?_⟩
  rw [← hlimit]
  exact hbound ⟨.admitted t d, by simp, rfl⟩

end WiseTraceLoom
