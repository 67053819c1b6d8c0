import WiseTraceLoom.Cost.Attribution
import WiseTraceLoom.OtelExport.OptIn
import WiseTraceLoom.Residency.Cache
import WiseTraceLoom.Rotation

/-!
# Settings

Seven tables hold what a host has set: log rotation, redaction, export, storage, quotas, prices and
regions.  Each has a setter that updates the row of a tenant or inserts one, and a getter that looks
for the tenant's own row, then for the global one, and then has a default of its own or none.

The tables are written one at a time here, by calls that come one after the other and may fail:
before their commit, or in the refresh after it (`SettingOutcome`).  The getters for export, storage
and regions have a cache, which the setter clears after its refresh and not before.

* `foldl_or` — a lookup that every call either answers or leaves alone is answered by the last call
  that has answered it.
* `Coherent.foldl` — a cache stays right as long as no refresh of its setter fails.
* `settings_follow_history` — every getter returns what was last committed for its tenant, or else
  what was last committed globally, whatever was set for others and in the other tables.
-/

set_option autoImplicit false

namespace WiseTraceLoom

/-! ## The last answer -/

/-- **What the last of many calls has left**, for a lookup that every single call either answers or
leaves alone. -/
theorem foldl_or {σ γ ν : Type} {run : σ → γ → σ} (look : σ → Option ν) {answer : γ → Option ν}
    (h : ∀ s c, look (run s c) = (answer c).or (look s)) (calls : List γ) (s : σ) :
    look (calls.foldl run s) = (calls.filterMap answer).getLast?.or (look s) := by
  induction calls generalizing s with
  | nil => rfl
  | cons c calls ih =>
    rw [List.foldl_cons, ih, h, List.filterMap_cons]
    cases answer c with
    | none => rfl
    | some v =>
      show _ = (v :: calls.filterMap answer).getLast?.or (look s)
      rw [List.getLast?_cons, Option.some_or, Option.some_or]
      cases (calls.filterMap answer).getLast? <;> rfl

/-! ## A cache in front of a lookup -/

section

variable {κ β : Type} {load : κ → β} {entries : κ → Option β}

/-- The entries are what the lookup returns. -/
def Coherent (load : κ → β) (entries : κ → Option β) : Prop :=
  ∀ k v, entries k = some v → v = load k

theorem Coherent.empty (load : κ → β) : Coherent load fun _ ↦ none := fun _ _ hv ↦ by cases hv

variable [DecidableEq κ]

/-- A lookup through a cache, with the entries after it. -/
def cachedLookup (load : κ → β) (entries : κ → Option β) (k : κ) : β × (κ → Option β) :=
  match entries k with
  | some v => (v, entries)
  | none => (load k, Function.update entries k (some (load k)))

/-- A cache that is right cannot be told from the lookup. -/
theorem Coherent.cachedLookup (h : Coherent load entries) (k : κ) :
    (cachedLookup load entries k).1 = load k ∧
      Coherent load (WiseTraceLoom.cachedLookup load entries k).2 := by
  rw [WiseTraceLoom.cachedLookup]
  cases hentry : entries k with
  | some v => exact ⟨h k v hentry, h⟩
  | none =>
    refine ⟨rfl, fun k' v hv ↦ ?_⟩
    have hv' : (if k' = k then some (load k) else entries k') = some v :=
      (Function.update_apply entries k (some (load k)) k').symm.trans hv
    split_ifs at hv' with hk
    · rw [← Option.some.inj hv', hk]
    · exact h k' v hv'

end

/-! ## Rows -/

section

variable {α κ : Type} [DecidableEq κ] (key : α → κ)

/-- A row written over the first one of its key, or added. -/
def putRow (row : α) (rows : List α) : List α :=
  if (rows.find? fun a ↦ key a = key row).isSome then
    replaceFirst (fun a ↦ key a = key row) row rows
  else rows ++ [row]

/-- A row that was put is found under its key, and the others as before. -/
theorem find?_putRow (row : α) (rows : List α) (k : κ) :
    (putRow key row rows).find? (fun a ↦ key a = k) =
      if key row = k then some row else rows.find? fun a ↦ key a = k := by
  rw [putRow]
  split_ifs with hfound hk hk
  all_goals first
    | have hold : ∃ a ∈ rows, key a = key row := by simpa using hfound
      rw [find?_replaceFirst hold]
      simp [hk]
    | have hfresh : ∀ a ∈ rows, key a ≠ key row := by simpa using hfound
      rw [find?_append_of_fresh hfresh]
      simp [hk]

end

/-- The row of `rotationconfig` that a tenant, or everyone, has. -/
structure RotationRow where
  /-- The tenant, `none` for the global row. -/
  tenantId : Option Str
  /-- The log file, `none` for the console. -/
  logFilePath : Option Str
  /-- How it is rotated. -/
  config : RotationConfig
  deriving DecidableEq

/-- What `get_rotation_config` returns when there is no row. -/
def RotationRow.default : RotationRow where
  tenantId := none
  logFilePath := none
  config := { maxSizeMb := some 50, rotationInterval := some "midnight".toList, backupCount := 7 }

/-- A row of `redactionconfig`. -/
structure RedactionConfig where
  /-- The tenant, `none` for the global row. -/
  tenantId : Option Str
  /-- The model of the optional recogniser of names. -/
  presidioSpacyModel : Str
  deriving DecidableEq

/-- `RedactionConfig()`. -/
def RedactionConfig.default : RedactionConfig := ⟨none, "en_core_web_sm".toList⟩

/-- Everything that can be set. -/
structure Settings where
  /-- Log rotation. -/
  rotations : List RotationRow
  /-- Redaction. -/
  redactions : List RedactionConfig
  /-- Export. -/
  optIn : OptIn
  /-- Storage. -/
  store : Store
  /-- `_storage_config_cache`, for the one store of the process. -/
  storageEntries : Option Str → Option StorageConfig
  /-- Quotas and prices. -/
  cost : CostTables
  /-- Regions. -/
  regions : RegionCache

/-! ## Getters -/

/-- The row of the tenant, or else the global one. -/
def ownOrGlobal {α : Type} (row : Option Str → Option α) (tenantId : Option Str) : Option α :=
  (tenantId.bind fun t ↦ row (some t)).or (row none)

/-- `get_rotation_config`. -/
def getRotationConfig (s : Settings) : Option Str → RotationRow := fun t ↦
  (ownOrGlobal (fun k ↦ s.rotations.find? fun row ↦ row.tenantId = k) t).getD .default

/-- `get_redaction_config`. -/
def getRedactionConfig (s : Settings) : Option Str → RedactionConfig := fun t ↦
  (ownOrGlobal (fun k ↦ s.redactions.find? fun row ↦ row.tenantId = k) t).getD .default

/-- `_load_export_config`. -/
def loadExportConfig (x : OptIn) (t : Option Str) : ExportConfig :=
  (ownOrGlobal x.row t).getD .default

/-- `get_export_config`, with the cache after it. -/
def getExportConfig (x : OptIn) (t : Option Str) : ExportConfig × OptIn :=
  let (config, entries) := cachedLookup (loadExportConfig x) x.entries t
  (config, { x with entries })

/-- `get_storage_config`, with the cache after it. -/
def Settings.getStorageConfig (s : Settings) (t : Option Str) : StorageConfig × Settings :=
  let (config, storageEntries) := cachedLookup (loadStorageConfig s.store) s.storageEntries t
  (config, { s with storageEntries })

/-- `get_region_config`, with the cache after it. -/
def RegionCache.getRegionConfig (x : RegionCache) (t : Option Str) :
    Option RegionConfig × RegionCache :=
  let (config, entries) := cachedLookup x.routing.getRegionConfig x.entries t
  (config, { x with entries })

/-! ## Setters -/

/-- A call of a setter, or of a getter that writes its cache. -/
inductive Setting where
  | rotation (row : RotationRow)
  | redaction (row : RedactionConfig)
  | optIn (row : ExportConfig)
  | storage (row : StorageConfig)
  | quota (row : QuotaConfig)
  | pricing (row : PricingConfig)
  | region (row : RegionConfig)
  | exportLookup (tenantId : Option Str)
  | storageLookup (tenantId : Option Str)
  | regionLookup (tenantId : Option Str)

/-- How a call has ended. -/
inductive SettingOutcome where
  /-- It has raised, and nothing was committed. -/
  | rolledBack
  /-- The refresh after the commit has raised. -/
  | unrefreshed
  | returned
  deriving DecidableEq

/-- A call and how it has ended. -/
structure SettingCall where
  /-- The call. -/
  setting : Setting
  /-- How it has ended. -/
  outcome : SettingOutcome

/-- The entries of a cache after a commit: it is cleared unless the refresh raises. -/
def SettingOutcome.refresh {κ β : Type} (outcome : SettingOutcome) (entries : κ → Option β) :
    κ → Option β :=
  if outcome = .returned then fun _ ↦ none else entries

/-- `set_export_config`. -/
def setExportConfig (x : OptIn) (row : ExportConfig) (outcome : SettingOutcome) : OptIn :=
  let x' := x.write row.tenantId row.genAiSemconvEnabled (x.row row.tenantId)
  { x' with entries := outcome.refresh x.entries }

/-- `set_region_config`. -/
def setRegionConfig (x : RegionCache) (row : RegionConfig) (outcome : SettingOutcome) :
    RegionCache where
  routing := x.routing.writeRegion row.tenantId row.region (x.routing.row row.tenantId)
  entries := outcome.refresh x.entries

/-- What a call that has committed does. -/
def Settings.commit (s : Settings) (outcome : SettingOutcome) : Setting → Settings
  | .rotation row => { s with rotations := putRow RotationRow.tenantId row s.rotations }
  | .redaction row => { s with redactions := putRow RedactionConfig.tenantId row s.redactions }
  | .optIn row => { s with optIn := setExportConfig s.optIn row outcome }
  | .storage row =>
    { s with
      store := setStorageConfig s.store row
      storageEntries := outcome.refresh s.storageEntries }
  | .quota row =>
    let quotas := s.cost.store
    let found := (quotas.quotaRow row.tenantId).isSome
    { s with cost := { s.cost with store := quotas.writeQuota row.tenantId row.dailyCapUsd found } }
  | .pricing row =>
    let found := (pricingRow s.cost.prices row.tenantId row.providerName row.requestModel).isSome
    { s with cost := s.cost.writePricing row found }
  | .region row => { s with regions := setRegionConfig s.regions row outcome }
  | .exportLookup t => { s with optIn := (getExportConfig s.optIn t).2 }
  | .storageLookup t => (s.getStorageConfig t).2
  | .regionLookup t => { s with regions := (s.regions.getRegionConfig t).2 }

/-- A call, with what comes of it. -/
def Settings.run (s : Settings) (c : SettingCall) : Settings :=
  if c.outcome = .rolledBack then s else s.commit c.outcome c.setting

/-! ## What was set -/

/-- The row a call of `set_rotation_config` writes. -/
def Setting.rotation? : Setting → Option RotationRow
  | .rotation row => some row
  | _ => none

/-- The row a call of `set_redaction_config` writes. -/
def Setting.redaction? : Setting → Option RedactionConfig
  | .redaction row => some row
  | _ => none

/-- The row a call of `set_export_config` writes. -/
def Setting.export? : Setting → Option ExportConfig
  | .optIn row => some row
  | _ => none

/-- The row a call of `set_storage_config` writes. -/
def Setting.storage? : Setting → Option StorageConfig
  | .storage row => some row
  | _ => none

/-- The row a call of `set_quota_config` writes. -/
def Setting.quota? : Setting → Option QuotaConfig
  | .quota row => some row
  | _ => none

/-- The row a call of `set_pricing_config` writes. -/
def Setting.pricing? : Setting → Option PricingConfig
  | .pricing row => some row
  | _ => none

/-- The row a call of `set_region_config` writes. -/
def Setting.region? : Setting → Option RegionConfig
  | .region row => some row
  | _ => none

section

variable {α κ : Type} [DecidableEq κ]

/-- The row a call has committed to a table under a key. -/
def SettingCall.wrote (kind : Setting → Option α) (key : α → κ) (k : κ) (c : SettingCall) :
    Option α :=
  if c.outcome = .rolledBack then none else (kind c.setting).filter fun row ↦ key row = k

/-- The row that was last committed to a table under a key. -/
def lastSet (calls : List SettingCall) (kind : Setting → Option α) (key : α → κ) (k : κ) :
    Option α :=
  (calls.filterMap (SettingCall.wrote kind key k)).getLast?

/-- **A table is what was last committed to it** if a commit answers every lookup with its row, and
leaves the other lookups alone. -/
theorem look_run (look : Settings → κ → Option α) {kind : Setting → Option α} {key : α → κ}
    (h : ∀ s o a k, look (Settings.commit s o a) k =
      ((kind a).filter fun row ↦ key row = k).or (look s k))
    (calls : List SettingCall) (s : Settings) (k : κ) :
    look (calls.foldl Settings.run s) k = (lastSet calls kind key k).or (look s k) := by
  refine foldl_or (fun s ↦ look s k) (fun s c ↦ ?_) calls s
  show look (Settings.run s c) k = _
  rw [Settings.run, SettingCall.wrote]
  split_ifs
  · rfl
  · exact h s c.outcome c.setting k

theorem filter_some (row : α) (key : α → κ) (k : κ) (old : Option α) :
    ((some row).filter fun row ↦ key row = k).or old = if key row = k then some row else old := by
  rw [Option.filter_some]
  by_cases hk : key row = k <;> simp [hk]

end

theorem row_setExportConfig (x : OptIn) (row : ExportConfig) (o : SettingOutcome)
    (k : Option Str) :
    (setExportConfig x row o).row k = if row.tenantId = k then some row else x.row k := by
  show (x.write row.tenantId row.genAiSemconvEnabled (x.row row.tenantId)).row k = _
  split_ifs with hk
  · rw [← hk]
    exact x.row_write row.tenantId row.genAiSemconvEnabled
  · exact x.row_write_of_ne row.genAiSemconvEnabled _ hk

theorem Routing.row_writeRegion (r : Routing) (row : RegionConfig) (k : Option Str) :
    (r.writeRegion row.tenantId row.region (r.row row.tenantId)).row k =
      if row.tenantId = k then some row else r.row k := by
  cases hrow : r.row row.tenantId with
  | none =>
    have hfresh : ∀ old ∈ r.regionConfigs, old.tenantId ≠ row.tenantId := by
      simpa [Routing.row] using hrow
    exact @find?_append_of_fresh _ _ _ RegionConfig.tenantId row _ hfresh k
  | some old =>
    have hold : old.tenantId = row.tenantId ∧ old ∈ r.regionConfigs :=
      ⟨by simpa using List.find?_some hrow, List.mem_of_find?_eq_some hrow⟩
    show List.find? _ (ite _ _ _) = _
    split_ifs with hsame hk hk
    · rw [← hk]
      refine hrow.trans ?_
      rw [Option.some_inj]
      cases row
      cases old
      simp_all
    · rfl
    · exact (@find?_replaceFirst _ _ _ RegionConfig.tenantId row _
        ⟨old, hold.2, hold.1⟩ k).trans (if_pos hk)
    · exact (@find?_replaceFirst _ _ _ RegionConfig.tenantId row _
        ⟨old, hold.2, hold.1⟩ k).trans (if_neg hk)

/-! ## Getters and history -/

/-- Nothing has been set. -/
structure Settings.Unset (s : Settings) : Prop where
  /-- Nothing about log rotation. -/
  rotations : s.rotations = []
  /-- Nothing about redaction. -/
  redactions : s.redactions = []
  /-- Nothing about export. -/
  exports : s.optIn.rows = []
  /-- Nothing is in its cache. -/
  exportEntries : ∀ t, s.optIn.entries t = none
  /-- Nothing about storage. -/
  configs : s.store.configs = []
  /-- Nothing is in its cache. -/
  storageEntries : ∀ t, s.storageEntries t = none
  /-- No quotas. -/
  quotas : s.cost.store.quotas = []
  /-- No prices. -/
  prices : s.cost.prices = []
  /-- No regions. -/
  regions : s.regions.routing.regionConfigs = []
  /-- Nothing is in their cache. -/
  regionEntries : ∀ t, s.regions.entries t = none

/-- No refresh of the setter has failed after its commit. -/
def Refreshed {α : Type} (calls : List SettingCall) (kind : Setting → Option α) : Prop :=
  ∀ c ∈ calls, c.outcome = .unrefreshed → kind c.setting = none

/-- Every getter returns what the calls have set. -/
structure Settings.Follows (s : Settings) (calls : List SettingCall) : Prop where
  /-- `get_rotation_config`. -/
  rotation : ∀ t, getRotationConfig s t =
    (ownOrGlobal (lastSet calls Setting.rotation? RotationRow.tenantId) t).getD .default
  /-- `get_redaction_config`. -/
  redaction : ∀ t, getRedactionConfig s t =
    (ownOrGlobal (lastSet calls Setting.redaction? RedactionConfig.tenantId) t).getD .default
  /-- `_load_export_config`. -/
  exports : ∀ t, loadExportConfig s.optIn t =
    (ownOrGlobal (lastSet calls Setting.export? ExportConfig.tenantId) t).getD .default
  /-- `get_export_config`, unless a refresh has kept the cache from being cleared. -/
  exportsCached : Refreshed calls Setting.export? → ∀ t, (getExportConfig s.optIn t).1 =
    (ownOrGlobal (lastSet calls Setting.export? ExportConfig.tenantId) t).getD .default
  /-- `_load_storage_config`. -/
  storage : ∀ t, loadStorageConfig s.store t =
    (ownOrGlobal (lastSet calls Setting.storage? StorageConfig.tenantId) t).getD .default
  /-- `get_storage_config`, unless a refresh has kept the cache from being cleared. -/
  storageCached : Refreshed calls Setting.storage? → ∀ t, (s.getStorageConfig t).1 =
    (ownOrGlobal (lastSet calls Setting.storage? StorageConfig.tenantId) t).getD .default
  /-- `get_quota_config`. -/
  quota : ∀ t, getQuotaConfig s.cost.store t =
    ownOrGlobal (lastSet calls Setting.quota? QuotaConfig.tenantId) t
  /-- `get_pricing_config`. -/
  pricing : ∀ provider model t, getPricingConfig s.cost.prices provider model t =
    ownOrGlobal (fun k ↦ lastSet calls Setting.pricing? PricingConfig.key (k, provider, model)) t
  /-- What `get_region_config` reads from the table. -/
  region : ∀ t, s.regions.routing.getRegionConfig t =
    ownOrGlobal (lastSet calls Setting.region? RegionConfig.tenantId) t
  /-- `get_region_config`, unless a refresh has kept the cache from being cleared. -/
  regionCached : Refreshed calls Setting.region? → ∀ t, (s.regions.getRegionConfig t).1 =
    ownOrGlobal (lastSet calls Setting.region? RegionConfig.tenantId) t

variable (calls : List SettingCall) (s : Settings)

theorem rotations_run (k : Option Str) :
    (calls.foldl Settings.run s).rotations.find? (fun row ↦ row.tenantId = k) =
      (lastSet calls Setting.rotation? RotationRow.tenantId k).or
        (s.rotations.find? fun row ↦ row.tenantId = k) := by
  refine look_run (fun s k ↦ s.rotations.find? fun row ↦ row.tenantId = k)
    (fun s o a k ↦ ?_) calls s k
  cases a with
  | rotation row => exact (find?_putRow RotationRow.tenantId row _ k).trans (filter_some ..).symm
  | _ => rfl

theorem redactions_run (k : Option Str) :
    (calls.foldl Settings.run s).redactions.find? (fun row ↦ row.tenantId = k) =
      (lastSet calls Setting.redaction? RedactionConfig.tenantId k).or
        (s.redactions.find? fun row ↦ row.tenantId = k) := by
  refine look_run (fun s k ↦ s.redactions.find? fun row ↦ row.tenantId = k)
    (fun s o a k ↦ ?_) calls s k
  cases a with
  | redaction row =>
    exact (find?_putRow RedactionConfig.tenantId row _ k).trans (filter_some ..).symm
  | _ => rfl

theorem exports_run (k : Option Str) :
    (calls.foldl Settings.run s).optIn.row k =
      (lastSet calls Setting.export? ExportConfig.tenantId k).or (s.optIn.row k) := by
  refine look_run (fun s k ↦ s.optIn.row k) (fun s o a k ↦ ?_) calls s k
  cases a with
  | optIn row => exact (row_setExportConfig s.optIn row o k).trans (filter_some ..).symm
  | _ => rfl

theorem configs_run (k : Option Str) :
    (calls.foldl Settings.run s).store.configRow k =
      (lastSet calls Setting.storage? StorageConfig.tenantId k).or (s.store.configRow k) := by
  refine look_run (fun s k ↦ s.store.configRow k) (fun s o a k ↦ ?_) calls s k
  cases a with
  | storage row => exact (find?_putRow StorageConfig.tenantId row _ k).trans (filter_some ..).symm
  | _ => rfl

theorem quotas_run (k : Option Str) :
    (calls.foldl Settings.run s).cost.store.quotaRow k =
      (lastSet calls Setting.quota? QuotaConfig.tenantId k).or (s.cost.store.quotaRow k) := by
  refine look_run (fun s k ↦ s.cost.store.quotaRow k) (fun s o a k ↦ ?_) calls s k
  cases a with
  | quota row => exact (find?_putRow QuotaConfig.tenantId row _ k).trans (filter_some ..).symm
  | _ => rfl

theorem prices_run (k : Option Str × Str × Str) :
    (calls.foldl Settings.run s).cost.prices.find? (fun row ↦ row.key = k) =
      (lastSet calls Setting.pricing? PricingConfig.key k).or
        (s.cost.prices.find? fun row ↦ row.key = k) := by
  refine look_run (fun s k ↦ s.cost.prices.find? fun row ↦ row.key = k)
    (fun s o a k ↦ ?_) calls s k
  cases a with
  | pricing row => exact (find?_putRow PricingConfig.key row _ k).trans (filter_some ..).symm
  | _ => rfl

theorem regions_run (k : Option Str) :
    (calls.foldl Settings.run s).regions.routing.row k =
      (lastSet calls Setting.region? RegionConfig.tenantId k).or (s.regions.routing.row k) := by
  refine look_run (fun s k ↦ s.regions.routing.row k) (fun s o a k ↦ ?_) calls s k
  cases a with
  | region row => exact (s.regions.routing.row_writeRegion row k).trans (filter_some ..).symm
  | _ => rfl

/-! ## Caches and history -/

/-- **A cache stays right** in any run if a commit keeps it right whose refresh, where it is one of
the setter of the cache, does not fail. -/
theorem Coherent.foldl {α β : Type} (load : Settings → Option Str → β)
    (entries : Settings → Option Str → Option β) {kind : Setting → Option α}
    (hcommit : ∀ s o a, Coherent (load s) (entries s) → (kind a ≠ none → o = .returned) →
      Coherent (load (Settings.commit s o a)) (entries (Settings.commit s o a)))
    {calls : List SettingCall} (hcalls : Refreshed calls kind) {s : Settings}
    (h : Coherent (load s) (entries s)) :
    Coherent (load (calls.foldl Settings.run s)) (entries (calls.foldl Settings.run s)) := by
  induction calls generalizing s with
  | nil => exact h
  | cons c calls ih =>
    refine ih (fun c' hc' ↦ hcalls c' (List.mem_cons_of_mem c hc')) ?_
    have hreturned (hrolled : c.outcome ≠ .rolledBack) (hkind : kind c.setting ≠ none) :
        c.outcome = .returned := by
      cases ho : c.outcome with
      | rolledBack => exact absurd ho hrolled
      | unrefreshed => exact absurd (hcalls c List.mem_cons_self ho) hkind
      | returned => rfl
    rw [Settings.run]
    split_ifs with hrolled
    · exact h
    · exact hcommit s c.outcome c.setting h (hreturned hrolled)

variable {calls} {s}

theorem Settings.exports_coherent (h : ∀ t, s.optIn.entries t = none)
    (hcalls : Refreshed calls Setting.export?) :
    Coherent (loadExportConfig (calls.foldl Settings.run s).optIn)
      (calls.foldl Settings.run s).optIn.entries := by
  refine Coherent.foldl (fun s ↦ loadExportConfig s.optIn) (fun s ↦ s.optIn.entries)
    (fun s o a hs hreturned ↦ ?_) hcalls fun t config hentry ↦ by simp [h t] at hentry
  cases a with
  | optIn row =>
    rw [hreturned (by simp [Setting.export?])]
    exact Coherent.empty _
  | exportLookup t => exact (hs.cachedLookup t).2
  | _ => exact hs

theorem Settings.storage_coherent (h : ∀ t, s.storageEntries t = none)
    (hcalls : Refreshed calls Setting.storage?) :
    Coherent (loadStorageConfig (calls.foldl Settings.run s).store)
      (calls.foldl Settings.run s).storageEntries := by
  refine Coherent.foldl (fun s ↦ loadStorageConfig s.store) Settings.storageEntries
    (fun s o a hs hreturned ↦ ?_) hcalls fun t config hentry ↦ by simp [h t] at hentry
  cases a with
  | storage row =>
    rw [hreturned (by simp [Setting.storage?])]
    exact Coherent.empty _
  | storageLookup t => exact (hs.cachedLookup t).2
  | _ => exact hs

theorem Settings.regions_coherent (h : ∀ t, s.regions.entries t = none)
    (hcalls : Refreshed calls Setting.region?) :
    Coherent (calls.foldl Settings.run s).regions.routing.getRegionConfig
      (calls.foldl Settings.run s).regions.entries := by
  refine Coherent.foldl (fun s ↦ s.regions.routing.getRegionConfig) (fun s ↦ s.regions.entries)
    (fun s o a hs hreturned ↦ ?_) hcalls fun t config hentry ↦ by simp [h t] at hentry
  cases a with
  | region row =>
    rw [hreturned (by simp [Setting.region?])]
    exact Coherent.empty _
  | regionLookup t => exact (hs.cachedLookup t).2
  | _ => exact hs

/-- **The getters return what was set.**  In any run of the setters of the seven tables and of their
getters, with arbitrary rows, for arbitrary tenants, and with failures before a commit or after it,
every getter returns what was last committed for its tenant to its table, or else what was last
committed there globally, or else its default.  A getter that has a cache does so as long as no
refresh of its setter has failed. -/
theorem settings_follow_history (calls : List SettingCall) {s : Settings} (hs : s.Unset) :
    (calls.foldl Settings.run s).Follows calls := by
  have hexports (t : Option Str) : loadExportConfig (calls.foldl Settings.run s).optIn t =
      (ownOrGlobal (lastSet calls Setting.export? ExportConfig.tenantId) t).getD .default := by
    have hrow : (calls.foldl Settings.run s).optIn.row =
        lastSet calls Setting.export? ExportConfig.tenantId := by
      funext k
      rw [exports_run, OptIn.row, hs.exports, List.find?_nil, Option.or_none]
    rw [loadExportConfig, hrow]
  have hstorage (t : Option Str) : loadStorageConfig (calls.foldl Settings.run s).store t =
      (ownOrGlobal (lastSet calls Setting.storage? StorageConfig.tenantId) t).getD .default := by
    show (ownOrGlobal _ t).getD _ = _
    congr 2
    funext k
    rw [configs_run, Store.configRow, hs.configs, List.find?_nil, Option.or_none]
  have hregion (t : Option Str) :
      (calls.foldl Settings.run s).regions.routing.getRegionConfig t =
        ownOrGlobal (lastSet calls Setting.region? RegionConfig.tenantId) t := by
    show ownOrGlobal (Routing.row _) t = _
    congr 1
    funext k
    rw [regions_run, Routing.row, hs.regions, List.find?_nil, Option.or_none]
  constructor
  case rotation =>
    intro t
    rw [getRotationConfig]
    congr 2
    funext k
    rw [rotations_run, hs.rotations, List.find?_nil, Option.or_none]
  case redaction =>
    intro t
    rw [getRedactionConfig]
    congr 2
    funext k
    rw [redactions_run, hs.redactions, List.find?_nil, Option.or_none]
  case exports => exact hexports
  case exportsCached =>
    exact fun hcalls t ↦
      ((Settings.exports_coherent hs.exportEntries hcalls).cachedLookup t).1.trans (hexports t)
  case storage => exact hstorage
  case storageCached =>
    exact fun hcalls t ↦
      ((Settings.storage_coherent hs.storageEntries hcalls).cachedLookup t).1.trans (hstorage t)
  case quota =>
    intro t
    show ownOrGlobal _ t = _
    congr 1
    funext k
    rw [quotas_run, CostStore.quotaRow, hs.quotas, List.find?_nil, Option.or_none]
  case pricing =>
    intro provider model t
    show ownOrGlobal (fun k ↦ pricingRow _ k provider model) t = _
    congr 1
    funext k
    rw [pricingRow, prices_run, hs.prices, List.find?_nil, Option.or_none]
  case region => exact hregion
  case regionCached =>
    exact fun hcalls t ↦
      ((Settings.regions_coherent hs.regionEntries hcalls).cachedLookup t).1.trans (hregion t)

/-- A new process on a new database. -/
def Settings.fresh : Settings where
  rotations := []
  redactions := []
  optIn := ⟨[], fun _ ↦ none⟩
  store := .create "store.db".toList
  storageEntries _ := none
  cost := ⟨⟨[], []⟩, []⟩
  regions := ⟨⟨"store.db".toList, [], []⟩, fun _ ↦ none⟩

theorem Settings.fresh_unset : Settings.fresh.Unset :=
  ⟨rfl, rfl, rfl, fun _ ↦ rfl, rfl, fun _ ↦ rfl, rfl, rfl, rfl, fun _ ↦ rfl⟩

/-- Everybody is opted in, then the database is locked when one tenant opts out, and then it
succeeds. -/
def acmeSettings : List SettingCall :=
  [⟨.optIn ⟨none, true⟩, .returned⟩, ⟨.optIn ⟨some "acme".toList, false⟩, .rolledBack⟩,
    ⟨.exportLookup (some "acme".toList), .returned⟩,
    ⟨.optIn ⟨some "acme".toList, false⟩, .returned⟩]

theorem settings_follow_history_acme :
    Settings.Follows (acmeSettings.foldl Settings.run .fresh) acmeSettings :=
  settings_follow_history _ Settings.fresh_unset

end WiseTraceLoom
