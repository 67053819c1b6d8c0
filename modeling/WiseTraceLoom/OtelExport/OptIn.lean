import WiseTraceLoom.Lib.Interleaving
import WiseTraceLoom.Storage.Config

/-!
# Opting in

Nothing is exported for a tenant unless its `ExportConfig` row says so, the global row if it has
none, or neither: the built-in default is opted out.  The row an exporter has looked up is kept in a
cache of the process, which `set_export_config` clears after its commit.  Nothing holds a lock, so
`OptInStep` is one statement of a call that runs among others.

An exporter can be overtaken between reading a row and putting it into the cache, and then the old
row stays there.  What holds in spite of that:

* `exported_opted_in` — what is exported was opted in at some time.
* `opt_out_final` — a call of `set_export_config` for a tenant, once it has returned, decides what
  every later export of that tenant does, until there is another one *for that tenant*; the global
  row and the rows of other tenants may be rewritten all the while.  What has to be excluded is an
  exporter of that tenant that has read the rows before and has yet to store what it has read.
-/

set_option autoImplicit false

namespace WiseTraceLoom

open Interleaving

/-! ## The statements -/

/-- A row of `exportconfig`. -/
structure ExportConfig where
  /-- The tenant, `none` for the global row. -/
  tenantId : Option Str
  /-- Is the tenant opted in? -/
  genAiSemconvEnabled : Bool
  deriving DecidableEq

/-- The row nobody has written. -/
def ExportConfig.default : ExportConfig := ⟨none, false⟩

/-- The table, and the cache of the process. -/
structure OptIn where
  /-- The rows. -/
  rows : List ExportConfig
  /-- `_export_config_cache`, for the one store of the process. -/
  entries : Option Str → Option ExportConfig

/-- The first row of a tenant, `none` for the global row. -/
def OptIn.row (x : OptIn) (tenantId : Option Str) : Option ExportConfig :=
  x.rows.find? fun row ↦ row.tenantId = tenantId

/-- The commit of `set_export_config`: an insert, or an update of the row that was loaded.  The flag
is written only if it differs from the one that was loaded. -/
def OptIn.write (x : OptIn) (tenantId : Option Str) (enabled : Bool)
    (loaded : Option ExportConfig) : OptIn :=
  { x with
    rows :=
      match loaded with
      | none => x.rows ++ [⟨tenantId, enabled⟩]
      | some row =>
        if row.genAiSemconvEnabled = enabled then x.rows
        else replaceFirst (fun row ↦ row.tenantId = tenantId) ⟨tenantId, enabled⟩ x.rows }

/-! ## A call among others -/

/-- Where a call of an exporter, with the `get_export_config` it makes, or of `set_export_config`
stands. -/
inductive OptInCall where
  | exporting (tenantId : Option Str)
  /-- The cache has no entry. -/
  | missed (tenantId : Option Str)
  /-- The tenant has no row of its own. -/
  | unassigned (tenantId : Str)
  /-- The row was read. -/
  | read (tenantId : Option Str) (config : ExportConfig)
  /-- `get_export_config` has returned. -/
  | got (tenantId : Option Str) (config : ExportConfig)
  /-- The span was exported. -/
  | exported (tenantId : Option Str)
  /-- The exporter has returned without exporting anything. -/
  | skipped (tenantId : Option Str)
  | setting (tenantId : Option Str) (enabled : Bool)
  /-- The row of the tenant was looked up. -/
  | looked (tenantId : Option Str) (enabled : Bool) (loaded : Option ExportConfig)
  /-- The row was committed, and the cache has yet to be cleared. -/
  | committed (tenantId : Option Str) (enabled : Bool)
  | configured (tenantId : Option Str) (enabled : Bool)
  /-- The refresh after the commit has raised; the cache is not cleared. -/
  | unrefreshed (tenantId : Option Str) (enabled : Bool)
  | raised
  deriving DecidableEq

/-- Is the call about to start? -/
def OptInCall.fresh : OptInCall → Bool
  | .exporting _ => true
  | .setting _ _ => true
  | _ => false

/-- Can a statement of the call raise before anything is committed? -/
def OptInCall.mayRaise : OptInCall → Bool
  | .missed _ => true
  | .unassigned _ => true
  | .setting _ _ => true
  | .looked _ _ _ => true
  | _ => false

/-- One step of a call. -/
inductive OptInStep : OptIn → OptInCall → OptIn → OptInCall → Prop
  | hit {x : OptIn} {t : Option Str} {config : ExportConfig} (h : x.entries t = some config) :
      OptInStep x (.exporting t) x (.got t config)
  | miss {x : OptIn} {t : Option Str} (h : x.entries t = none) :
      OptInStep x (.exporting t) x (.missed t)
  | readTenant {x : OptIn} {t : Str} {row : ExportConfig} (h : x.row (some t) = some row) :
      OptInStep x (.missed (some t)) x (.read (some t) row)
  | noTenant {x : OptIn} {t : Str} (h : x.row (some t) = none) :
      OptInStep x (.missed (some t)) x (.unassigned t)
  | readGlobal {x : OptIn} {t : Str} :
      OptInStep x (.unassigned t) x (.read (some t) ((x.row none).getD .default))
  | readGlobalOnly {x : OptIn} :
      OptInStep x (.missed none) x (.read none ((x.row none).getD .default))
  | store {x : OptIn} {t : Option Str} {config : ExportConfig} :
      OptInStep x (.read t config)
        { x with entries := Function.update x.entries t (some config) } (.got t config)
  | send {x : OptIn} {t : Option Str} {config : ExportConfig}
      (h : config.genAiSemconvEnabled = true) : OptInStep x (.got t config) x (.exported t)
  | skip {x : OptIn} {t : Option Str} {config : ExportConfig}
      (h : config.genAiSemconvEnabled = false) : OptInStep x (.got t config) x (.skipped t)
  | look {x : OptIn} {t : Option Str} {enabled : Bool} :
      OptInStep x (.setting t enabled) x (.looked t enabled (x.row t))
  | commit {x : OptIn} {t : Option Str} {enabled : Bool} {loaded : Option ExportConfig} :
      OptInStep x (.looked t enabled loaded) (x.write t enabled loaded) (.committed t enabled)
  | clear {x : OptIn} {t : Option Str} {enabled : Bool} :
      OptInStep x (.committed t enabled) { x with entries := fun _ ↦ none } (.configured t enabled)
  | refreshFails {x : OptIn} {t : Option Str} {enabled : Bool} :
      OptInStep x (.committed t enabled) x (.unrefreshed t enabled)
  /-- A statement raises, and nothing is committed. -/
  | fail {x : OptIn} {c : OptInCall} (h : c.mayRaise = true) : OptInStep x c x .raised

/-- **What a step can do to cache and rows**: it stores what it has read, commits, clears, or leaves
both alone. -/
theorem OptInStep.effect {x x' : OptIn} {c c' : OptInCall} (h : OptInStep x c x' c') :
    x' = x ∨
      (∃ t config, c = .read t config ∧ c' = .got t config ∧
        x' = { x with entries := Function.update x.entries t (some config) }) ∨
      (∃ t enabled loaded, c = .looked t enabled loaded ∧ c' = .committed t enabled ∧
        x' = x.write t enabled loaded) ∨
      x' = { x with entries := fun _ ↦ none } := by
  cases h
  case store t config => exact Or.inr (Or.inl ⟨t, config, rfl, rfl, rfl⟩)
  case commit t enabled loaded =>
    exact Or.inr (Or.inr (Or.inl ⟨t, enabled, loaded, rfl, rfl, rfl⟩))
  case clear t enabled => exact Or.inr (Or.inr (Or.inr rfl))
  all_goals exact Or.inl rfl

variable {ι : Type}

/-- Any number of calls in one process. -/
abbrev OptInCalls (ι : Type) := Config ι OptIn OptInCall

/-! ## Rows that were written -/

/-- The row a call of `set_export_config` has committed. -/
def OptInCall.wrote : OptInCall → Option ExportConfig
  | .committed t enabled => some ⟨t, enabled⟩
  | .configured t enabled => some ⟨t, enabled⟩
  | .unrefreshed t enabled => some ⟨t, enabled⟩
  | _ => none

/-- A row that was there before, or was committed by a call. -/
def Known (rows : List ExportConfig) (row : ExportConfig) : OptInCalls ι → Prop :=
  Attended (fun _ ↦ row ∈ rows) fun call ↦ call.wrote = some row

/-- A row an exporter of the tenant may go by: its own, the global one, or the default. -/
def MayUse (rows : List ExportConfig) (t : Option Str) (config : ExportConfig)
    (c : OptInCalls ι) : Prop :=
  config = .default ∨ (config.tenantId = t ∨ config.tenantId = none) ∧ Known rows config c

/-- What was committed stays committed. -/
theorem OptInStep.wrote {x x' : OptIn} {c c' : OptInCall} (h : OptInStep x c x' c')
    {row : ExportConfig} (hc : c.wrote = some row) : c'.wrote = some row := by
  cases h
  case clear => exact hc
  case refreshFails => exact hc
  all_goals simp_all [OptInCall.wrote, OptInCall.mayRaise]
  case fail h => split at h <;> simp_all

theorem OptIn.tenantId_of_row {x : OptIn} {t : Option Str} {row : ExportConfig}
    (h : x.row t = some row) : row.tenantId = t ∧ row ∈ x.rows :=
  ⟨by simpa using List.find?_some h, List.mem_of_find?_eq_some h⟩

theorem OptIn.mem_write {x : OptIn} {t : Option Str} {enabled : Bool}
    {loaded : Option ExportConfig} {row : ExportConfig}
    (h : row ∈ (x.write t enabled loaded).rows) : row = ⟨t, enabled⟩ ∨ row ∈ x.rows := by
  cases loaded with
  | none => exact (List.mem_append.mp h).symm.imp_left List.mem_singleton.mp
  | some old =>
    simp only [OptIn.write] at h
    split_ifs at h
    · exact Or.inr h
    · exact mem_replaceFirst h

/-- What is known of every state: rows, cache and exporters hold nothing but rows that were
written. -/
structure OptInCalls.Sound (rows : List ExportConfig) (c : OptInCalls ι) : Prop where
  /-- The rows were written. -/
  known : ∀ row ∈ c.shared.rows, Known rows row c
  /-- The entries of the cache were. -/
  entries : ∀ t config, c.shared.entries t = some config → MayUse rows t config c
  /-- What an exporter has read was. -/
  read : ∀ i t config, c.locals i = .read t config → MayUse rows t config c
  /-- What an exporter goes by was. -/
  got : ∀ i t config, c.locals i = .got t config → MayUse rows t config c
  /-- Who has exported was opted in. -/
  exported : ∀ i t, c.locals i = .exported t →
    ∃ config, config.genAiSemconvEnabled = true ∧ MayUse rows t config c

/-- The process has started: the cache is empty, and every call is about to start. -/
structure OptInCalls.Initial (c : OptInCalls ι) : Prop where
  /-- The cache is empty. -/
  entries : ∀ t, c.shared.entries t = none
  /-- The calls are about to start. -/
  fresh : ∀ i, (c.locals i).fresh = true

theorem OptInCalls.Initial.sound {c : OptInCalls ι} (h : c.Initial) : c.Sound c.shared.rows where
  known _ hrow := Or.inl hrow
  entries t config hentry := by simp [h.entries t] at hentry
  read i t config hi := by simpa [hi, OptInCall.fresh] using h.fresh i
  got i t config hi := by simpa [hi, OptInCall.fresh] using h.fresh i
  exported i t hi := by simpa [hi, OptInCall.fresh] using h.fresh i

/-- What a step has looked up may be used. -/
theorem OptInStep.mayUse {rows : List ExportConfig} {c : OptInCalls ι} {i : ι} {x' : OptIn}
    {t' : OptInCall} (hc : c.Sound rows) (hstep : OptInStep c.shared (c.locals i) x' t')
    {t : Option Str} {config : ExportConfig}
    (ht' : t' = .read t config ∨ t' = .got t config) : MayUse rows t config c := by
  have hglobal : ∀ s, MayUse rows s ((c.shared.row none).getD .default) c := by
    intro s
    cases hrow : c.shared.row none with
    | none => exact Or.inl rfl
    | some row =>
      obtain ⟨htenant, hmem⟩ := OptIn.tenantId_of_row hrow
      exact Or.inr ⟨Or.inr htenant, hc.known row hmem⟩
  generalize hi : c.locals i = call at hstep
  cases hstep with
  | hit h =>
    obtain ⟨rfl, rfl⟩ : _ ∧ _ := by simpa using ht'
    exact hc.entries _ _ h
  | readTenant h =>
    obtain ⟨rfl, rfl⟩ : _ ∧ _ := by simpa using ht'
    obtain ⟨htenant, hmem⟩ := OptIn.tenantId_of_row h
    exact Or.inr ⟨Or.inl htenant, hc.known _ hmem⟩
  | readGlobal =>
    obtain ⟨rfl, rfl⟩ : _ ∧ _ := by simpa using ht'
    exact hglobal _
  | readGlobalOnly =>
    obtain ⟨rfl, rfl⟩ : _ ∧ _ := by simpa using ht'
    exact hglobal _
  | store =>
    obtain ⟨rfl, rfl⟩ : _ ∧ _ := by simpa using ht'
    exact hc.read i _ _ hi
  | _ => simp at ht'

section

variable [DecidableEq ι]

theorem Known.set {rows : List ExportConfig} {row : ExportConfig} {c : OptInCalls ι} {i : ι}
    {x' : OptIn} {t' : OptInCall} (h : Known rows row c)
    (hstep : OptInStep c.shared (c.locals i) x' t') : Known rows row (c.set i x' t') :=
  Attended.set h fun hdone ↦ hdone.imp id hstep.wrote

theorem MayUse.set {rows : List ExportConfig} {t : Option Str} {config : ExportConfig}
    {c : OptInCalls ι} {i : ι} {x' : OptIn} {t' : OptInCall} (h : MayUse rows t config c)
    (hstep : OptInStep c.shared (c.locals i) x' t') : MayUse rows t config (c.set i x' t') :=
  h.imp id fun hrow ↦ ⟨hrow.1, hrow.2.set hstep⟩

/-- **One step** finds and leaves only rows that were written. -/
theorem OptInStep.sound {rows : List ExportConfig} {c : OptInCalls ι} {i : ι} {x' : OptIn}
    {t' : OptInCall} (hc : c.Sound rows) (hstep : OptInStep c.shared (c.locals i) x' t') :
    OptInCalls.Sound rows (c.set i x' t') where
  known row hrow := by
    rcases hstep.effect with rfl | ⟨_, _, _, _, rfl⟩ | ⟨t, enabled, loaded, _, rfl, rfl⟩ | rfl
    · exact (hc.known row hrow).set hstep
    · exact (hc.known row hrow).set hstep
    · rcases OptIn.mem_write hrow with rfl | hrow
      · exact Attended.of_duty _ _ _ rfl
      · exact (hc.known row hrow).set hstep
    · exact (hc.known row hrow).set hstep
  entries t config hentry := by
    rcases hstep.effect with rfl | ⟨s, read, hi, _, rfl⟩ | ⟨t, enabled, loaded, _, _, rfl⟩ | rfl
    · exact (hc.entries t config hentry).set hstep
    · simp only [Config.set_shared, Function.update_apply] at hentry
      split_ifs at hentry with ht
      · rw [ht, ← Option.some.inj hentry]
        exact (hc.read i s read hi).set hstep
      · exact (hc.entries t config hentry).set hstep
    · exact (hc.entries _ config hentry).set hstep
    · cases hentry
  read j t config hj := by
    by_cases hji : j = i
    · subst hji
      rw [Config.set_locals_self] at hj
      exact (OptInStep.mayUse hc hstep (Or.inl hj)).set hstep
    · rw [Config.set_locals_ne c x' t' hji] at hj
      exact (hc.read j t config hj).set hstep
  got j t config hj := by
    by_cases hji : j = i
    · subst hji
      rw [Config.set_locals_self] at hj
      exact (OptInStep.mayUse hc hstep (Or.inr hj)).set hstep
    · rw [Config.set_locals_ne c x' t' hji] at hj
      exact (hc.got j t config hj).set hstep
  exported j t hj := by
    by_cases hji : j = i
    · subst hji
      rw [Config.set_locals_self] at hj
      subst hj
      generalize hcall : c.locals j = call at hstep
      obtain ⟨config, rfl, henabled⟩ : ∃ config, call = .got t config ∧
          config.genAiSemconvEnabled = true := by
        cases hstep
        exact ⟨_, rfl, ‹_›⟩
      rw [← hcall] at hstep
      exact ⟨config, henabled, (hc.got j t config hcall).set hstep⟩
    · rw [Config.set_locals_ne c x' t' hji] at hj
      obtain ⟨config, henabled, huse⟩ := hc.exported j t hj
      exact ⟨config, henabled, huse.set hstep⟩

/-- **Nothing is exported that was never opted in**, in any interleaving, stale entries of the cache
included: when an exporter has exported a span of a tenant, the tenant's own row or the global one
was opted in when the process started, or a call of `set_export_config` has committed that it is. -/
theorem exported_opted_in {c₀ c : OptInCalls ι} (hinit : c₀.Initial)
    (h : Steps OptInStep c₀ c) {i : ι} {t : Option Str} (hi : c.locals i = .exported t) :
    ∃ config : ExportConfig, config.genAiSemconvEnabled = true ∧
      (config.tenantId = t ∨ config.tenantId = none) ∧
      (config ∈ c₀.shared.rows ∨ ∃ j, (c.locals j).wrote = some config) := by
  have hsound : c.Sound c₀.shared.rows :=
    h.invariant (fun _ _ _ _ hd ↦ OptInStep.sound hd) hinit.sound
  obtain ⟨config, henabled, huse⟩ := hsound.exported i t hi
  rcases huse with rfl | ⟨htenant, hknown⟩
  · cases henabled
  · exact ⟨config, henabled, htenant, hknown⟩

end

/-! ## The last word -/

/-- Is this a call of `set_export_config` for the tenant that has yet to end? -/
def OptInCall.setsFor (t : Option Str) : OptInCall → Bool
  | .setting s _ => s = t
  | .looked s _ _ => s = t
  | .committed s _ => s = t
  | _ => false

/-- Has an exporter of the tenant read the rows, and does it have yet to store what it has read? -/
def OptInCall.holds (t : Option Str) : OptInCall → Bool
  | .unassigned s => some s = t
  | .read s _ => s = t
  | _ => false

/-- The row a call has committed is the one that is found. -/
theorem OptIn.row_write (x : OptIn) (t : Option Str) (enabled : Bool) :
    (x.write t enabled (x.row t)).row t = some ⟨t, enabled⟩ := by
  cases hrow : x.row t with
  | none =>
    have hfresh : ∀ row ∈ x.rows, row.tenantId ≠ t := by simpa [OptIn.row] using hrow
    show List.find? _ (x.rows ++ [(⟨t, enabled⟩ : ExportConfig)]) = _
    exact (@find?_append_of_fresh _ _ _ ExportConfig.tenantId ⟨t, enabled⟩ _ hfresh t).trans
      (if_pos rfl)
  | some old =>
    obtain ⟨htenant, hmem⟩ := OptIn.tenantId_of_row hrow
    show List.find? _ (ite _ _ _) = _
    split_ifs with hsame
    · rw [← hsame, ← htenant]
      rw [← htenant] at hrow
      exact hrow
    · exact (@find?_replaceFirst _ _ _ ExportConfig.tenantId ⟨t, enabled⟩ _
        ⟨old, hmem, htenant⟩ t).trans (if_pos rfl)

/-- The rows of the others are found as before. -/
theorem OptIn.row_write_of_ne (x : OptIn) {s t : Option Str} (enabled : Bool)
    (loaded : Option ExportConfig) (hne : s ≠ t) : (x.write s enabled loaded).row t = x.row t := by
  cases loaded with
  | none =>
    show List.find? _ (x.rows ++ [(⟨s, enabled⟩ : ExportConfig)]) = _
    rw [List.find?_append, List.find?_singleton]
    simp [hne, row]
  | some old =>
    show List.find? _ (ite _ _ _) = _
    split_ifs
    · rfl
    · exact @find?_replaceFirst_of_ne _ _ _ ExportConfig.tenantId ⟨s, enabled⟩ _ hne x.rows

/-- **What another call leaves alone**: the row of a tenant it does not write. -/
theorem OptInStep.row_eq {x x' : OptIn} {c c' : OptInCall} (h : OptInStep x c x' c')
    {t : Option Str} (hc : c.setsFor t = false) : x'.row t = x.row t := by
  rcases h.effect with rfl | ⟨_, _, _, _, rfl⟩ | ⟨s, enabled, loaded, rfl, _, rfl⟩ | rfl
  · rfl
  · rfl
  · exact x.row_write_of_ne enabled loaded (by simpa [OptInCall.setsFor] using hc)
  · rfl

/-- No call turns into one of `set_export_config`. -/
theorem OptInStep.setsFor {x x' : OptIn} {c c' : OptInCall} (h : OptInStep x c x' c')
    {t : Option Str} (hc : c.setsFor t = false) : c'.setsFor t = false := by
  cases h <;> simp_all [OptInCall.setsFor]

/-- What a call of `set_export_config` for a tenant has seen and done, no other call for the tenant
being under way. -/
structure OptInCalls.Alone (t : Option Str) (enabled : Bool) (i : ι) (c : OptInCalls ι) :
    Prop where
  /-- There is no other call. -/
  alone : ∀ j, j ≠ i → (c.locals j).setsFor t = false
  /-- The call asks for that. -/
  asks : (c.locals i).setsFor t = true → c.locals i = .setting t enabled ∨
    c.locals i = .looked t enabled (c.shared.row t) ∨ c.locals i = .committed t enabled
  /-- What was committed is found. -/
  row : c.locals i = .committed t enabled → c.shared.row t = some ⟨t, enabled⟩

/-- An exporter of the tenant goes by the flag. -/
def OptInCall.Obeys (t : Option Str) (enabled : Bool) : OptInCall → Prop
  | .got s config => s = t → config = ⟨t, enabled⟩
  | .exported s => s = t → enabled = true
  | .skipped s => s = t → enabled = false
  | _ => True

/-- What an exporter of the tenant has found in the table agrees with the flag. -/
def OptInCall.Informed (t : Option Str) (enabled : Bool) : OptInCall → Prop
  | .unassigned s => some s ≠ t
  | .read s config => s = t → config = ⟨t, enabled⟩
  | _ => True

/-- The flag of a tenant is decided: row and cache agree on it, no call of `set_export_config` for
it is under way, and an exporter that started since then goes by it. -/
structure OptInCalls.Decided (t : Option Str) (enabled : Bool) (k : ι) (c : OptInCalls ι) :
    Prop where
  /-- The row. -/
  row : c.shared.row t = some ⟨t, enabled⟩
  /-- The cache. -/
  entry : ∀ config, c.shared.entries t = some config → config = ⟨t, enabled⟩
  /-- No call for the tenant is under way. -/
  calm : ∀ j, (c.locals j).setsFor t = false
  /-- What has been read for the tenant is its row. -/
  informed : ∀ j, (c.locals j).Informed t enabled
  /-- The exporter that is looked at goes by it. -/
  obeys : (c.locals k).Obeys t enabled

/-- What a step finds out about the tenant while the flag is decided. -/
theorem OptInCalls.Decided.found {t : Option Str} {enabled : Bool} {k j : ι} {c : OptInCalls ι}
    {x' : OptIn} {t' : OptInCall} (hc : c.Decided t enabled k)
    (h : OptInStep c.shared (c.locals j) x' t') :
    t'.Informed t enabled ∧ ((c.locals j).Obeys t enabled → t'.Obeys t enabled) := by
  have hrow := hc.row
  have hinformed := hc.informed j
  have hentry := hc.entry
  generalize c.locals j = call at h hinformed
  constructor
  · cases h with
    | readTenant h =>
      rintro rfl
      exact Option.some.inj (h.symm.trans hrow)
    | noTenant h =>
      rintro rfl
      exact absurd (h.symm.trans hrow) (by simp)
    | readGlobal =>
      intro ht
      exact absurd ht hinformed
    | readGlobalOnly =>
      rintro rfl
      rw [hrow, Option.getD_some]
    | _ => trivial
  · intro hcall
    cases h with
    | hit h =>
      rintro rfl
      exact hentry _ h
    | store => exact hinformed
    | send h =>
      rintro rfl
      rw [← h, hcall rfl]
    | skip h =>
      rintro rfl
      rw [← h, hcall rfl]
    | _ => trivial

variable [DecidableEq ι]

theorem OptInStep.alone {t : Option Str} {enabled : Bool} {i j : ι} {c : OptInCalls ι} {x' : OptIn}
    {t' : OptInCall} (hc : c.Alone t enabled i) (h : OptInStep c.shared (c.locals j) x' t') :
    OptInCalls.Alone t enabled i (c.set j x' t') := by
  have halone (k : ι) (hk : k ≠ i) : ((c.set j x' t').locals k).setsFor t = false := by
    by_cases hkj : k = j
    · subst hkj
      rw [Config.set_locals_self]
      exact h.setsFor (hc.alone k hk)
    · rw [Config.set_locals_ne c x' t' hkj]
      exact hc.alone k hk
  by_cases hij : i = j
  · subst hij
    refine ⟨halone, ?_, ?_⟩
    all_goals
      rw [Config.set_locals_self, Config.set_shared]
      intro hnew
      have hold : (c.locals i).setsFor t = true := by
        by_contra hnot
        have := h.setsFor (Bool.eq_false_iff.mpr hnot)
        simp_all [OptInCall.setsFor]
      have hasks := hc.asks hold
      generalize c.locals i = call at h hasks
      rcases hasks with rfl | rfl | rfl <;> cases h <;>
        simp_all [OptInCall.setsFor, OptIn.row_write]
  · refine ⟨halone, ?_, ?_⟩
    all_goals
      rw [Config.set_locals_ne c x' t' hij, Config.set_shared,
        h.row_eq (hc.alone j (Ne.symm hij))]
    · exact hc.asks
    · exact hc.row

/-- **One step** leaves the flag decided. -/
theorem OptInStep.decided {t : Option Str} {enabled : Bool} {k j : ι} {c : OptInCalls ι}
    {x' : OptIn} {t' : OptInCall} (hc : c.Decided t enabled k)
    (h : OptInStep c.shared (c.locals j) x' t') :
    OptInCalls.Decided t enabled k (c.set j x' t') := by
  obtain ⟨hinformed, hobeys⟩ := hc.found h
  refine ⟨(h.row_eq (hc.calm j)).trans hc.row, ?_, ?_, ?_, ?_⟩
  · intro config hentry
    rw [Config.set_shared] at hentry
    rcases h.effect with rfl | ⟨s, read, hj, _, rfl⟩ | ⟨_, _, _, _, _, rfl⟩ | rfl
    · exact hc.entry config hentry
    · simp only [Function.update_apply] at hentry
      split_ifs at hentry with hs
      · have hread := hc.informed j
        rw [hj] at hread
        exact Option.some.inj hentry ▸ hread hs.symm
      · exact hc.entry config hentry
    · exact hc.entry config hentry
    · cases hentry
  · exact Config.forall_locals (P := fun _ (call : OptInCall) ↦ call.setsFor t = false)
      (h.setsFor (hc.calm j)) fun i _ ↦ hc.calm i
  · exact Config.forall_locals (P := fun _ (call : OptInCall) ↦ call.Informed t enabled)
      hinformed fun i _ ↦ hc.informed i
  · by_cases hkj : k = j
    · subst hkj
      rw [Config.set_locals_self]
      exact hobeys hc.obeys
    · rw [Config.set_locals_ne c x' t' hkj]
      exact hc.obeys

/-- A call that holds nothing agrees with every flag. -/
theorem OptInCall.informed_of_not_holds {t : Option Str} {c : OptInCall} (enabled : Bool)
    (h : c.holds t = false) : c.Informed t enabled := by
  cases c with
  | unassigned s => exact of_decide_eq_false h
  | read s config => exact fun hs ↦ absurd hs (by simpa [holds] using h)
  | _ => trivial

/-- **The last word about a tenant is final.**  A call of `set_export_config` for a tenant runs
among any others, none of which is one for the same tenant, and clears the cache while no exporter
of the tenant has read the rows and has yet to store what it has read.  Then whatever else is set
for other tenants or globally, an exporter that starts afterwards exports nothing of the tenant if
it was opted out, and does not skip anything if it was opted in. -/
theorem opt_out_final {c₀ c₁ d : OptInCalls ι} {i k : ι} {t : Option Str} {enabled : Bool}
    (hi : c₀.locals i = .setting t enabled)
    (halone : ∀ j, j ≠ i → (c₀.locals j).setsFor t = false) (h₁ : Steps OptInStep c₀ c₁)
    (hcommitted : c₁.locals i = .committed t enabled) (hholds : ∀ j, (c₁.locals j).holds t = false)
    (h₂ : Steps OptInStep
      (c₁.set i { c₁.shared with entries := fun _ ↦ none } (.configured t enabled)) d)
    (hk : c₁.locals k = .exporting t) :
    (d.locals k = .exported t → enabled = true) ∧ (d.locals k = .skipped t → enabled = false) := by
  have hstart : c₀.Alone t enabled i :=
    ⟨halone, fun _ ↦ Or.inl hi, fun h ↦ absurd (hi.symm.trans h) (by simp)⟩
  have hc₁ : c₁.Alone t enabled i := h₁.invariant (fun _ _ _ _ hd h ↦ h.alone hd) hstart
  have hki : k ≠ i := by
    rintro rfl
    exact absurd (hk.symm.trans hcommitted) (by simp)
  have hdecided : OptInCalls.Decided t enabled k
      (c₁.set i { c₁.shared with entries := fun _ ↦ none } (.configured t enabled)) := by
    refine ⟨hc₁.row hcommitted, (fun _ h ↦ by cases h), ?_, ?_, ?_⟩
    · exact Config.forall_locals (P := fun _ (call : OptInCall) ↦ call.setsFor t = false) rfl
        hc₁.alone
    · exact Config.forall_locals (P := fun _ (call : OptInCall) ↦ call.Informed t enabled) trivial
        fun j _ ↦ OptInCall.informed_of_not_holds enabled (hholds j)
    · rw [Config.set_locals_ne _ _ _ hki, hk]
      trivial
  have hd := (h₂.invariant (fun _ _ _ _ hd h ↦ h.decided hd) hdecided).obeys
  exact ⟨fun h ↦ by rw [h] at hd; exact hd rfl, fun h ↦ by rw [h] at hd; exact hd rfl⟩

/-! ### A run

Everybody is opted in, one tenant opts out, and then a span of it is exported. -/

/-- The global row alone. -/
def everybody : OptIn := ⟨[⟨none, true⟩], fun _ ↦ none⟩

/-- After the tenant has opted out. -/
def notAcme : OptIn := ⟨[⟨none, true⟩, ⟨some "acme".toList, false⟩], fun _ ↦ none⟩

/-- A call of `set_export_config`, and two exporters of the tenant. -/
def acmeCalls : OptInCalls ℕ :=
  ⟨everybody, fun i ↦
    if i = 0 then .setting (some "acme".toList) false else .exporting (some "acme".toList)⟩

/-- An exporter before the tenant has opted out. -/
theorem exported_opted_in_acme : ∃ c : OptInCalls ℕ,
    c.locals 1 = .exported (some "acme".toList) ∧
      ∃ config : ExportConfig, config.genAiSemconvEnabled = true ∧
        (config.tenantId = some "acme".toList ∨ config.tenantId = none) ∧
        (config ∈ acmeCalls.shared.rows ∨ ∃ j, (c.locals j).wrote = some config) := by
  let acme : Option Str := some "acme".toList
  have hmiss : OptInStep everybody (.exporting acme) everybody (.missed acme) := .miss rfl
  have hnone : OptInStep everybody (.missed acme) everybody (.unassigned "acme".toList) :=
    .noTenant rfl
  have hglobal : OptInStep everybody (.unassigned "acme".toList) everybody
    (.read acme ⟨none, true⟩) := .readGlobal
  have hstore : OptInStep everybody (.read acme ⟨none, true⟩) _ (.got acme ⟨none, true⟩) := .store
  have hinit : acmeCalls.Initial := ⟨fun _ ↦ rfl, fun i ↦ by
    change (if i = 0 then OptInCall.setting _ _ else .exporting _).fresh = true
    split_ifs <;> rfl⟩
  have h0 : Steps OptInStep acmeCalls acmeCalls := .refl
  have h5 := ((((h0.thread 1 hmiss).thread 1 hnone).thread 1 hglobal).thread 1 hstore).thread 1
    (.send rfl)
  exact ⟨_, rfl, exported_opted_in hinit h5 (i := 1) (t := acme) rfl⟩

/-- An exporter after that. -/
theorem opt_out_final_acme : ∃ d : OptInCalls ℕ,
    d.locals 2 = .skipped (some "acme".toList) ∧
      (d.locals 2 = .exported (some "acme".toList) → false = true) ∧
      (d.locals 2 = .skipped (some "acme".toList) → false = false) := by
  let acme : Option Str := some "acme".toList
  have hlook : OptInStep everybody (.setting acme false) everybody (.looked acme false none) :=
    .look
  have hcommit : OptInStep everybody (.looked acme false none) notAcme (.committed acme false) :=
    .commit
  have hmiss : OptInStep notAcme (.exporting acme) notAcme (.missed acme) := .miss rfl
  have hread : OptInStep notAcme (.missed acme) notAcme (.read acme ⟨acme, false⟩) :=
    .readTenant rfl
  have hstore : OptInStep notAcme (.read acme ⟨acme, false⟩) _ (.got acme ⟨acme, false⟩) := .store
  have h0 : Steps OptInStep acmeCalls acmeCalls := .refl
  have h₁ := (h0.thread 0 hlook).thread 0 hcommit
  let c₁ := (acmeCalls.set 0 everybody (.looked acme false none)).set 0 notAcme
    (.committed acme false)
  let c₂ := c₁.set 0 notAcme (.configured acme false)
  have h0' : Steps OptInStep c₂ c₂ := .refl
  have h₂ := (((h0'.thread 2 hmiss).thread 2 hread).thread 2 hstore).thread 2 (.skip rfl)
  have hset : acmeCalls.locals 0 = .setting acme false := rfl
  have hothers (j : ℕ) (hj : j ≠ 0) : acmeCalls.locals j = .exporting acme := if_neg hj
  have hsole (j : ℕ) (hj : j ≠ 0) : (acmeCalls.locals j).setsFor acme = false := by
    rw [hothers j hj]
    rfl
  have hsettled (j : ℕ) : (c₁.locals j).holds acme = false := by
    by_cases hj : j = 0
    · subst hj
      rfl
    · change OptInCall.holds acme ((Config.set _ 0 _ _).locals j) = false
      rw [Config.set_locals_ne _ _ _ hj, Config.set_locals_ne _ _ _ hj, hothers j hj]
      rfl
  exact ⟨_, rfl, opt_out_final (k := 2) hset hsole h₁ rfl hsettled h₂ rfl⟩

end WiseTraceLoom
