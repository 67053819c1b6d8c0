import WiseTraceLoom.Prompts.FailClosed

/-!
# What an alias names

Threads register versions, set their titles, and set and clear aliases.  A row of an alias is meant
to name a version of its own slot, so that `resolve_prompt_alias` never finds that the version is
missing; and a version is meant to keep everything but its title.

Versions are never deleted, and all they change is their titles (`RegistryStep.versions`).  Rows of
aliases are, and SQLite gives the key of a deleted row out again; so the row that an update finds
under the key of the loaded one can be that of another alias, which then names a version that may
even be of another slot (`alias_key_reuse`).  `OwnStep` is a step in which this does not happen.

A call that returns need not leave its version behind, as others may move the alias before it
returns.  But in a run of such steps there was a moment during the call at which the alias named it:
when the row was written, or, if the row named the version already, when it was loaded
(`alias_integrity`).
-/

set_option autoImplicit false

namespace WiseTraceLoom

open Interleaving

variable {ι : Type} [DecidableEq ι] {K ρ : Type} {u : Unicode} {st st' : PromptStore K}

/-! ## Setting a title -/

/-- What `set_prompt_title` raises. -/
inductive TitleError where
  | emptyTitle
  | unknownVersion (versionId : ℤ)
  /-- Anything else a statement raises. -/
  | other
  deriving DecidableEq

/-- The text of an error. -/
def TitleError.message : TitleError → Option Str
  | .emptyTitle => some "title must be non-empty".toList
  | .unknownVersion v => some ("unknown prompt version id: ".toList ++ Text.ofInt v)
  | .other => none

/-- What the update of a loaded version makes of the row in the table.  The title is written only if
it differs from the one that was loaded. -/
def PromptVersion.retitle (loaded : PromptVersion) (title : Str) (row : PromptVersion) :
    PromptVersion :=
  { row with title := if loaded.title = title then row.title else title }

/-- The update of a loaded version and its commit, `none` if the row is gone. -/
def PromptStore.updateTitle (st : PromptStore K) (loaded : PromptVersion) (title : Str) :
    Option (PromptStore K) :=
  if loaded.id ∈ st.versions.map PromptVersion.id then
    some { st with versions := st.versions.map fun v ↦
      if v.id = loaded.id then loaded.retitle title v else v }
  else none

/-- Where a call to `set_prompt_title` stands. -/
inductive TitleCall where
  | called (versionId : ℤ) (title : Str)
  /-- The version was loaded. -/
  | found (row : PromptVersion) (title : Str)
  /-- The version was written. -/
  | written (id : ℤ)
  | returned (row : PromptVersion)
  | raised (e : TitleError)

/-- One step of a call to `set_prompt_title`. -/
inductive TitleStep : PromptStore K → TitleCall → PromptStore K → TitleCall → Prop
  | emptyTitle {st : PromptStore K} {v : ℤ} {t : Str} (h : Text.strip t = []) :
      TitleStep st (.called v t) st (.raised .emptyTitle)
  | unknownVersion {st : PromptStore K} {v : ℤ} {t : Str} (ht : Text.strip t ≠ [])
      (h : st.version v = none) : TitleStep st (.called v t) st (.raised (.unknownVersion v))
  | load {st : PromptStore K} {v : ℤ} {t : Str} {row : PromptVersion} (ht : Text.strip t ≠ [])
      (h : st.version v = some row) : TitleStep st (.called v t) st (.found row (Text.strip t))
  | update {st st' : PromptStore K} {row : PromptVersion} {t : Str}
      (h : st.updateTitle row t = some st') : TitleStep st (.found row t) st' (.written row.id)
  | stale {st : PromptStore K} {row : PromptVersion} {t : Str}
      (h : st.updateTitle row t = none) : TitleStep st (.found row t) st (.raised .other)
  | refresh {st : PromptStore K} {id : ℤ} {row : PromptVersion} (h : st.version id = some row) :
      TitleStep st (.written id) st (.returned row)
  /-- Anything a statement raises. -/
  | fail {st : PromptStore K} {c : TitleCall} : TitleStep st c st (.raised .other)

/-! ## The system -/

/-- What a thread is doing. -/
inductive RegistryCall (K ρ : Type) where
  | prompts (c : PromptsCall K ρ)
  | setTitle (c : TitleCall)

/-- The thread is doing nothing. -/
abbrev RegistryCall.idle : RegistryCall K ρ := .prompts .idle

/-- One step of one thread. -/
inductive RegistryStep [LinearOrder K] [Field K] (u : Unicode) :
    EvalStore K ρ → RegistryCall K ρ → EvalStore K ρ → RegistryCall K ρ → Prop
  | prompts {σ σ' : EvalStore K ρ} {c c' : PromptsCall K ρ} (h : PromptsStep u σ c σ' c') :
      RegistryStep u σ (.prompts c) σ' (.prompts c')
  | startSetTitle {σ : EvalStore K ρ} (v : ℤ) (t : Str) :
      RegistryStep u σ .idle σ (.setTitle (.called v t))
  | setTitle {σ : EvalStore K ρ} {c c' : TitleCall} {st' : PromptStore K}
      (h : TitleStep σ.prompts c st' c') :
      RegistryStep u σ (.setTitle c) { σ with prompts := st' } (.setTitle c')
  /-- The call has ended, or the thread was killed in the middle of it. -/
  | stop {σ : EvalStore K ρ} {c : TitleCall} : RegistryStep u σ (.setTitle c) σ .idle

/-- What a call with these arguments has loaded is of the same alias as what is there under its key,
or it is not going to write the version, as that is the one it has loaded. -/
def AliasArgs.UpdatesOwn (a : AliasArgs) (loaded : PromptAlias) (st : PromptStore K) : Prop :=
  loaded.promptVersionId ≠ a.versionId → ∀ r ∈ st.aliases, r.id = loaded.id →
    r.slotName = loaded.slotName ∧ r.aliasName = loaded.aliasName

/-- If this is the update of an alias, it writes the version to the alias that was loaded. -/
def RegistryCall.UpdatesOwn (st : PromptStore K) : RegistryCall K ρ → RegistryCall K ρ → Prop
  | .prompts (.setAlias (.found a _ loaded) _), .prompts (.setAlias (.written _) _) =>
    a.UpdatesOwn loaded st
  | _, _ => True

/-- A step that writes no version to another alias than the one it has loaded. -/
def OwnStep [LinearOrder K] [Field K] (u : Unicode) (σ : EvalStore K ρ) (t : RegistryCall K ρ)
    (σ' : EvalStore K ρ) (t' : RegistryCall K ρ) : Prop :=
  RegistryStep u σ t σ' t' ∧ t.UpdatesOwn σ.prompts t'

/-- The process and what all its threads are doing. -/
abbrev RegistrySystem (ι K ρ : Type) := Config ι (EvalStore K ρ) (RegistryCall K ρ)

/-- Nothing is stored, nothing is registered and nothing is going on. -/
def RegistrySystem.init (ι ρ : Type) {K : Type} (thresholds : RegressionThresholds K) :
    RegistrySystem ι K ρ := ⟨⟨⟨[], [], []⟩, [], thresholds, []⟩, fun _ ↦ .idle⟩

/-! ## What holds of the tables -/

/-- A version is the same but for its title. -/
def PromptVersion.Same (v v' : PromptVersion) : Prop :=
  v'.id = v.id ∧ v'.slotName = v.slotName ∧ v'.contentHash = v.contentHash ∧
    v'.versionNumber = v.versionNumber

/-- Every alias names a version of its slot. -/
structure PromptStore.Integrity (u : Unicode) (st : PromptStore K) : Prop where
  /-- The keys of the versions are unique. -/
  versions : (st.versions.map PromptVersion.id).Nodup
  /-- A slot has one row for an alias, -/
  unique : (st.aliases.map fun r ↦ (r.slotName, r.aliasName)).Nodup
  /-- which has the normalised name, however it is spelled. -/
  normal : ∀ r ∈ st.aliases, ∃ n, normalizeAlias u n = r.aliasName
  /-- The row names a version of the slot. -/
  names : ∀ r ∈ st.aliases, ∃ v ∈ st.versions, v.id = r.promptVersionId ∧ v.slotName = r.slotName

/-- The same, with what the database enforces on the aliases. -/
structure PromptStore.AliasTable (u : Unicode) (st : PromptStore K) : Prop
    extends st.AliasesOk where
  /-- The keys of the versions are unique. -/
  versions : (st.versions.map PromptVersion.id).Nodup
  /-- Aliases are stored normalised. -/
  normal : ∀ r ∈ st.aliases, ∃ n, normalizeAlias u n = r.aliasName
  /-- The row names a version of the slot. -/
  names : ∀ r ∈ st.aliases, ∃ v ∈ st.versions, v.id = r.promptVersionId ∧ v.slotName = r.slotName

theorem PromptStore.AliasTable.integrity (h : st.AliasTable u) : st.Integrity u where
  versions := h.versions
  unique := h.unique
  normal := h.normal
  names := h.names

/-- The version is not missing. -/
theorem PromptStore.Integrity.resolves (h : st.Integrity u) (s n : Str) (e : AliasError K) :
    resolvePromptAlias u st s n ≠ .error e := by
  have hok (row : Option PromptVersion) : (.ok row : Except (AliasError K) _) ≠ .error e :=
    fun heq ↦ by cases heq
  rw [resolvePromptAlias]
  split_ifs
  · exact hok _
  · cases hrow : st.promptAlias s (normalizeAlias u n) with
    | none => exact hok _
    | some row =>
      obtain ⟨v, hv, hid, -⟩ := h.names row (List.mem_of_find?_eq_some hrow)
      have hsome : st.version row.promptVersionId ≠ none := fun hnone ↦
        List.find?_eq_none.mp hnone v hv (decide_eq_true hid)
      obtain ⟨version, hversion⟩ := Option.ne_none_iff_exists'.mp hsome
      simp only [hversion]
      exact hok _

/-! ## Versions -/

/-- Versions are added under new keys, or given another title. -/
structure PromptStore.Keeps (st st' : PromptStore K) : Prop where
  /-- Each of them is still there. -/
  versions : Grown PromptVersion.Same st.versions st'.versions
  /-- And no key twice. -/
  ids : (st.versions.map PromptVersion.id).Nodup → (st'.versions.map PromptVersion.id).Nodup

theorem PromptVersion.Same.refl (v : PromptVersion) : v.Same v := ⟨rfl, rfl, rfl, rfl⟩

theorem PromptVersion.Same.trans {v₁ v₂ v₃ : PromptVersion} (h : v₁.Same v₂) (h' : v₂.Same v₃) :
    v₁.Same v₃ :=
  ⟨h'.1.trans h.1, h'.2.1.trans h.2.1, h'.2.2.1.trans h.2.2.1, h'.2.2.2.trans h.2.2.2⟩

theorem PromptStore.Keeps.of_eq (h : st'.versions = st.versions) : st.Keeps st' where
  versions := h ▸ .refl PromptVersion.Same.refl _
  ids hids := h ▸ hids

theorem RegisterStep.keeps {c c' : RegisterCall} (h : RegisterStep st c st' c') :
    st.Keeps st' := by
  cases h with
  | @insert a prior now =>
    refine ⟨.append PromptVersion.Same.refl _ _, fun hids ↦ ?_⟩
    exact nodup_map_concat hids fun v hv ↦ (lt_nextId (List.mem_map_of_mem hv)).ne
  | _ => exact .of_eq rfl

theorem TitleStep.keeps {c c' : TitleCall} (h : TitleStep st c st' c') :
    st.Keeps st' ∧ st'.aliases = st.aliases := by
  cases h with
  | @update _ row t h =>
    rw [PromptStore.updateTitle] at h
    split_ifs at h
    obtain rfl := Option.some.inj h
    refine ⟨⟨.map fun v _ ↦ ?_, fun hids ↦ ?_⟩, rfl⟩
    · split_ifs
      · exact ⟨rfl, rfl, rfl, rfl⟩
      · exact .refl v
    · rw [List.map_map]
      refine (List.map_congr_left fun v _ ↦ ?_).symm ▸ hids
      simp only [Function.comp_apply]
      split_ifs <;> rfl
  | _ => exact ⟨.of_eq rfl, rfl⟩

/-- Versions may be added and aliases may go. -/
theorem PromptStore.AliasTable.mono (h : st.AliasTable u) (hst : st.Keeps st')
    (haliases : st'.aliases.Sublist st.aliases) : st'.AliasTable u where
  ids := h.ids.sublist (haliases.map _)
  unique := h.unique.sublist (haliases.map _)
  versions := hst.ids h.versions
  normal r hr := h.normal r (haliases.subset hr)
  names r hr := by
    obtain ⟨v, hv, hid, hslot⟩ := h.names r (haliases.subset hr)
    obtain ⟨v', hv', hsame⟩ := hst.versions.exists_mem hv
    exact ⟨v', hv', hsame.1.trans hid, hsame.2.1.trans hslot⟩

/-! ## What a call knows -/

/-- The arguments of a call that has checked its version, until it has moved its alias. -/
def AliasCall.checkedArgs : AliasCall K → Option AliasArgs
  | .checked a => some a
  | c => c.passed

/-- The version of a call is one of its slot, and the row it has loaded is that of its alias. -/
structure AliasCall.Knows (u : Unicode) (st : PromptStore K) (c : AliasCall K) : Prop where
  /-- The alias was normalised. -/
  normal : ∀ a, c.checkedArgs = some a → ∃ n, normalizeAlias u n = a.aliasName
  /-- The version was looked up. -/
  version : ∀ a, c.checkedArgs = some a → ∃ v ∈ st.versions, v.id = a.versionId ∧
    v.slotName = a.slotName
  /-- The row was looked up. -/
  row : ∀ a seen row, c = .found a seen row →
    row.slotName = a.slotName ∧ row.aliasName = a.aliasName

theorem AliasCall.Knows.of_none {c : AliasCall K} (h : c.checkedArgs = none) : c.Knows u st where
  normal a ha := by rw [h] at ha; cases ha
  version a ha := by rw [h] at ha; cases ha
  row a seen row hc := by rw [hc] at h; cases h

theorem AliasCall.Knows.mono {c : AliasCall K} (h : c.Knows u st)
    (hst : Grown PromptVersion.Same st.versions st'.versions) : c.Knows u st' where
  normal := h.normal
  version a ha := by
    obtain ⟨v, hv, hid, hslot⟩ := h.version a ha
    obtain ⟨v', hv', hsame⟩ := hst.exists_mem hv
    exact ⟨v', hv', hsame.1.trans hid, hsame.2.1.trans hslot⟩
  row := h.row

theorem PromptStore.promptAlias_eq_some {s n : Str} {row : PromptAlias}
    (h : st.promptAlias s n = some row) :
    row ∈ st.aliases ∧ row.slotName = s ∧ row.aliasName = n := by
  have hmatch : row.slotName = s ∧ row.aliasName = n := by simpa using List.find?_some h
  exact ⟨List.mem_of_find?_eq_some h, hmatch⟩

/-- What a thread knows. -/
def RegistryCall.Knows (u : Unicode) (st : PromptStore K) : RegistryCall K ρ → Prop
  | .prompts (.setAlias c _) => c.Knows u st
  | _ => True

theorem RegistryCall.Knows.mono {t : RegistryCall K ρ} (h : t.Knows u st)
    (hst : Grown PromptVersion.Same st.versions st'.versions) : t.Knows u st' := by
  cases t with
  | prompts c =>
    cases c with
    | setAlias call w => exact AliasCall.Knows.mono h hst
    | _ => trivial
  | setTitle c => trivial

/-! ## Steps -/

section

variable [LinearOrder K] [Field K] {σ σ' : EvalStore K ρ}

theorem AliasStep.versions {g : EvalGate K} {c c' : AliasCall K} (h : AliasStep u g st c st' c') :
    st'.versions = st.versions := by
  rcases h.effect with rfl | ⟨a, seen, now, rfl, hins⟩ | ⟨a, seen, row, now, rfl, rfl, hup⟩
  · rfl
  · rw [(PromptStore.insertAlias_eq_some hins).2]
  · rw [PromptStore.updateAlias_eq_some hup]

theorem EvalStep.versions {e e' : GoldenEval K ρ} (h : EvalStep σ e σ' e') :
    σ'.prompts.versions = σ.prompts.versions := by
  cases h with
  | insert h =>
    rw [PromptStore.insertSummary] at h
    split_ifs at h
    obtain rfl := Option.some.inj h
    rfl
  | _ => rfl

/-- **Only setting an alias writes an alias**: the other calls keep the versions, and at most delete
aliases. -/
theorem PromptsStep.effect {c c' : PromptsCall K ρ} (h : PromptsStep u σ c σ' c') :
    (∃ call w call' w', c = .setAlias call w ∧ c' = .setAlias call' w' ∧
      AliasStep u σ.gate σ.prompts call σ'.prompts call') ∨
    (σ.prompts.Keeps σ'.prompts ∧ σ'.prompts.aliases.Sublist σ.prompts.aliases ∧
      ∀ call w, c' = .setAlias call w → ∃ s n v, call = .called s n v) := by
  have hframe {σ' : EvalStore K ρ} {c' : PromptsCall K ρ} (hst : σ'.prompts = σ.prompts)
      (hc' : ∀ call w, c' = .setAlias call w → ∃ s n v, call = .called s n v) :
      σ.prompts.Keeps σ'.prompts ∧ σ'.prompts.aliases.Sublist σ.prompts.aliases ∧
        ∀ call w, c' = .setAlias call w → ∃ s n v, call = .called s n v :=
    ⟨.of_eq (by rw [hst]), by rw [hst], hc'⟩
  cases h with
  | setGoldenSet s cases runner =>
    exact .inr (hframe (setGoldenSet_prompts s cases runner σ) fun _ _ hcall ↦ by cases hcall)
  | clearGoldenSet name =>
    exact .inr (hframe (clearGoldenSet_prompts name σ) fun _ _ hcall ↦ by cases hcall)
  | setAlias h => exact .inl ⟨_, _, _, _, rfl, rfl, h⟩
  | startSetAlias s n v =>
    refine .inr (hframe rfl fun call w hcall ↦ ?_)
    obtain ⟨rfl, -⟩ := PromptsCall.setAlias.inj hcall
    exact ⟨s, n, v, rfl⟩
  | clearAlias h =>
    refine .inr ⟨?_, ?_, fun _ _ hcall ↦ by cases hcall⟩
    · cases h <;> exact .of_eq rfl
    · cases h with
      | delete => exact List.filter_sublist
      | _ => exact List.Sublist.refl _
  | register h =>
    exact .inr ⟨h.keeps, h.aliases ▸ List.Sublist.refl _, fun _ _ hcall ↦ by cases hcall⟩
  | detecting h =>
    exact .inr ⟨.of_eq h.versions, h.keepsEvals.2 ▸ List.Sublist.refl _,
      fun _ _ hcall ↦ by cases hcall⟩
  | evaluate h =>
    exact .inr ⟨.of_eq h.versions, h.keepsEvals.2 ▸ List.Sublist.refl _,
      fun _ _ hcall ↦ by cases hcall⟩
  | _ => exact .inr (hframe rfl fun _ _ hcall ↦ by cases hcall)

/-- What a call knows after a step of its own. -/
theorem AliasStep.knows {g : EvalGate K} {c c' : AliasCall K} (h : AliasStep u g st c st' c')
    (hc : c.Knows u st) : c'.Knows u st' := by
  cases h with
  | @check s n v row hn h hs =>
    refine ⟨fun a ha ↦ ?_, fun a ha ↦ ?_, nofun⟩
    · obtain rfl := Option.some.inj ha
      exact ⟨n, rfl⟩
    · obtain rfl := Option.some.inj ha
      exact ⟨row, List.mem_of_find?_eq_some h, by simpa using List.find?_some h, hs⟩
  | allow => exact ⟨hc.normal, hc.version, nofun⟩
  | findNone => exact ⟨hc.normal, hc.version, nofun⟩
  | integrityError => exact ⟨hc.normal, hc.version, nofun⟩
  | find h =>
    refine ⟨hc.normal, hc.version, fun a seen row heq ↦ ?_⟩
    obtain ⟨rfl, -, rfl⟩ := AliasCall.found.inj heq
    exact (PromptStore.promptAlias_eq_some h).2
  | reload h =>
    refine ⟨hc.normal, hc.version, fun a seen row heq ↦ ?_⟩
    obtain ⟨rfl, -, rfl⟩ := AliasCall.found.inj heq
    exact (PromptStore.promptAlias_eq_some h).2
  | _ => exact .of_none rfl

/-- **A row that is written** names the version of a call, which is one of the slot. -/
theorem AliasStep.aliasTable {g : EvalGate K} {c c' : AliasCall K} (h : AliasStep u g st c st' c')
    (hst : st.AliasTable u) (hc : c.Knows u st)
    (hown : ∀ a seen row id, c = .found a seen row → c' = .written id → a.UpdatesOwn row st) :
    st'.AliasTable u := by
  have hok := h.aliasesOk hst.toAliasesOk
  have hversions : (st'.versions.map PromptVersion.id).Nodup := h.versions ▸ hst.versions
  rcases h.effect with rfl | ⟨a, seen, now, rfl, hins⟩ | ⟨a, seen, row, now, rfl, rfl, hup⟩
  · exact hst
  · obtain ⟨-, rfl⟩ := PromptStore.insertAlias_eq_some hins
    refine ⟨hok, hversions, fun r hr ↦ ?_, fun r hr ↦ ?_⟩
    · rcases List.mem_append.mp hr with hr | hr
      · exact hst.normal r hr
      · rw [List.mem_singleton.mp hr]
        exact hc.normal a rfl
    · rcases List.mem_append.mp hr with hr | hr
      · exact hst.names r hr
      · rw [List.mem_singleton.mp hr]
        exact hc.version a rfl
  · obtain ⟨hslot, -⟩ := hc.row a seen row rfl
    have hreached := hown a seen row _ rfl rfl
    rw [PromptStore.updateAlias_eq_some hup] at hok hversions ⊢
    refine ⟨hok, hversions, fun r' hr' ↦ ?_, fun r' hr' ↦ ?_⟩
    · obtain ⟨r, hr, rfl⟩ := List.mem_map.mp hr'
      split_ifs
      · exact hst.normal r hr
      · exact hst.normal r hr
    · obtain ⟨r, hr, rfl⟩ := List.mem_map.mp hr'
      split_ifs with hid
      · rw [PromptAlias.move]
        dsimp only
        split_ifs with hsame
        · exact hst.names r hr
        · rw [(hreached hsame r hr hid).1, hslot]
          exact hc.version a rfl
      · exact hst.names r hr

/-- **Versions stay**, whatever row an update finds. -/
theorem RegistryStep.versions {t t' : RegistryCall K ρ} (h : RegistryStep u σ t σ' t') :
    Grown PromptVersion.Same σ.prompts.versions σ'.prompts.versions := by
  cases h with
  | prompts h =>
    rcases h.effect with ⟨call, w, call', w', rfl, rfl, hstep⟩ | ⟨hkeeps, -, -⟩
    · exact hstep.versions ▸ .refl PromptVersion.Same.refl _
    · exact hkeeps.versions
  | startSetTitle v t => exact .refl PromptVersion.Same.refl _
  | setTitle h => exact h.keeps.1.versions
  | stop => exact .refl PromptVersion.Same.refl _

/-- **Every run leaves versions as they are**, but for their titles. -/
theorem RegistrySystem.versions {c d : RegistrySystem ι K ρ} (h : Steps (RegistryStep u) c d) :
    Grown PromptVersion.Same c.shared.prompts.versions d.shared.prompts.versions := by
  have htrans (σ₁ σ₂ σ₃ : EvalStore K ρ)
      (h : Grown PromptVersion.Same σ₁.prompts.versions σ₂.prompts.versions)
      (h' : Grown PromptVersion.Same σ₂.prompts.versions σ₃.prompts.versions) :
      Grown PromptVersion.Same σ₁.prompts.versions σ₃.prompts.versions :=
    Grown.trans (r := PromptVersion.Same) (fun _ _ _ ↦ PromptVersion.Same.trans) h h'
  exact Steps.rely
    (R := fun σ σ' ↦ Grown PromptVersion.Same σ.prompts.versions σ'.prompts.versions)
    (fun _ ↦ .refl PromptVersion.Same.refl _) htrans h fun _ _ _ _ _ hstep ↦ hstep.versions

/-- **One step of any thread.** -/
theorem OwnStep.integrity {t t' : RegistryCall K ρ} (h : OwnStep u σ t σ' t')
    (hσ : σ.prompts.AliasTable u) (ht : t.Knows u σ.prompts) :
    σ'.prompts.AliasTable u ∧ t'.Knows u σ'.prompts := by
  obtain ⟨hstep, hown⟩ := h
  cases hstep with
  | @prompts σ' c c' h =>
    rcases h.effect with ⟨call, w, call', w', rfl, rfl, hstep⟩ | ⟨hkeeps, haliases, hcall⟩
    · refine ⟨hstep.aliasTable hσ ht ?_, hstep.knows ht⟩
      rintro a seen row id rfl rfl
      exact hown
    · refine ⟨hσ.mono hkeeps haliases, ?_⟩
      cases c' with
      | setAlias call w =>
        obtain ⟨s, n, v, rfl⟩ := hcall call w rfl
        exact .of_none rfl
      | _ => trivial
  | startSetTitle v t => exact ⟨hσ, trivial⟩
  | setTitle h =>
    obtain ⟨hkeeps, haliases⟩ := h.keeps
    exact ⟨hσ.mono hkeeps (haliases ▸ List.Sublist.refl _), trivial⟩
  | stop => exact ⟨hσ, trivial⟩

/-- **The premises of the rely–guarantee rule.** -/
theorem integrity_relyGuarantee : RelyGuarantee (ι := ι) (OwnStep u (K := K) (ρ := ρ))
    (fun _ ↦ True) (fun σ σ' ↦ Grown PromptVersion.Same σ.prompts.versions σ'.prompts.versions)
    (fun σ ↦ σ.prompts.AliasTable u) (fun σ t ↦ t.Knows u σ.prompts) where
  step _ _ _ _ _ _ hσ ht hstep := ⟨hstep.1.versions, hstep.integrity hσ ht⟩
  stable _ _ _ hst ht := ht.mono hst

/-- Every state that is reached, and what its threads know. -/
theorem RegistrySystem.integrity {thresholds : RegressionThresholds K} {c : RegistrySystem ι K ρ}
    (h : Steps (OwnStep u) (RegistrySystem.init ι ρ thresholds) c) :
    c.shared.prompts.AliasTable u ∧ ∀ i, (c.locals i).Knows u c.shared.prompts := by
  refine integrity_relyGuarantee.steps h (fun _ _ ↦ trivial) ?_ fun i ↦ trivial
  exact ⟨⟨List.nodup_nil, List.nodup_nil⟩, List.nodup_nil, nofun, nofun⟩

/-! ## The moment of a call -/

omit [LinearOrder K] [Field K] in
/-- The alias of a row that a call has loaded names the version when the row is written. -/
theorem PromptStore.AliasTable.pointer_update {row : PromptAlias} {a : AliasArgs}
    {now : Timestamp} (hst : st.AliasTable u) (hup : st.updateAlias row a.versionId now = some st')
    (hown : a.UpdatesOwn row st)
    (hrow : row.slotName = a.slotName ∧ row.aliasName = a.aliasName)
    (hne : row.promptVersionId ≠ a.versionId) :
    st'.pointer a.slotName a.aliasName = some a.versionId := by
  have hexists : row.id ∈ st.aliases.map PromptAlias.id := by
    rw [PromptStore.updateAlias] at hup
    split_ifs at hup with h
    exact h
  obtain ⟨r, hr, hid⟩ := List.mem_map.mp hexists
  obtain ⟨hs, hn⟩ := hown hne r hr hid
  have hsome : st.promptAlias a.slotName a.aliasName ≠ none := fun hnone ↦
    List.find?_eq_none.mp hnone r hr (by simp [hs, hn, hrow.1, hrow.2])
  obtain ⟨r', hr'⟩ := Option.ne_none_iff_exists'.mp hsome
  obtain ⟨hmem, hs', hn'⟩ := PromptStore.promptAlias_eq_some hr'
  -- the constraint allows one row for the alias
  have hsame : r' = r := List.inj_on_of_nodup_map hst.unique hmem hr (by
    rw [hs', hn', hs, hn, hrow.1, hrow.2])
  rw [PromptStore.pointer, PromptStore.promptAlias_updateAlias hup, hr', hsame, Option.map_some,
    Option.map_some, if_pos hid, PromptAlias.move, if_neg hne]

omit [LinearOrder K] [Field K] in
theorem PromptStore.pointer_insert {a : AliasArgs} {now : Timestamp}
    (hins : st.insertAlias (st.newAlias a.slotName a.aliasName a.versionId now) = some st') :
    st'.pointer a.slotName a.aliasName = some a.versionId := by
  obtain ⟨hnone, rfl⟩ := PromptStore.insertAlias_eq_some hins
  have hnone' : st.aliases.find? (fun r ↦ r.slotName = a.slotName ∧ r.aliasName = a.aliasName) =
      none := hnone
  rw [PromptStore.pointer, PromptStore.promptAlias, List.find?_append, hnone', Option.none_or,
    List.find?_cons_of_pos (by simp [PromptStore.newAlias])]
  rfl

/-- A call that is to make the alias `n` of `s` name `v`, and where it stands.  It is `named` that
the alias has named the version since the call began. -/
def AliasCall.On (u : Unicode) (s n : Str) (v : ℤ) (named : Prop) : AliasCall K → Prop
  | .called s' n' v' => s' = s ∧ normalizeAlias u n' = n ∧ v' = v
  | .checked a => a = ⟨s, n, v⟩
  | .gated a _ => a = ⟨s, n, v⟩
  | .absent a _ => a = ⟨s, n, v⟩
  | .conflicted a _ => a = ⟨s, n, v⟩
  | .found a _ row => a = ⟨s, n, v⟩ ∧ (row.promptVersionId = v → named)
  | .written _ => named
  | .returned _ => named
  | .raised _ => True

omit [LinearOrder K] [Field K] in
theorem AliasCall.On.mono {s n : Str} {v : ℤ} {named named' : Prop} {c : AliasCall K}
    (h : c.On u s n v named) (hnamed : named → named') : c.On u s n v named' := by
  cases c with
  | found a seen row => exact ⟨h.1, fun hrow ↦ hnamed (h.2 hrow)⟩
  | written id => exact hnamed h
  | returned row => exact hnamed h
  | _ => exact h

/-- **One step of the call**: the alias names the version when the row is loaded that names it
already, or when it is written. -/
theorem AliasStep.on {g : EvalGate K} {c c' : AliasCall K} {s n : Str} {v : ℤ}
    {named named' : Prop} (h : AliasStep u g st c st' c') (hon : c.On u s n v named)
    (hst : st.AliasTable u) (hc : c.Knows u st)
    (hown : ∀ a seen row id, c = .found a seen row → c' = .written id → a.UpdatesOwn row st)
    (hnamed : named → named') (hnow : st'.pointer s n = some v → named') :
    c'.On u s n v named' := by
  cases h with
  | check hn h hs =>
    obtain ⟨rfl, rfl, rfl⟩ := hon
    rfl
  | allow => exact hon
  | findNone => exact hon
  | integrityError => exact hon
  | find h =>
    obtain rfl := hon
    exact ⟨rfl, fun hv ↦ hnow (by rw [PromptStore.pointer, h, Option.map_some, hv])⟩
  | reload h =>
    obtain rfl := hon
    exact ⟨rfl, fun hv ↦ hnow (by rw [PromptStore.pointer, h, Option.map_some, hv])⟩
  | insert now h =>
    obtain rfl := hon
    exact hnow (PromptStore.pointer_insert h)
  | @update st' a seen row now h =>
    obtain ⟨rfl, hseen⟩ := hon
    by_cases hv : row.promptVersionId = v
    · exact hnamed (hseen hv)
    · exact hnow (hst.pointer_update h (hown _ seen row _ rfl rfl) (hc.row _ seen row rfl) hv)
  | refresh h => exact hnamed hon
  | _ => trivial

/-- The thread is still in the call it was in. -/
def RegistryCall.Busy (t : RegistryCall K ρ) : Prop := t ≠ .idle

/-- **The run of a call**: as long as its thread stays in it, the call is on its way. -/
theorem RegistrySystem.on {thresholds : RegressionThresholds K} {c d : RegistrySystem ι K ρ} {i : ι}
    {s n : Str} {v : ℤ} {w : Bool}
    (hc : Steps (OwnStep u) (RegistrySystem.init ι ρ thresholds) c)
    (hi : c.locals i = .prompts (.setAlias (.called s n v) w))
    (h : StepsWhile (OwnStep u) i RegistryCall.Busy c d) :
    ∃ call w', d.locals i = .prompts (.setAlias call w') ∧
      call.On u s (normalizeAlias u n) v (Passed (OwnStep u) i RegistryCall.Busy
        (fun σ ↦ σ.prompts.pointer s (normalizeAlias u n) = some v) c d) := by
  induction h with
  | refl => exact ⟨_, _, hi, rfl, rfl, rfl⟩
  | @tail d e hcd hde ih =>
    obtain ⟨call, w', hd, hon⟩ := ih
    obtain ⟨⟨j, σ', t', ht, rfl⟩, hbusy⟩ := hde
    have hnext := hcd.tail ⟨⟨j, σ', t', ht, rfl⟩, hbusy⟩
    by_cases hji : i = j
    · subst hji
      obtain ⟨hst, hknows⟩ := RegistrySystem.integrity (hc.trans (StepsWhile.steps hcd))
      have hcall := hknows i
      rw [hd] at ht hcall
      rw [Config.set_locals_self] at hbusy ⊢
      obtain ⟨hstep, hown⟩ := ht
      cases hstep with
      | prompts h =>
        cases h with
        | stop => exact absurd rfl hbusy
        | setAlias h =>
          refine ⟨_, _, rfl, h.on hon hst hcall ?_ (fun hnamed ↦ hnamed.tail ?_) fun hnow ↦ ?_⟩
          · rintro a seen row id rfl rfl
            exact hown
          · refine ⟨⟨i, _, _, ?_, rfl⟩, by rwa [Config.set_locals_self]⟩
            rw [hd]
            exact ⟨.prompts (.setAlias h), hown⟩
          · exact .now hnext hnow
    · rw [Config.set_locals_ne d σ' t' hji]
      refine ⟨call, w', hd, hon.mono fun hnamed ↦ hnamed.tail ?_⟩
      exact ⟨⟨j, σ', t', ht, rfl⟩, hbusy⟩

/-- **Alias integrity**: in every state reached without a version being written to another alias
than the one that was loaded, every alias names a version of its slot, in one row, and none is
missing; versions change nothing but their titles; and a call that sets an alias and returns has had
a moment at which the alias named its version. -/
theorem alias_integrity {thresholds : RegressionThresholds K} {c : RegistrySystem ι K ρ}
    (hc : Steps (OwnStep u) (RegistrySystem.init ι ρ thresholds) c) :
    c.shared.prompts.Integrity u ∧
    (∀ s n e, resolvePromptAlias u c.shared.prompts s n ≠ .error e) ∧
    (∀ d, Steps (RegistryStep u) c d →
      Grown PromptVersion.Same c.shared.prompts.versions d.shared.prompts.versions) ∧
    ∀ i s n v w d row w', c.locals i = .prompts (.setAlias (.called s n v) w) →
      StepsWhile (OwnStep u) i RegistryCall.Busy c d →
      d.locals i = .prompts (.setAlias (.returned row) w') →
      Passed (OwnStep u) i RegistryCall.Busy
        (fun σ ↦ σ.prompts.pointer s (normalizeAlias u n) = some v) c d := by
  obtain ⟨htable, -⟩ := RegistrySystem.integrity hc
  refine ⟨htable.integrity, htable.integrity.resolves, fun _ ↦ RegistrySystem.versions,
    fun i s n v w d row w' hi hd hret ↦ ?_⟩
  obtain ⟨call, w'', hd', hon⟩ := RegistrySystem.on hc hi hd
  obtain ⟨rfl, -⟩ := PromptsCall.setAlias.inj (RegistryCall.prompts.inj (hret.symm.trans hd'))
  exact hon

end

/-- A version is registered, and an alias is set to it. -/
theorem alias_integrity_alone : ∃ c d : RegistrySystem Unit ℚ Unit,
    c.shared.prompts.Integrity .ascii ∧ d.shared.prompts.aliases = [canaryAlias 1] ∧
      Passed (OwnStep .ascii) () RegistryCall.Busy
        (fun σ ↦ σ.prompts.pointer support (normalizeAlias .ascii canary) = some 1) c d := by
  let s (versions : List PromptVersion) (l : List PromptAlias) : EvalStore ℚ Unit :=
    ⟨⟨versions, l, []⟩, [], defaultThresholds, []⟩
  let a : RegisterArgs := ⟨support, "Refund?".toList, none⟩
  let b : AliasArgs := ⟨support, canary, 1⟩
  have hcanary : normalizeAlias .ascii canary = canary := by decide
  have hungated : canary ≠ production := by decide
  have hstep {σ σ' : EvalStore ℚ Unit} {t t' : PromptsCall ℚ Unit}
      (h : PromptsStep .ascii σ t σ' t')
      (ht : RegistryCall.UpdatesOwn σ.prompts (.prompts t) (.prompts t')) :
      OwnStep .ascii σ (.prompts t) σ' (.prompts t') := ⟨.prompts h, ht⟩
  have hinsertVersion : PromptsStep .ascii (s [] []) (.register (.counted a 0))
      (s [refundVersion] []) (.register (.committed a refundVersion)) :=
    .register (.insert noon) fun _ _ h ↦ by cases h
  have hcheck : AliasStep .ascii (s [refundVersion] []).gate (s [refundVersion] []).prompts
      (.called support canary 1) (s [refundVersion] []).prompts (.checked b) :=
    .check_normal hcanary (by decide) rfl rfl
  have hinsert : AliasStep .ascii (s [refundVersion] []).gate (s [refundVersion] []).prompts
      (.absent b none) (s [refundVersion] [canaryAlias 1]).prompts (.written 1) :=
    .insert noon rfl
  -- the version is registered
  have h0 : Steps (OwnStep .ascii) (RegistrySystem.init Unit Unit defaultThresholds)
      (RegistrySystem.init Unit Unit defaultThresholds) := .refl
  have h1 := Steps.thread h0 () (hstep (.startRegister a) trivial)
  have h2 := Steps.thread h1 () (hstep (.register (.miss rfl) fun _ _ h ↦ by cases h) trivial)
  have h3 := Steps.thread h2 () (hstep (.register .count fun _ _ h ↦ by cases h) trivial)
  have h4 := Steps.thread h3 () (hstep hinsertVersion trivial)
  have h5 := Steps.thread h4 () (hstep .stop trivial)
  have h6 := Steps.thread h5 () (hstep (.startSetAlias support canary 1) trivial)
  -- and the alias is set
  let c : RegistrySystem Unit ℚ Unit := ⟨s [refundVersion] [], fun _ ↦
    .prompts (.setAlias (.called support canary 1) false)⟩
  have hc : Steps (OwnStep .ascii) (RegistrySystem.init Unit Unit defaultThresholds) c := h6
  have hbusy (call : AliasCall ℚ) (w : Bool) :
      RegistryCall.Busy (.prompts (.setAlias (ρ := Unit) call w)) := nofun
  have w0 : StepsWhile (OwnStep .ascii) () RegistryCall.Busy c c := .refl
  have w1 := StepsWhile.thread w0 (hstep (.setAlias hcheck) trivial) (hbusy _ _)
  have w2 := StepsWhile.thread w1 (hstep (.setAlias (.allow (absurd · hungated))) trivial)
    (hbusy _ _)
  have w3 := StepsWhile.thread w2 (hstep (.setAlias (.findNone rfl)) trivial) (hbusy _ _)
  have w4 := StepsWhile.thread w3 (hstep (.setAlias hinsert) trivial) (hbusy _ _)
  have w5 := StepsWhile.thread w4 (hstep (.setAlias (.refresh rfl)) trivial) (hbusy _ _)
  have hintegrity := alias_integrity hc
  exact ⟨c, _, hintegrity.1, rfl, hintegrity.2.2.2 () _ _ _ _ _ _ _ rfl w5 rfl⟩

/-! ### A key that is given out again

Versions 1 and 2 are of one slot and version 3 is of another. -/

/-- The other slot. -/
def billing : Str := "billing".toList

/-- The versions are registered, and `canary` names version 2. -/
def canaryRequests : List (PromptsRequest ℚ Unit) :=
  [.register ⟨support, "Refund?".toList, none⟩ ⟨noon, fun _ ↦ none⟩,
    .register ⟨support, "Refund!".toList, none⟩ ⟨noon, fun _ ↦ none⟩,
    .register ⟨billing, "Invoice?".toList, none⟩ ⟨noon, fun _ ↦ none⟩,
    .setAlias support canary 2 noon]

/-- The alias is cleared, and then the other slot gets one. -/
def reuseRequests : List (PromptsRequest ℚ Unit) :=
  [.clearAlias support canary, .setAlias billing canary 3 noon]

/-- Requests that are a thread's only steps. -/
theorem RegistrySystem.runAll [LinearOrder K] [Field K] (c : RegistrySystem ι K ρ) {i : ι}
    (hi : c.locals i = .idle) (requests : List (PromptsRequest K ρ)) :
    Steps (RegistryStep u) c (c.set i (c.shared.runAll u requests) .idle) :=
  Solo.lift .prompts i rfl hi (EvalStore.runAll_solo requests _)

/-- **An alias names a version of another slot.**  A call that has loaded the alias of one slot
writes its version to the alias of the other slot, which was given the key. -/
theorem alias_key_reuse : ∃ c : RegistrySystem ℕ ℚ Unit,
    Steps (RegistryStep .ascii) (RegistrySystem.init ℕ Unit defaultThresholds) c ∧
    (∃ row w, c.locals 1 = .prompts (.setAlias (.returned row) w)) ∧
    c.shared.prompts.pointer billing canary = some 1 ∧ ¬ c.shared.prompts.Integrity .ascii := by
  let c : RegistrySystem ℕ ℚ Unit := RegistrySystem.init ℕ Unit defaultThresholds
  let σ := c.shared.runAll .ascii canaryRequests
  let σ' := σ.runAll .ascii reuseRequests
  let a : AliasArgs := ⟨support, canary, 1⟩
  have hversion : (σ.prompts.version 1).map PromptVersion.slotName = some support := by
    decide +kernel
  have hrow : σ.prompts.promptAlias support canary = some (canaryAlias 2) := by decide +kernel
  have haliases : σ'.prompts.aliases = [⟨1, billing, canary, 3, (utcnow noon).column⟩] := by
    decide +kernel
  have hslot : ∀ v ∈ σ'.prompts.versions, v.id = 1 → v.slotName = support := by decide +kernel
  have h0 : Steps (RegistryStep .ascii) c (c.set 0 σ .idle) :=
    RegistrySystem.runAll c rfl canaryRequests
  obtain ⟨version, hversion, hs⟩ := Option.map_eq_some_iff.mp hversion
  clear_value σ
  let seen := σ.prompts.pointer support canary
  let row : PromptAlias := ⟨1, billing, canary, 1, (utcnow noon).column⟩
  have hcheck : AliasStep .ascii σ.gate σ.prompts (.called support canary 1) σ.prompts
      (.checked a) :=
    .check_normal (by decide) (by decide) hversion hs
  have hallow : AliasStep .ascii σ.gate σ.prompts (.checked a) σ.prompts (.gated a seen) :=
    .allow fun h ↦ absurd h (by decide : canary ≠ production)
  have hfind : AliasStep .ascii σ.gate σ.prompts (.gated a seen) σ.prompts
      (.found a seen (canaryAlias 2)) := .find hrow
  have hupdate : AliasStep .ascii σ'.gate σ'.prompts (.found a seen (canaryAlias 2))
      { σ'.prompts with aliases := [row] } (.written 1) := by
    refine .update noon ?_
    rw [PromptStore.updateAlias, haliases]
    rfl
  -- the call loads the row of its alias
  have h1 := Steps.thread h0 1 (.prompts (.startSetAlias support canary 1))
  have h2 := Steps.thread h1 1 (.prompts (.setAlias hcheck))
  have h3 := Steps.thread h2 1 (.prompts (.setAlias hallow))
  have h4 := Steps.thread h3 1 (.prompts (.setAlias hfind))
  -- its key is given to the alias of the other slot
  have h5 := h4.trans (RegistrySystem.runAll _ (i := 2) rfl reuseRequests)
  -- and there the version is written
  have h6 := Steps.thread h5 1 (.prompts (.setAlias hupdate))
  have h7 := Steps.thread h6 1 (.prompts (.setAlias (.refresh rfl)))
  refine ⟨_, h7, ⟨row, _, rfl⟩, rfl, fun hintegrity ↦ ?_⟩
  obtain ⟨v, hv, hid, hbilling⟩ := hintegrity.names row (List.mem_singleton_self row)
  exact absurd ((hslot v hv hid).symm.trans hbilling) (by decide)

end WiseTraceLoom
