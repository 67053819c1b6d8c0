import WiseTraceLoom.Lib.NumberedLog
import WiseTraceLoom.Lib.Interleaving
import WiseTraceLoom.Prompts.Alias
import WiseTraceLoom.Storage.Config

/-!
# Registering prompt versions

A version is identified by its slot and by the fingerprint of its template.  A call looks the
fingerprint up, counts the versions of the slot, and inserts the next one, in three statements; the
table has no constraint on slot and fingerprint or on slot and number.  `RegisterStep` is one step
of a call that runs among others.

So the identity of versions depends on nobody registering in between.  A `SparingStep` inserts a row
only if its slot is as the call has found it; runs of such steps keep the identity
(`version_identity_of_sparing`), and the first step that is none breaks it.
-/

set_option autoImplicit false

namespace WiseTraceLoom

open Interleaving NumberedLog

variable {K : Type}

/-! ## Fingerprints -/

/-- The template without white space around it or at the end of a line. -/
def normalizedTemplate (template : Str) : Str :=
  Text.join ['\n'] ((Text.splitlines (Text.strip template)).map Text.rstrip)

/-- `fingerprint_prompt`. -/
def fingerprintPrompt (template : Str) (modelParams : Option Payload) : Str :=
  Sha256.hexdigest
    (normalizedTemplate template ++ '\x00' :: Json.dumps (.obj (modelParams.getD [])))

/-! ## The statements -/

/-- The versions of a slot. -/
def PromptStore.slot (st : PromptStore K) (slotName : Str) : List PromptVersion :=
  st.versions.filter fun row ↦ row.slotName = slotName

/-- The first version of a slot with a fingerprint. -/
def PromptStore.withHash (st : PromptStore K) (slotName contentHash : Str) :
    Option PromptVersion :=
  st.versions.find? fun row ↦ row.slotName = slotName ∧ row.contentHash = contentHash

/-- `strftime('%Y-%m-%dT%H:%MZ')`. -/
def Timestamp.minutes (t : Timestamp) : Str :=
  Text.zeroPad 4 t.year ++ '-' :: Text.zeroPad 2 t.month ++ '-' :: Text.zeroPad 2 t.day ++
    'T' :: Text.zeroPad 2 t.hour ++ ':' :: Text.zeroPad 2 t.minute ++ ['Z']

/-- The title of a version until it is given another one. -/
def defaultTitle (slotName : Str) (versionNumber : ℤ) (now : Timestamp) : Str :=
  slotName ++ " — v".toList ++ Text.ofInt versionNumber ++ " — ".toList ++ now.minutes

/-- The arguments of `register_prompt_version`. -/
structure RegisterArgs where
  /-- The slot. -/
  slotName : Str
  /-- The template. -/
  template : Str
  /-- The parameters of the model. -/
  modelParams : Option Payload

/-- The fingerprint, made once before the first statement. -/
def RegisterArgs.contentHash (a : RegisterArgs) : Str := fingerprintPrompt a.template a.modelParams

/-- The row a call inserts that has counted `prior` versions. -/
def RegisterArgs.row (a : RegisterArgs) (id : ℤ) (prior : ℕ) (now : Timestamp) : PromptVersion where
  id := id
  slotName := a.slotName
  contentHash := a.contentHash
  versionNumber := prior + 1
  title := defaultTitle a.slotName (prior + 1) now
  createdAt := (utcnow now).column

/-- The insert of a version and its commit.  No constraint is checked. -/
def PromptStore.insertVersion (st : PromptStore K) (row : PromptVersion) : PromptStore K :=
  { st with versions := st.versions ++ [row] }

/-- `_persist_summary`: a version has one summary, which is overwritten. -/
def PromptStore.persistSummary (st : PromptStore K) (summary : EvalSummary K) : PromptStore K :=
  { st with
    summaries :=
      match st.evalSummary summary.promptVersionId with
      | none => st.summaries ++ [summary]
      | some existing =>
        replaceFirst (fun s ↦ s.promptVersionId = summary.promptVersionId)
          { summary with slotName := existing.slotName } st.summaries }

/-! ## A call among others -/

/-- Where a call to `register_prompt_version` stands. -/
inductive RegisterCall where
  | called (a : RegisterArgs)
  /-- The slot has no version with this fingerprint. -/
  | missed (a : RegisterArgs)
  /-- The slot has this many versions. -/
  | counted (a : RegisterArgs) (prior : ℕ)
  /-- The row was committed and has yet to be evaluated. -/
  | committed (a : RegisterArgs) (row : PromptVersion)
  | returned (a : RegisterArgs) (row : PromptVersion)
  | raised (a : RegisterArgs)

/-- The arguments of a call. -/
def RegisterCall.args : RegisterCall → RegisterArgs
  | .called a => a
  | .missed a => a
  | .counted a _ => a
  | .committed a _ => a
  | .returned a _ => a
  | .raised a => a

/-- Has the call ended? -/
def RegisterCall.ended : RegisterCall → Bool
  | .returned _ _ => true
  | .raised _ => true
  | _ => false

/-- One step of a call to `register_prompt_version`. -/
inductive RegisterStep : PromptStore K → RegisterCall → PromptStore K → RegisterCall → Prop
  | link {st : PromptStore K} {a : RegisterArgs} {row : PromptVersion}
      (h : st.withHash a.slotName a.contentHash = some row) :
      RegisterStep st (.called a) st (.returned a row)
  | miss {st : PromptStore K} {a : RegisterArgs}
      (h : st.withHash a.slotName a.contentHash = none) :
      RegisterStep st (.called a) st (.missed a)
  | count {st : PromptStore K} {a : RegisterArgs} :
      RegisterStep st (.missed a) st (.counted a (st.slot a.slotName).length)
  | insert {st : PromptStore K} {a : RegisterArgs} {prior : ℕ} (now : Timestamp) :
      RegisterStep st (.counted a prior)
        (st.insertVersion (a.row (nextId (st.versions.map PromptVersion.id)) prior now))
        (.committed a (a.row (nextId (st.versions.map PromptVersion.id)) prior now))
  /-- The slot has no golden set, or its runner has raised. -/
  | skip {st : PromptStore K} {a : RegisterArgs} {row : PromptVersion} :
      RegisterStep st (.committed a row) st (.returned a row)
  | evaluate {st : PromptStore K} {a : RegisterArgs} {row : PromptVersion}
      (summary : EvalSummary K) (h : summary.promptVersionId = row.id) :
      RegisterStep st (.committed a row) (st.persistSummary summary) (.returned a row)
  /-- A statement raises. -/
  | fail {st : PromptStore K} {c : RegisterCall} (h : c.ended = false) :
      RegisterStep st c st (.raised c.args)

/-- **What a step can do to the versions**: nothing, or add the row it has counted for. -/
theorem RegisterStep.effect {st st' : PromptStore K} {c c' : RegisterCall}
    (h : RegisterStep st c st' c') :
    st'.versions = st.versions ∨ ∃ a prior row, c = .counted a prior ∧ c' = .committed a row ∧
      st'.versions = st.versions ++ [row] ∧ row.slotName = a.slotName ∧
      row.contentHash = a.contentHash ∧ row.versionNumber = prior + 1 := by
  cases h
  case insert a prior now => exact Or.inr ⟨a, prior, _, rfl, rfl, rfl, rfl, rfl, rfl⟩
  all_goals exact Or.inl rfl

/-- What a call works for does not change. -/
theorem RegisterStep.args {st st' : PromptStore K} {c c' : RegisterCall}
    (h : RegisterStep st c st' c') : c'.args = c.args := by
  cases h <;> rfl

/-! ## Identity -/

variable {ι : Type}

/-- Any number of calls on one table. -/
abbrev Registrations (ι K : Type) := Config ι (PromptStore K) RegisterCall

/-- No version yet, and every call about to start. -/
def Registrations.init (K : Type) (args : ι → RegisterArgs) : Registrations ι K :=
  ⟨⟨[], [], []⟩, fun i ↦ .called (args i)⟩

/-- A version is identified by its slot and its fingerprint. -/
structure VersionIdentity (c : Registrations ι K) : Prop where
  /-- No slot has two versions of one fingerprint. -/
  hashes : ∀ s, ((c.shared.slot s).map PromptVersion.contentHash).Nodup
  /-- The versions of a slot are numbered `1, …, n`. -/
  numbers : ∀ s, ((c.shared.slot s).map PromptVersion.versionNumber).Perm
    ((List.range (c.shared.slot s).length).map fun k : ℕ ↦ (k : ℤ) + 1)
  /-- Calls for the same slot and fingerprint have returned the same row. -/
  ids : ∀ i j a a' row row', c.locals i = .returned a row → c.locals j = .returned a' row' →
    a.slotName = a'.slotName → a.contentHash = a'.contentHash → row.id = row'.id

/-- The slot is still as the call has found it: without the fingerprint, and with as many versions
as it has counted. -/
def PromptStore.AsFound (st : PromptStore K) (a : RegisterArgs) (prior : ℕ) : Prop :=
  st.withHash a.slotName a.contentHash = none ∧ (st.slot a.slotName).length = prior

/-- A step that inserts a row only into a slot that is still as its call has found it. -/
def SparingStep (st : PromptStore K) (c : RegisterCall) (st' : PromptStore K) (c' : RegisterCall) :
    Prop :=
  RegisterStep st c st' c' ∧
    ∀ a prior row, c = .counted a prior → c' = .committed a row → st.AsFound a prior

/-! ## The invariant -/

/-- The versions of every slot are numbered in order and have different fingerprints. -/
structure PromptStore.VersionsOk (st : PromptStore K) : Prop where
  /-- The numbers are `1, …, n`. -/
  numbered : ∀ s, Numbered PromptVersion.versionNumber (st.slot s)
  /-- The fingerprints are different. -/
  distinct : ∀ s, ((st.slot s).map PromptVersion.contentHash).Nodup

/-- What a call knows: the number it has counted is not too large, and the row it has is its own. -/
def RegisterCall.Ok (st : PromptStore K) : RegisterCall → Prop
  | .counted a prior => prior ≤ (st.slot a.slotName).length
  | .committed a row => row ∈ st.slot a.slotName ∧ row.contentHash = a.contentHash
  | .returned a row => row ∈ st.slot a.slotName ∧ row.contentHash = a.contentHash
  | _ => True

variable {st st' : PromptStore K}

theorem PromptStore.slot_of_versions (h : st'.versions = st.versions) (s : Str) :
    st'.slot s = st.slot s := by
  rw [slot, slot, h]

theorem PromptStore.slot_concat {row : PromptVersion} (h : st'.versions = st.versions ++ [row])
    (s : Str) : st'.slot s = st.slot s ++ if row.slotName = s then [row] else [] := by
  rw [slot, slot, h, List.filter_append, List.filter_singleton]
  simp

theorem PromptStore.slot_prefix (h : st.versions <+: st'.versions) (s : Str) :
    st.slot s <+: st'.slot s := h.filter _

theorem PromptStore.withHash_eq_some {s hash : Str} {row : PromptVersion}
    (h : st.withHash s hash = some row) : row ∈ st.slot s ∧ row.contentHash = hash := by
  have hmem := List.mem_of_find?_eq_some h
  have hrow : row.slotName = s ∧ row.contentHash = hash := by
    simpa using List.find?_some h
  exact ⟨List.mem_filter.mpr ⟨hmem, by simp [hrow.1]⟩, hrow.2⟩

theorem PromptStore.withHash_eq_none {s hash : Str} :
    st.withHash s hash = none ↔ hash ∉ (st.slot s).map PromptVersion.contentHash := by
  simp [withHash, slot, List.find?_eq_none]

theorem RegisterCall.Ok.mono {c : RegisterCall} (hc : c.Ok st) (h : st.versions <+: st'.versions) :
    c.Ok st' := by
  cases c with
  | counted a prior => exact hc.trans (PromptStore.slot_prefix h a.slotName).length_le
  | committed a row => exact ⟨(PromptStore.slot_prefix h a.slotName).subset hc.1, hc.2⟩
  | returned a row => exact ⟨(PromptStore.slot_prefix h a.slotName).subset hc.1, hc.2⟩
  | _ => trivial

/-- Versions are only added. -/
theorem RegisterStep.versions_prefix {c c' : RegisterCall} (h : RegisterStep st c st' c') :
    st.versions <+: st'.versions := by
  rcases h.effect with heq | ⟨a, prior, row, -, -, heq, -⟩
  · exact heq ▸ List.prefix_refl _
  · exact heq ▸ List.prefix_append _ _

/-- **The insert keeps the identity** if the slot is as the call has found it. -/
theorem PromptStore.VersionsOk.concat {a : RegisterArgs} {prior : ℕ} {row : PromptVersion}
    (h : st.VersionsOk) (hfound : st.AsFound a prior) (hst : st'.versions = st.versions ++ [row])
    (hslot : row.slotName = a.slotName) (hhash : row.contentHash = a.contentHash)
    (hnumber : row.versionNumber = prior + 1) : st'.VersionsOk := by
  obtain ⟨hnone, hlength⟩ := hfound
  rw [withHash_eq_none] at hnone
  constructor
  · intro s
    rw [slot_concat hst]
    split_ifs with hs
    · rw [← hs, hslot]
      exact numbered_concat.mpr ⟨h.numbered _, by rw [hnumber, hlength]⟩
    · rw [List.append_nil]
      exact h.numbered s
  · intro s
    rw [slot_concat hst]
    split_ifs with hs
    · rw [← hs, hslot, List.map_append, List.map_singleton, hhash, ← List.concat_eq_append]
      exact (h.distinct _).concat hnone
    · rw [List.append_nil]
      exact h.distinct s

/-- **One step** keeps what the call knows, whether it is sparing or not. -/
theorem RegisterStep.ok {c c' : RegisterCall} (h : RegisterStep st c st' c') (hc : c.Ok st) :
    c'.Ok st' := by
  cases h with
  | link h => exact PromptStore.withHash_eq_some h
  | count => exact le_rfl
  | @insert a prior now =>
    refine ⟨List.mem_filter.mpr ⟨List.mem_append_right _ (List.mem_singleton_self _), ?_⟩, rfl⟩
    exact decide_eq_true rfl
  | skip => exact hc
  | evaluate summary => exact hc
  | _ => trivial

/-- The invariant is the identity of versions. -/
theorem PromptStore.VersionsOk.identity {d : Registrations ι K} (h : d.shared.VersionsOk)
    (hlocals : ∀ i, (d.locals i).Ok d.shared) : VersionIdentity d where
  hashes := h.distinct
  numbers := by
    intro s
    rw [(h.numbered s).map_num]
  ids := by
    intro i j a a' row row' hi hj hslot hhash
    have hrow := hlocals i
    have hrow' := hlocals j
    rw [hi] at hrow
    rw [hj] at hrow'
    obtain ⟨hmem, hown⟩ := hrow
    obtain ⟨hmem', hown'⟩ := hrow'
    have hsame : row = row' := List.inj_on_of_nodup_map (h.distinct a.slotName) hmem
      (hslot ▸ hmem') (by rw [hown, hown', hhash])
    rw [hsame]

variable [DecidableEq ι]

/-- **The premises of the rely–guarantee rule.** -/
theorem versions_relyGuarantee :
    RelyGuarantee (ι := ι) SparingStep (fun _ ↦ True)
      (fun st st' : PromptStore K ↦ st.versions <+: st'.versions) PromptStore.VersionsOk
      (fun st c ↦ c.Ok st) where
  step := by
    rintro c i st' t' - - hst hc ⟨hstep, hsparing⟩
    refine ⟨hstep.versions_prefix, ?_, hstep.ok hc⟩
    rcases hstep.effect with heq | ⟨a, prior, row, ha, hrow, heq, hslot, hhash, hnumber⟩
    · constructor
      · intro s
        rw [PromptStore.slot_of_versions heq]
        exact hst.numbered s
      · intro s
        rw [PromptStore.slot_of_versions heq]
        exact hst.distinct s
    · exact hst.concat (hsparing a prior row ha hrow) heq hslot hhash hnumber
  stable := fun _ _ _ hprefix hc ↦ hc.mono hprefix

theorem Sparing.ok {args : ι → RegisterArgs} {d : Registrations ι K}
    (h : Steps SparingStep (Registrations.init K args) d) :
    d.shared.VersionsOk ∧ ∀ i, (d.locals i).Ok d.shared := by
  refine versions_relyGuarantee.steps h (fun _ _ ↦ trivial) ?_ fun _ ↦ trivial
  constructor
  · intro s
    exact numbered_nil
  · intro s
    exact List.nodup_nil

/-- **A step that is not sparing breaks the identity.**  Either the fingerprint is there twice, or
the number is. -/
theorem RegisterStep.not_identity {d : Registrations ι K} {i : ι} {t' : RegisterCall}
    (hst : d.shared.VersionsOk) (hc : (d.locals i).Ok d.shared)
    (h : RegisterStep d.shared (d.locals i) st' t')
    (hsparing : ¬ SparingStep d.shared (d.locals i) st' t') :
    ¬ VersionIdentity (d.set i st' t') := by
  intro hidentity
  refine hsparing ⟨h, ?_⟩
  intro a prior row ha hrow
  rcases h.effect with heq | ⟨a', prior', row', ha', hrow', heq, hslot, hhash, hnumber⟩
  · rw [ha, hrow] at h
    cases h
    simp [PromptStore.insertVersion] at heq
  · obtain ⟨rfl, rfl⟩ := RegisterCall.counted.inj (ha.symm.trans ha')
    have hslots := PromptStore.slot_concat heq a.slotName
    rw [if_pos hslot] at hslots
    have hprior : prior ≤ (d.shared.slot a.slotName).length := by
      rwa [ha] at hc
    constructor
    · rw [PromptStore.withHash_eq_none]
      intro hmem
      have hnodup := hidentity.hashes a.slotName
      rw [Config.set_shared, hslots, List.map_append, List.map_singleton, hhash] at hnodup
      exact (List.nodup_append.mp hnodup).2.2 _ hmem _ (List.mem_singleton_self _) rfl
    · by_contra hne
      have hnodup : (((d.set i st' t').shared.slot a.slotName).map
          PromptVersion.versionNumber).Nodup := by
        refine (hidentity.numbers a.slotName).nodup_iff.mpr (List.nodup_range.map ?_)
        intro k k' (hk : (k : ℤ) + 1 = k' + 1)
        omega
      rw [Config.set_shared, hslots, List.map_append, List.map_singleton, hnumber] at hnodup
      obtain ⟨taken, hmem, hversion, -⟩ := (hst.numbered a.slotName).filter_eq
        (show (1 : ℤ) ≤ prior + 1 by omega) (by omega)
      exact (List.nodup_append.mp hnodup).2.2 _ (List.mem_map.mpr ⟨taken, hmem, hversion⟩) _
        (List.mem_singleton_self _) rfl

/-- **The identity of versions**, as long as every row is inserted into a slot that is as its call
has found it.  In every run of such steps, of any number of calls and in any order, no slot has two
versions of one fingerprint, the versions of a slot are numbered `1, …, n`, and calls for the same
slot and fingerprint return the same row.  The first step that is not of this kind leaves a state in
which this is false. -/
theorem version_identity_of_sparing {args : ι → RegisterArgs} {d : Registrations ι K}
    (h : Steps SparingStep (Registrations.init K args) d) :
    VersionIdentity d ∧
      ∀ i st' t', RegisterStep d.shared (d.locals i) st' t' →
        (SparingStep d.shared (d.locals i) st' t' ↔ VersionIdentity (d.set i st' t')) := by
  obtain ⟨hst, hlocals⟩ := Sparing.ok h
  refine ⟨hst.identity hlocals, ?_⟩
  intro i st' t' hstep
  constructor
  · intro hsparing
    obtain ⟨hst', hlocals'⟩ := Sparing.ok (Steps.thread h i hsparing)
    exact hst'.identity hlocals'
  · intro hidentity
    by_contra hsparing
    exact hstep.not_identity hst (hlocals i) hsparing hidentity

/-! ### Two registrations of one template -/

/-- Both calls register this. -/
def routerArgs : RegisterArgs := ⟨"router".toList, "You are a router.".toList, none⟩

/-- The table before any call. -/
def noVersions : PromptStore ℕ := ⟨[], [], []⟩

/-- The row both calls insert, under different keys. -/
def routerRow (id : ℤ) : PromptVersion := routerArgs.row id 0 noon

/-- The table after the first commit. -/
def oneVersion : PromptStore ℕ := ⟨[routerRow 1], [], []⟩

/-- The table after both commits. -/
def twoVersions : PromptStore ℕ := ⟨[routerRow 1, routerRow 2], [], []⟩

/-- **Both calls look before either inserts**: the slot has two versions of one fingerprint, both
with the number 1, and the calls return different rows. -/
theorem register_race : ∃ d : Registrations Bool ℕ,
    Steps RegisterStep (Registrations.init ℕ fun _ ↦ routerArgs) d ∧
      d.shared.versions = [routerRow 1, routerRow 2] ∧
      d.locals false = .returned routerArgs (routerRow 1) ∧
      d.locals true = .returned routerArgs (routerRow 2) ∧ ¬ VersionIdentity d := by
  have hmiss : RegisterStep noVersions (.called routerArgs) noVersions (.missed routerArgs) :=
    .miss rfl
  have hcount : RegisterStep noVersions (.missed routerArgs) noVersions (.counted routerArgs 0) :=
    .count
  have hfirst : RegisterStep noVersions (.counted routerArgs 0) oneVersion
    (.committed routerArgs (routerRow 1)) := .insert noon
  have hsecond : RegisterStep oneVersion (.counted routerArgs 0) twoVersions
    (.committed routerArgs (routerRow 2)) := .insert noon
  have h0 : Steps RegisterStep (Registrations.init ℕ fun _ : Bool ↦ routerArgs) _ := .refl
  have h1 := Steps.thread h0 false hmiss
  have h2 := Steps.thread h1 true hmiss
  have h3 := Steps.thread h2 false hcount
  have h4 := Steps.thread h3 true hcount
  have h5 := Steps.thread h4 false hfirst
  have h6 := Steps.thread h5 true hsecond
  have h7 := Steps.thread h6 false .skip
  have h8 := Steps.thread h7 true .skip
  refine ⟨_, h8, rfl, rfl, rfl, ?_⟩
  intro hidentity
  have hids := hidentity.ids false true _ _ _ _ rfl rfl rfl rfl
  exact absurd hids (by decide)

/-- One call after the other is sparing, and both return the same row. -/
theorem register_twice : ∃ d : Registrations Bool ℕ,
    d.locals false = .returned routerArgs (routerRow 1) ∧
      d.locals true = .returned routerArgs (routerRow 1) ∧ VersionIdentity d := by
  have hmiss : SparingStep noVersions (.called routerArgs) noVersions (.missed routerArgs) :=
    ⟨.miss rfl, by simp⟩
  have hcount : SparingStep noVersions (.missed routerArgs) noVersions (.counted routerArgs 0) :=
    ⟨.count, by simp⟩
  have hinsert : SparingStep noVersions (.counted routerArgs 0) oneVersion
      (.committed routerArgs (routerRow 1)) := by
    refine ⟨.insert noon, ?_⟩
    rintro a prior row ⟨⟩ -
    exact ⟨rfl, rfl⟩
  have hskip : SparingStep oneVersion (.committed routerArgs (routerRow 1)) oneVersion
    (.returned routerArgs (routerRow 1)) := ⟨.skip, by simp⟩
  have hfound : oneVersion.withHash routerArgs.slotName routerArgs.contentHash =
      some (routerRow 1) := by
    simp [PromptStore.withHash, oneVersion, routerRow, RegisterArgs.row]
  have hlink : SparingStep oneVersion (.called routerArgs) oneVersion
    (.returned routerArgs (routerRow 1)) := ⟨.link hfound, by simp⟩
  have h0 : Steps SparingStep (Registrations.init ℕ fun _ : Bool ↦ routerArgs) _ := .refl
  have h1 := Steps.thread h0 false hmiss
  have h2 := Steps.thread h1 false hcount
  have h3 := Steps.thread h2 false hinsert
  have h4 := Steps.thread h3 false hskip
  have h5 := Steps.thread h4 true hlink
  exact ⟨_, rfl, rfl, (version_identity_of_sparing h5).1⟩

end WiseTraceLoom
