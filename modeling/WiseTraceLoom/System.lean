import WiseTraceLoom.AuditChain
import WiseTraceLoom.CryptoShred
import WiseTraceLoom.Storage.Config
import WiseTraceLoom.Storage.Read

/-!
# One store, many callers

Any number of threads work on one store, each in the middle of one call or of none.  `SystemStep` is
one step of one thread; a run is any number of such steps, the threads taking turns in any order,
and every thread making any calls one after the other.

Whatever the calls are, a store only grows (`SystemStep.grows`): the commits, the anchors and the
checkpoints are added to at the end, and the rows of keys and requests age.  That is what the
invariants of the following files rely on.
-/

set_option autoImplicit false

namespace WiseTraceLoom

open Interleaving

/-- What a thread is doing. -/
inductive Call where
  | idle
  | append (c : AppendCall)
  | compact (c : CompactCall)
  | anchor (c : AnchorCall)
  | read (c : ReadCall)
  | encrypt (c : EncryptCall)
  | request (c : RequestCall)
  | confirm (c : ConfirmCall)
  | config (c : ConfigCall)

/-- The calls a thread can make. -/
inductive Call.Start : Call → Prop
  | append (a : AppendArgs) : Start (.append (.called a))
  | compact (s : Str) : Start (.compact (.called s))
  | anchor (s : Str) : Start (.anchor (.called s))
  | readLatest (s : Str) (tenantId : Option Str) : Start (.read (.latest s tenantId))
  | readAsOfVersion (s : Str) (v : ℤ) (tenantId : Option Str) : Start (.read (.called s v tenantId))
  | encrypt (s p : Str) (tenantId : Option Str) : Start (.encrypt (.called s p tenantId))
  | request (s : Str) (tenantId requestedBy scope : Option Str) :
      Start (.request (.called s tenantId requestedBy scope))
  | confirm (id : ℤ) : Start (.confirm (.called id))
  | config (c : StorageConfig) : Start (.config (.called c))

/-- One step of one thread. -/
inductive SystemStep (F : Fernet) : Store → Call → Store → Call → Prop
  | start {st : Store} {c : Call} (h : c.Start) : SystemStep F st .idle st c
  /-- The call has ended, or the thread was killed in the middle of it. -/
  | stop {st : Store} {c : Call} : SystemStep F st c st .idle
  | append {st st' : Store} {c c' : AppendCall} (h : AppendStep st c st' c') :
      SystemStep F st (.append c) st' (.append c')
  | compact {st st' : Store} {c c' : CompactCall} (h : CompactStep st c st' c') :
      SystemStep F st (.compact c) st' (.compact c')
  | anchor {st st' : Store} {c c' : AnchorCall} (h : AnchorStep st c st' c') :
      SystemStep F st (.anchor c) st' (.anchor c')
  | read {st st' : Store} {c c' : ReadCall} (h : ReadStep st c st' c') :
      SystemStep F st (.read c) st' (.read c')
  | encrypt {st st' : Store} {c c' : EncryptCall} (h : EncryptStep F st c st' c') :
      SystemStep F st (.encrypt c) st' (.encrypt c')
  | request {st st' : Store} {c c' : RequestCall} (h : RequestStep st c st' c') :
      SystemStep F st (.request c) st' (.request c')
  | confirm {st st' : Store} {c c' : ConfirmCall} (h : ConfirmStep st c st' c') :
      SystemStep F st (.confirm c) st' (.confirm c')
  | config {st st' : Store} {c c' : ConfigCall} (h : ConfigStep st c st' c') :
      SystemStep F st (.config c) st' (.config c')

variable {ι : Type} [DecidableEq ι]

/-- The store and what every thread is doing. -/
abbrev System (ι : Type) := Config ι Store Call

/-- A new store, and nobody doing anything yet. -/
def System.init (ι : Type) (database : Str) : System ι := ⟨Store.create database, fun _ ↦ .idle⟩

/-- A run from one state to another. -/
abbrev Runs (F : Fernet) : System ι → System ι → Prop := Steps (SystemStep F)

/-- The states that can be reached on a new store. -/
def Reachable (F : Fernet) (c : System ι) : Prop :=
  ∃ database, Runs F (System.init ι database) c

theorem Reachable.trans {F : Fernet} {c d : System ι} (hc : Reachable F c) (h : Runs F c d) :
    Reachable F d :=
  ⟨hc.choose, hc.choose_spec.trans h⟩

/-! ## Stores only grow -/

/-- What may happen to a store while a thread is not looking. -/
structure Store.Grows (st st' : Store) : Prop where
  /-- It stays where it is. -/
  database : st'.database = st.database
  /-- Commits are added at the end. -/
  commits : st.commits <+: st'.commits
  /-- So are checkpoints. -/
  checkpoints : st.checkpoints <+: st'.checkpoints
  /-- So are anchors. -/
  anchors : st.anchors <+: st'.anchors
  /-- Keys are only destroyed. -/
  subjectKeys : Grown SubjectKey.Ages st.subjectKeys st'.subjectKeys
  /-- Requests are only confirmed. -/
  erasureRequests : Grown ErasureRequest.Ages st.erasureRequests st'.erasureRequests
  /-- A file may be written again but does not go away. -/
  files : ∀ path, (st.files path).isSome → (st'.files path).isSome

theorem Store.Grows.refl (st : Store) : st.Grows st :=
  ⟨rfl, List.prefix_refl _, List.prefix_refl _, List.prefix_refl _, .refl SubjectKey.Ages.refl _,
    .refl ErasureRequest.Ages.refl _, fun _ h ↦ h⟩

theorem Store.Grows.trans (st₁ st₂ st₃ : Store) (h₁ : st₁.Grows st₂) (h₂ : st₂.Grows st₃) :
    st₁.Grows st₃ where
  database := h₂.database.trans h₁.database
  commits := h₁.commits.trans h₂.commits
  checkpoints := h₁.checkpoints.trans h₂.checkpoints
  anchors := h₁.anchors.trans h₂.anchors
  subjectKeys := h₁.subjectKeys.trans SubjectKey.Ages.trans h₂.subjectKeys
  erasureRequests := h₁.erasureRequests.trans ErasureRequest.Ages.trans h₂.erasureRequests
  files := fun path h ↦ h₂.files path (h₁.files path h)

variable {st st' : Store}

theorem AppendStep.grows {c c' : AppendCall} (h : AppendStep st c st' c') : st.Grows st' := by
  rcases h.effect with rfl | ⟨t, k, v, p, now, -, hins⟩
  · exact .refl _
  · rw [(Store.insertCommit_eq_some hins).2]
    exact { Store.Grows.refl st with commits := List.prefix_append _ _ }

theorem Store.grows_writeFile (st : Store) (path : PurePath) (rows : List StreamRow) :
    st.Grows (st.writeFile path rows) := by
  refine { Store.Grows.refl st with files := fun p hp ↦ ?_ }
  rw [Store.writeFile_files]
  split_ifs
  · rfl
  · exact hp

theorem CompactStep.grows {c c' : CompactCall} (h : CompactStep st c st' c') : st.Grows st' := by
  rcases h.effect with rfl | ⟨s, v, rows, config, -, rfl⟩ | ⟨s, v, rows, path, now, -, hins⟩
  · exact .refl _
  · exact Store.grows_writeFile _ _ _
  · rw [(Store.insertCheckpoint_eq_some hins).2]
    exact { Store.Grows.refl st with checkpoints := List.prefix_append _ _ }

theorem AnchorStep.grows {c c' : AnchorCall} (h : AnchorStep st c st' c') : st.Grows st' := by
  cases h
  case sinkStep h => exact h.grows
  case persist => exact { Store.Grows.refl st with anchors := List.prefix_append _ _ }
  all_goals exact .refl _

theorem EncryptStep.grows {F : Fernet} {c c' : EncryptCall} (h : EncryptStep F st c st' c') :
    st.Grows st' := by
  rcases h.effect with rfl | ⟨s, tenantId, g, keyMaterial, now, hins⟩
  · exact .refl _
  · rw [(Store.insertSubjectKey_eq_some hins).2]
    exact { Store.Grows.refl st with subjectKeys := .append SubjectKey.Ages.refl _ _ }

theorem RequestStep.grows {c c' : RequestCall} (h : RequestStep st c st' c') : st.Grows st' := by
  cases h
  case insert =>
    exact { Store.Grows.refl st with erasureRequests := .append ErasureRequest.Ages.refl _ _ }
  all_goals exact .refl _

theorem ConfirmStep.grows {c c' : ConfirmCall} (h : ConfirmStep st c st' c') : st.Grows st' := by
  cases h
  case commit r keys now =>
    exact { Store.Grows.refl st with
      subjectKeys := st.confirm_keys_grown r.id keys now
      erasureRequests := st.confirm_requests_grown r.id keys now }
  case appendStep h => exact h.grows
  all_goals exact .refl _

theorem ConfigStep.grows {c c' : ConfigCall} (h : ConfigStep st c st' c') : st.Grows st' := by
  rw [h.store_eq]
  exact { Store.Grows.refl st with }

/-- **Every step of every call only adds to the store or ages it.** -/
theorem SystemStep.grows {F : Fernet} {c c' : Call} (h : SystemStep F st c st' c') :
    st.Grows st' := by
  cases h with
  | start h => exact .refl _
  | stop => exact .refl _
  | append h => exact h.grows
  | compact h => exact h.grows
  | anchor h => exact h.grows
  | read h => rw [h.store_eq]; exact .refl _
  | encrypt h => exact h.grows
  | request h => exact h.grows
  | confirm h => exact h.grows
  | config h => exact h.grows

/-- **So does every run.** -/
theorem Runs.grows {F : Fernet} {c d : System ι} (h : Runs F c d) : c.shared.Grows d.shared :=
  Steps.rely Store.Grows.refl Store.Grows.trans h fun _ _ _ _ _ hstep ↦ hstep.grows

/-! ## One thread on its own -/

/-- What an append does on its own, one thread can do while the others stand still. -/
theorem Runs.append {F : Fernet} {c : System ι} (i : ι) {a a' : AppendCall}
    (hst : c.shared = st) (hi : c.locals i = .append a) (h : Solo AppendStep (st, a) (st', a')) :
    Runs F c (c.set i st' (.append a')) := h.lift (fun h ↦ .append h) i hst hi

/-- The same for a compaction. -/
theorem Runs.compact {F : Fernet} {c : System ι} (i : ι) {a a' : CompactCall}
    (hst : c.shared = st) (hi : c.locals i = .compact a) (h : Solo CompactStep (st, a) (st', a')) :
    Runs F c (c.set i st' (.compact a')) := h.lift (fun h ↦ .compact h) i hst hi

end WiseTraceLoom
