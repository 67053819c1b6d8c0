import WiseTraceLoom.Lib.Interleaving
import WiseTraceLoom.Masking
import WiseTraceLoom.Residency

/-!
# `append_commit`

An append takes the version after the largest one in its stream, looks up the hash of the version
before, and inserts its row; if another writer took the version, the insert fails and the whole
attempt is repeated.

The three accesses to the database are separate statements, so there are two views of the function:

* `AppendStep` is one step of a call that runs among others.  `AppendCall` is what the call
  remembers between two statements.
* `appendCommit` is the whole call when nobody else writes.  `appendCommit_steps` says that it is a
  run of the first view.
-/

set_option autoImplicit false

namespace WiseTraceLoom

open Interleaving

/-! ## The statements -/

/-- `_next_version`. -/
def nextVersion (st : Store) (streamId : Str) : ℤ :=
  ((st.stream streamId).map StorageCommit.version).max?.getD 0 + 1

/-- `_prev_entry_hash`: no hash for the first version, else the hash of the one row before it. -/
def prevEntryHash (st : Store) (streamId : Str) (version : ℤ) : Except OneError (Option Str) :=
  if version = 1 then .ok none
  else
    (one (((st.stream streamId).filter fun row ↦ row.version = version - 1).map
      StorageCommit.entryHash)).map some

/-- The arguments of `append_commit`, the engine apart. -/
structure AppendArgs where
  /-- The stream. -/
  streamId : Str
  /-- The kind of event. -/
  recordType : Str
  /-- The event. -/
  payload : Payload
  /-- The tenant. -/
  tenantId : Option Str
  /-- How often the append is tried. -/
  maxRetries : ℕ := 20

/-- An append whose payload has been masked. -/
structure AppendTask where
  /-- The stream. -/
  streamId : Str
  /-- The kind of event. -/
  recordType : Str
  /-- The tenant. -/
  tenantId : Option Str
  /-- How often the append is tried. -/
  maxRetries : ℕ
  /-- The event, masked. -/
  masked : Payload

/-- The JSON text of the payload, made once before the first attempt. -/
def AppendTask.payloadJson (t : AppendTask) : Str := Json.dumps (.obj t.masked)

/-- What comes before the first attempt. -/
def AppendArgs.prepare (a : AppendArgs) (callback : MaskingCallback) :
    Except MaskingError AppendTask :=
  (applyMasking callback a.payload).map (⟨a.streamId, a.recordType, a.tenantId, a.maxRetries, ·⟩)

/-- The row an attempt tries to insert. -/
def AppendTask.commit (t : AppendTask) (version : ℤ) (prevHash : Option Str) (now : Timestamp) :
    StorageCommit where
  streamId := t.streamId
  version := version
  recordType := t.recordType
  tenantId := t.tenantId
  payload := t.payloadJson
  committedAt := utcnow now
  prevHash := prevHash
  entryHash := computeEntryHash prevHash t.streamId version t.recordType t.tenantId
    (isoUtc (utcnow now)) t.payloadJson

/-- The insert and its commit: nothing is written if the version is taken (`IntegrityError`). -/
def Store.insertCommit (st : Store) (row : StorageCommit) : Option Store :=
  if st.commits.any fun r ↦ r.streamId = row.streamId ∧ r.version = row.version then none
  else some { st with commits := st.commits ++ [row.column] }

theorem Store.insertCommit_eq_some {st st' : Store} {row : StorageCommit}
    (h : st.insertCommit row = some st') :
    (∀ r ∈ st.commits, r.streamId = row.streamId → r.version ≠ row.version) ∧
      st' = { st with commits := st.commits ++ [row.column] } := by
  rw [insertCommit] at h
  split_ifs at h with htaken
  refine ⟨fun r hr hs hv ↦ htaken ?_, (Option.some.inj h).symm⟩
  exact List.any_eq_true.mpr ⟨r, hr, by simp [hs, hv]⟩

/-- What `append_commit` raises. -/
inductive AppendError where
  | unrouted (e : UnroutedRegionError)
  | masking (e : MaskingError)
  | one (e : OneError)
  /-- `StorageConflictError`: all attempts failed. -/
  | conflict (streamId : Str) (maxRetries : ℕ)
  /-- Any other exception of a statement, of the refresh or of the checkpoint check. -/
  | other
  deriving DecidableEq

/-! ## A call among others -/

/-- Where a call to `append_commit` stands. -/
inductive AppendCall where
  | called (a : AppendArgs)
  /-- At the start of an attempt. -/
  | ready (t : AppendTask) (attempt : ℕ)
  /-- After the largest version was read. -/
  | versioned (t : AppendTask) (attempt : ℕ) (version : ℤ)
  /-- After the predecessor's hash was read. -/
  | linked (t : AppendTask) (attempt : ℕ) (version : ℤ) (prevHash : Option Str)
  /-- After the clock was read: the row is ready to be inserted. -/
  | stamped (t : AppendTask) (attempt : ℕ) (version : ℤ) (prevHash : Option Str) (now : Timestamp)
  /-- After the commit, before the refresh and the checkpoint check. -/
  | committed (row : StorageCommit)
  | returned (row : StorageCommit)
  | raised (e : AppendError)

/-- Has the call ended? -/
def AppendCall.ended : AppendCall → Bool
  | .returned _ => true
  | .raised _ => true
  | _ => false

/-- One step of a call to `append_commit` on this store. -/
inductive AppendStep : Store → AppendCall → Store → AppendCall → Prop
  | mask {st : Store} {a : AppendArgs} {t : AppendTask} (callback : MaskingCallback)
      (h : a.prepare callback = .ok t) : AppendStep st (.called a) st (.ready t 0)
  | maskError {st : Store} {a : AppendArgs} {e : MaskingError} (callback : MaskingCallback)
      (h : a.prepare callback = .error e) : AppendStep st (.called a) st (.raised (.masking e))
  | exhausted {st : Store} {t : AppendTask} {k : ℕ} (h : t.maxRetries ≤ k) :
      AppendStep st (.ready t k) st (.raised (.conflict t.streamId t.maxRetries))
  | readVersion {st : Store} {t : AppendTask} {k : ℕ} (h : k < t.maxRetries) :
      AppendStep st (.ready t k) st (.versioned t k (nextVersion st t.streamId))
  | readPrev {st : Store} {t : AppendTask} {k : ℕ} {v : ℤ} {p : Option Str}
      (h : prevEntryHash st t.streamId v = .ok p) :
      AppendStep st (.versioned t k v) st (.linked t k v p)
  | readPrevError {st : Store} {t : AppendTask} {k : ℕ} {v : ℤ} {e : OneError}
      (h : prevEntryHash st t.streamId v = .error e) :
      AppendStep st (.versioned t k v) st (.raised (.one e))
  | stamp {st : Store} {t : AppendTask} {k : ℕ} {v : ℤ} {p : Option Str} (now : Timestamp) :
      AppendStep st (.linked t k v p) st (.stamped t k v p now)
  | commit {st st' : Store} {t : AppendTask} {k : ℕ} {v : ℤ} {p : Option Str} {now : Timestamp}
      (h : st.insertCommit (t.commit v p now) = some st') :
      AppendStep st (.stamped t k v p now) st' (.committed (t.commit v p now).column)
  /-- `IntegrityError`: another writer took the version. -/
  | integrityError {st : Store} {t : AppendTask} {k : ℕ} {v : ℤ} {p : Option Str} {now : Timestamp}
      (h : st.insertCommit (t.commit v p now) = none) :
      AppendStep st (.stamped t k v p now) st (.ready t (k + 1))
  /-- `OperationalError`: the database is locked. -/
  | operationalError {st : Store} {t : AppendTask} {k : ℕ} {v : ℤ} {p : Option Str}
      {now : Timestamp} : AppendStep st (.stamped t k v p now) st (.ready t (k + 1))
  | finish {st : Store} {row : StorageCommit} :
      AppendStep st (.committed row) st (.returned row)
  /-- Anything else that a statement, the refresh or the checkpoint check raises. -/
  | fail {st : Store} {c : AppendCall} (e : AppendError) (h : c.ended = false) :
      AppendStep st c st (.raised e)

/-- **What a step of an append can write**: nothing, or the row it had prepared. -/
theorem AppendStep.effect {st st' : Store} {c c' : AppendCall} (h : AppendStep st c st' c') :
    st' = st ∨ ∃ t k v p now, c = .stamped t k v p now ∧
      st.insertCommit (t.commit v p now) = some st' := by
  cases h
  case commit t k v p now h => exact Or.inr ⟨t, k, v, p, now, rfl, h⟩
  all_goals exact Or.inl rfl

/-! ## A call on its own -/

/-- What an attempt meets: the time, and whether the database is locked when it commits. -/
structure Attempt where
  /-- What the clock shows. -/
  now : Timestamp
  /-- Does the commit raise `OperationalError`? -/
  locked : Bool

/-- What a call meets. -/
structure AppendEnv where
  /-- The attempts. -/
  attempt : ℕ → Attempt
  /-- What the refresh or the checkpoint check raises after the commit, if anything. -/
  after : Option AppendError

/-- The attempts from number `k` on, `n` of them at most. -/
def appendLoop (env : AppendEnv) (t : AppendTask) : ℕ → ℕ → Store →
    Except AppendError StorageCommit × Store
  | 0, _, st => (.error (.conflict t.streamId t.maxRetries), st)
  | n + 1, k, st =>
    let version := nextVersion st t.streamId
    match prevEntryHash st t.streamId version with
    | .error e => (.error (.one e), st)
    | .ok prevHash =>
      let row := t.commit version prevHash (env.attempt k).now
      if (env.attempt k).locked then appendLoop env t n (k + 1) st
      else
        match st.insertCommit row with
        | none => appendLoop env t n (k + 1) st
        | some st' =>
          match env.after with
          | some e => (.error e, st')
          | none => (.ok row.column, st')

/-- `append_commit` on a given store when nobody else writes. -/
def appendCommit (callback : MaskingCallback) (env : AppendEnv) (a : AppendArgs) (st : Store) :
    Except AppendError StorageCommit × Store :=
  match a.prepare callback with
  | .error e => (.error (.masking e), st)
  | .ok t => appendLoop env t t.maxRetries 0 st

/-- `row` is what a call with these arguments inserts if it inserts anything, at some version, after
some predecessor and at some time. -/
def AppendArgs.Inserts (a : AppendArgs) (callback : MaskingCallback) (row : StorageCommit) : Prop :=
  ∃ t version prevHash now, a.prepare callback = .ok t ∧
    row = (t.commit version prevHash now).column

/-- What is left to do once the payload is masked. -/
theorem AppendArgs.prepare_eq_ok_iff {a : AppendArgs} {callback : MaskingCallback}
    {t : AppendTask} : a.prepare callback = .ok t ↔
      ∃ masked, applyMasking callback a.payload = .ok masked ∧
        t = ⟨a.streamId, a.recordType, a.tenantId, a.maxRetries, masked⟩ := by
  rw [AppendArgs.prepare]
  cases applyMasking callback a.payload with
  | error e => exact iff_of_false (fun h ↦ by cases h) fun ⟨_, h, _⟩ ↦ by cases h
  | ok masked =>
    constructor
    · rintro ⟨⟩
      exact ⟨masked, rfl, rfl⟩
    · rintro ⟨_, ⟨⟩, rfl⟩
      rfl

theorem AppendArgs.prepare_eq_ok {a : AppendArgs} {callback : MaskingCallback} {t : AppendTask}
    (h : a.prepare callback = .ok t) :
    t.streamId = a.streamId ∧ t.tenantId = a.tenantId ∧ t.maxRetries = a.maxRetries := by
  obtain ⟨masked, -, rfl⟩ := AppendArgs.prepare_eq_ok_iff.mp h
  exact ⟨rfl, rfl, rfl⟩

/-- The row is one that the call can write. -/
def AppendArgs.Writes (a : AppendArgs) (row : StorageCommit) : Prop :=
  ∃ callback t v p now, a.prepare callback = .ok t ∧ row = (t.commit v p now).column

theorem AppendArgs.Writes.streamId {a : AppendArgs} {row : StorageCommit} (h : a.Writes row) :
    row.streamId = a.streamId := by
  obtain ⟨callback, t, v, p, now, ht, rfl⟩ := h
  exact (AppendArgs.prepare_eq_ok ht).1

theorem AppendArgs.Writes.tenantId {a : AppendArgs} {row : StorageCommit} (h : a.Writes row) :
    row.tenantId = a.tenantId := by
  obtain ⟨callback, t, v, p, now, ht, rfl⟩ := h
  exact (AppendArgs.prepare_eq_ok ht).2.1

theorem appendLoop_commits (env : AppendEnv) (t : AppendTask) (n k : ℕ) (st : Store) :
    (appendLoop env t n k st).2.commits = st.commits ∨
      ∃ version prevHash now, (appendLoop env t n k st).2.commits =
        st.commits ++ [(t.commit version prevHash now).column] := by
  induction n generalizing k with
  | zero => exact Or.inl rfl
  | succ n ih =>
    rw [appendLoop]
    split
    · exact Or.inl rfl
    · rename_i p hp
      split_ifs
      · exact ih (k + 1)
      · cases hins : st.insertCommit
            (t.commit (nextVersion st t.streamId) p (env.attempt k).now) with
        | none =>
          simp only [hins]
          exact ih (k + 1)
        | some st' =>
          obtain ⟨-, rfl⟩ := Store.insertCommit_eq_some hins
          simp only [hins]
          cases env.after <;> exact Or.inr ⟨_, _, _, rfl⟩

/-- **What a call writes**: nothing, or one row, with the masked payload. -/
theorem appendCommit_commits (callback : MaskingCallback) (env : AppendEnv) (a : AppendArgs)
    (st : Store) :
    (appendCommit callback env a st).2.commits = st.commits ∨
      ∃ row, a.Inserts callback row ∧
        (appendCommit callback env a st).2.commits = st.commits ++ [row] := by
  rw [appendCommit]
  split
  · exact Or.inl rfl
  · rename_i t ht
    refine (appendLoop_commits env t t.maxRetries 0 st).imp_right ?_
    rintro ⟨version, prevHash, now, h⟩
    exact ⟨_, ⟨t, version, prevHash, now, ht, rfl⟩, h⟩

/-- The state in which a call ends. -/
def AppendCall.ofResult : Except AppendError StorageCommit → AppendCall
  | .ok row => .returned row
  | .error e => .raised e

theorem appendLoop_steps (env : AppendEnv) (t : AppendTask) (n k : ℕ) (st : Store)
    (hn : n + k = t.maxRetries) :
    Solo AppendStep (st, .ready t k)
      ((appendLoop env t n k st).2, .ofResult (appendLoop env t n k st).1) := by
  induction n generalizing k with
  | zero => exact Solo.step .refl (.exhausted (by omega))
  | succ n ih =>
    have hversion : Solo AppendStep (st, .ready t k)
        (st, .versioned t k (nextVersion st t.streamId)) :=
      Solo.step .refl (.readVersion (by omega))
    rw [appendLoop]
    split
    · rename_i e he
      exact Solo.step hversion (.readPrevError he)
    · rename_i p hp
      have hstamped := (Solo.step hversion (.readPrev hp)).step (.stamp (env.attempt k).now)
      split_ifs
      · exact (Solo.step hstamped .operationalError).trans (ih (k + 1) (by omega))
      · cases hins : st.insertCommit
            (t.commit (nextVersion st t.streamId) p (env.attempt k).now) with
        | none =>
          simp only [hins]
          exact (Solo.step hstamped (.integrityError hins)).trans (ih (k + 1) (by omega))
        | some st' =>
          have hcommitted := Solo.step hstamped (.commit hins)
          cases env.after with
          | some e =>
            simp only [hins]
            exact hcommitted.step (.fail e rfl)
          | none =>
            simp only [hins]
            exact hcommitted.step .finish

/-- **The two views agree**: a call on its own is a run of the steps of a call among others. -/
theorem appendCommit_steps (callback : MaskingCallback) (env : AppendEnv) (a : AppendArgs)
    (st : Store) :
    Solo AppendStep (st, .called a)
      ((appendCommit callback env a st).2, .ofResult (appendCommit callback env a st).1) := by
  rw [appendCommit]
  split
  · rename_i e he
    exact Solo.step .refl (.maskError callback he)
  · rename_i t ht
    exact (Solo.step .refl (.mask callback ht)).trans (appendLoop_steps env t _ 0 st rfl)

end WiseTraceLoom
