import WiseTraceLoom.Storage.Config
import WiseTraceLoom.Storage.Log
import WiseTraceLoom.Checkpoint

/-!
# What is left of an append that raises

`appendCommit` has one place for whatever may go wrong after the commit.  Here every step of the
function may raise on its own, and what follows the commit is modelled: the refresh, the storage
configuration and the last checkpoint, which are read only if they are not cached, and the start of
a thread if a checkpoint is due.

The commit is in the middle of the function.  Steps before it that raise leave the stream as it was;
those after it raise although the row is there to stay, and nothing catches what they raise.
`append_all_or_nothing_iff` says when a call is all-or-nothing.
-/

set_option autoImplicit false

namespace WiseTraceLoom

open Interleaving

/-! ## State and faults -/

/-- What a call to `append_commit` works on, next to the file of its engine: the caches and threads
of the process, of which it sees the entries for its engine and stream. -/
structure AppendWorld where
  /-- The store of the engine. -/
  store : Store
  /-- What `_storage_config_cache` has for the default store. -/
  storageConfigCache : Option StorageConfig
  /-- What `_last_checkpoint_version_cache` has for the engine and the stream. -/
  lastCheckpointVersionCache : Option ℤ
  /-- The streams of `_pending_checkpoint_threads`. -/
  pendingCheckpointThreads : List Str
  /-- The streams whose compaction was started. -/
  started : List Str

/-- How the commit of an attempt ends, if the version is free. -/
inductive CommitOutcome where
  | done
  /-- `OperationalError`: the attempt is repeated. -/
  | retried
  | raised (e : AppendError)
  deriving DecidableEq

/-- What one attempt meets. -/
structure AttemptFaults where
  /-- What the clock shows. -/
  now : Timestamp
  /-- What the query for the largest version raises. -/
  readVersion : Option AppendError
  /-- What the query for the hash of the version before raises. -/
  readPrev : Option AppendError
  /-- The insert and its commit. -/
  commit : CommitOutcome

/-- What the steps of a call raise, `none` where a step does not raise. -/
structure AppendFaults where
  /-- `resolve_engine`. -/
  resolve : Option AppendError
  /-- `json.dumps`. -/
  encode : Option AppendError
  /-- The attempts. -/
  attempt : ℕ → AttemptFaults
  /-- `session.refresh`. -/
  refresh : Option AppendError
  /-- The query for the storage configuration, which goes to the default store. -/
  readConfig : Option AppendError
  /-- The query for the last checkpoint. -/
  readLastCheckpoint : Option AppendError
  /-- `thread.start`. -/
  startThread : Option AppendError

/-! ## The function -/

/-- `get_storage_config()`. -/
def getStorageConfig (fault : Option AppendError) (defaultStore : Store) (w : AppendWorld) :
    Except AppendError StorageConfig × AppendWorld :=
  match w.storageConfigCache with
  | some config => (.ok config, w)
  | none =>
    match fault with
    | some e => (.error e, w)
    | none =>
      let config := loadStorageConfig defaultStore none
      (.ok config, { w with storageConfigCache := some config })

/-- `_load_last_checkpoint_version`. -/
def loadLastCheckpointVersion (st : Store) (streamId : Str) : ℤ :=
  ((st.checkpoints.filter fun ck ↦ ck.streamId = streamId).map
    StorageCheckpoint.version).max?.getD 0

/-- The look-up of the last checkpoint in `_maybe_checkpoint`. -/
def lastCheckpointVersion (fault : Option AppendError) (streamId : Str) (w : AppendWorld) :
    Except AppendError ℤ × AppendWorld :=
  match w.lastCheckpointVersionCache with
  | some version => (.ok version, w)
  | none =>
    match fault with
    | some e => (.error e, w)
    | none =>
      let version := loadLastCheckpointVersion w.store streamId
      (.ok version, { w with lastCheckpointVersionCache := some version })

/-- `_spawn_checkpoint`: a thread that does not start is on the list all the same. -/
def spawnCheckpoint (fault : Option AppendError) (streamId : Str) (w : AppendWorld) :
    Except AppendError Unit × AppendWorld :=
  let w := { w with pendingCheckpointThreads := w.pendingCheckpointThreads ++ [streamId] }
  match fault with
  | some e => (.error e, w)
  | none => (.ok (), { w with started := w.started ++ [streamId] })

/-- `_maybe_checkpoint`. -/
def maybeCheckpoint (f : AppendFaults) (defaultStore : Store) (streamId : Str)
    (latestVersion : ℤ) (w : AppendWorld) : Except AppendError Unit × AppendWorld :=
  match getStorageConfig f.readConfig defaultStore w with
  | (.error e, w) => (.error e, w)
  | (.ok config, w) =>
    match lastCheckpointVersion f.readLastCheckpoint streamId w with
    | (.error e, w) => (.error e, w)
    | (.ok last, w) =>
      if shouldCheckpoint latestVersion last config.checkpointIntervalCommits then
        spawnCheckpoint f.startThread streamId w
      else (.ok (), w)

/-- What comes after the commit. -/
def afterCommit (f : AppendFaults) (defaultStore : Store) (row : StorageCommit)
    (w : AppendWorld) : Except AppendError StorageCommit × AppendWorld :=
  match f.refresh with
  | some e => (.error e, w)
  | none =>
    match maybeCheckpoint f defaultStore row.streamId row.version w with
    | (.error e, w) => (.error e, w)
    | (.ok (), w) => (.ok row, w)

/-- `_prev_entry_hash`, whose query may raise; there is none for the first version. -/
def readPrevEntryHash (fault : Option AppendError) (st : Store) (streamId : Str) (version : ℤ) :
    Except AppendError (Option Str) :=
  match if version = 1 then none else fault with
  | some e => .error e
  | none => (prevEntryHash st streamId version).mapError .one

/-- The attempts from number `k` on, `n` of them at most. -/
def appendAttempts (f : AppendFaults) (defaultStore : Store) (t : AppendTask) :
    ℕ → ℕ → AppendWorld → Except AppendError StorageCommit × AppendWorld
  | 0, _, w => (.error (.conflict t.streamId t.maxRetries), w)
  | n + 1, k, w =>
    match (f.attempt k).readVersion with
    | some e => (.error e, w)
    | none =>
      let version := nextVersion w.store t.streamId
      match readPrevEntryHash (f.attempt k).readPrev w.store t.streamId version with
      | .error e => (.error e, w)
      | .ok prevHash =>
        let row := t.commit version prevHash (f.attempt k).now
        match (f.attempt k).commit with
        | .raised e => (.error e, w)
        | .retried => appendAttempts f defaultStore t n (k + 1) w
        | .done =>
          match w.store.insertCommit row with
          | none => appendAttempts f defaultStore t n (k + 1) w
          | some st' => afterCommit f defaultStore row.column { w with store := st' }

/-- `append_commit` when nobody else writes, every step of which may raise. -/
def appendCommitFaulty (callback : MaskingCallback) (f : AppendFaults) (defaultStore : Store)
    (a : AppendArgs) (w : AppendWorld) : Except AppendError StorageCommit × AppendWorld :=
  match f.resolve with
  | some e => (.error e, w)
  | none =>
    match a.prepare callback with
    | .error e => (.error (.masking e), w)
    | .ok t =>
      match f.encode with
      | some e => (.error e, w)
      | none => appendAttempts f defaultStore t t.maxRetries 0 w

variable {f : AppendFaults} {defaultStore : Store} {w : AppendWorld} {s : Str}

/-! ## After the commit -/

/-- No step that is taken after the commit raises. -/
structure AppendFaults.Finishes (f : AppendFaults) (defaultStore : Store) (streamId : Str)
    (version : ℤ) (w : AppendWorld) : Prop where
  refresh : f.refresh = none
  /-- The configuration is cached, or can be read. -/
  config : w.storageConfigCache = none → f.readConfig = none
  /-- So is the last checkpoint. -/
  lastCheckpoint : w.lastCheckpointVersionCache = none → f.readLastCheckpoint = none
  /-- If a checkpoint is due its thread starts. -/
  thread : shouldCheckpoint version
      (w.lastCheckpointVersionCache.getD (loadLastCheckpointVersion w.store streamId))
      (w.storageConfigCache.getD (loadStorageConfig defaultStore none)).checkpointIntervalCommits =
    true → f.startThread = none

/-- A call that went on in `w` has ended without touching the store, and raised exactly if `p` does
not hold. -/
def Ends {α : Type} (w : AppendWorld) (value : α) (p : Prop)
    (r : Except AppendError α × AppendWorld) : Prop :=
  r.2.store = w.store ∧ (p → r.1 = .ok value) ∧ (¬p → ∃ e, r.1 = .error e)

theorem Ends.ok {α : Type} {value : α} {p : Prop} {r : Except AppendError α × AppendWorld}
    (h : Ends w value p r) (hp : p) : ∃ w', r = (.ok value, w') ∧ w'.store = w.store :=
  ⟨r.2, Prod.ext (h.2.1 hp) rfl, h.1⟩

theorem Ends.error {α : Type} {value : α} {p : Prop} {r : Except AppendError α × AppendWorld}
    (h : Ends w value p r) (hp : ¬p) : ∃ e w', r = (.error e, w') ∧ w'.store = w.store := by
  obtain ⟨e, he⟩ := h.2.2 hp
  exact ⟨e, r.2, Prod.ext he rfl, h.1⟩

theorem getStorageConfig_ends (fault : Option AppendError) (defaultStore : Store)
    (w : AppendWorld) :
    Ends w (w.storageConfigCache.getD (loadStorageConfig defaultStore none))
      (w.storageConfigCache = none → fault = none) (getStorageConfig fault defaultStore w) := by
  unfold getStorageConfig
  cases hcache : w.storageConfigCache with
  | some config => simp [Ends]
  | none => cases fault <;> simp [Ends]

theorem getStorageConfig_lastCheckpoint (fault : Option AppendError) (defaultStore : Store)
    (w : AppendWorld) : (getStorageConfig fault defaultStore w).2.lastCheckpointVersionCache =
      w.lastCheckpointVersionCache := by
  unfold getStorageConfig
  cases w.storageConfigCache with
  | some config => rfl
  | none => cases fault <;> rfl

theorem lastCheckpointVersion_ends (fault : Option AppendError) (s : Str) (w : AppendWorld) :
    Ends w (w.lastCheckpointVersionCache.getD (loadLastCheckpointVersion w.store s))
      (w.lastCheckpointVersionCache = none → fault = none) (lastCheckpointVersion fault s w) := by
  unfold lastCheckpointVersion
  cases hcache : w.lastCheckpointVersionCache with
  | some version => simp [Ends]
  | none => cases fault <;> simp [Ends]

theorem spawnCheckpoint_ends (fault : Option AppendError) (s : Str) (w : AppendWorld) :
    Ends w () (fault = none) (spawnCheckpoint fault s w) := by
  unfold spawnCheckpoint
  cases fault <;> simp [Ends]

/-- **What follows the commit** leaves the store alone, and raises if one of its steps does. -/
theorem afterCommit_ends (f : AppendFaults) (defaultStore : Store) (row : StorageCommit)
    (w : AppendWorld) :
    Ends w row (f.Finishes defaultStore row.streamId row.version w)
      (afterCommit f defaultStore row w) := by
  have raised {e : AppendError} {w' : AppendWorld} (hstore : w'.store = w.store)
      (hp : ¬f.Finishes defaultStore row.streamId row.version w) :
      Ends w row (f.Finishes defaultStore row.streamId row.version w) (.error e, w') :=
    ⟨hstore, fun h ↦ absurd h hp, fun _ ↦ ⟨e, rfl⟩⟩
  unfold afterCommit
  cases hrefresh : f.refresh with
  | some e => exact raised rfl fun h ↦ by cases h.refresh.symm.trans hrefresh
  | none =>
    have hconfig := getStorageConfig_ends f.readConfig defaultStore w
    have hcache := getStorageConfig_lastCheckpoint f.readConfig defaultStore w
    simp only [maybeCheckpoint]
    by_cases hp₁ : w.storageConfigCache = none → f.readConfig = none
    · obtain ⟨w₁, heq₁, hstore₁⟩ := hconfig.ok hp₁
      have hlast := lastCheckpointVersion_ends f.readLastCheckpoint row.streamId w₁
      rw [heq₁] at hcache
      rw [hcache, hstore₁] at hlast
      simp only [heq₁]
      by_cases hp₂ : w.lastCheckpointVersionCache = none → f.readLastCheckpoint = none
      · obtain ⟨w₂, heq₂, hstore₂⟩ := hlast.ok hp₂
        have hspawn := spawnCheckpoint_ends f.startThread row.streamId w₂
        simp only [heq₂]
        split_ifs with hdue
        · by_cases hp₃ : f.startThread = none
          · obtain ⟨w₃, heq₃, hstore₃⟩ := hspawn.ok hp₃
            simp only [heq₃]
            exact ⟨hstore₃.trans (hstore₂.trans hstore₁), fun _ ↦ rfl,
              fun h ↦ absurd ⟨hrefresh, hp₁, hp₂, fun _ ↦ hp₃⟩ h⟩
          · obtain ⟨e, w₃, heq₃, hstore₃⟩ := hspawn.error hp₃
            simp only [heq₃]
            exact raised (hstore₃.trans (hstore₂.trans hstore₁)) fun h ↦ hp₃ (h.thread hdue)
        · exact ⟨hstore₂.trans hstore₁, fun _ ↦ rfl,
            fun h ↦ absurd ⟨hrefresh, hp₁, hp₂, fun h ↦ absurd h hdue⟩ h⟩
      · obtain ⟨e, w₂, heq₂, hstore₂⟩ := hlast.error hp₂
        simp only [heq₂]
        exact raised (hstore₂.trans hstore₁) fun h ↦ hp₂ h.lastCheckpoint
    · obtain ⟨e, w₁, heq₁, hstore₁⟩ := hconfig.error hp₁
      simp only [heq₁]
      exact raised hstore₁ fun h ↦ hp₁ h.config

/-! ## Attempts -/

/-- The two queries of an attempt raise nothing. -/
def AppendFaults.Reads (f : AppendFaults) (st : Store) (streamId : Str) (k : ℕ) : Prop :=
  (f.attempt k).readVersion = none ∧
    ∃ prevHash, readPrevEntryHash (f.attempt k).readPrev st streamId (nextVersion st streamId) =
      .ok prevHash

/-- Of the attempts from number `k` on, `n` of them at most, one comes to its commit and makes
it. -/
def AppendFaults.CommitsFrom (f : AppendFaults) (st : Store) (streamId : Str) (n k : ℕ) : Prop :=
  ∃ j < n, (∀ i ≤ j, f.Reads st streamId (k + i)) ∧
    (∀ i < j, (f.attempt (k + i)).commit = .retried) ∧ (f.attempt (k + j)).commit = .done

theorem AppendFaults.commitsFrom_succ {st : Store} {n k : ℕ} :
    f.CommitsFrom st s (n + 1) k ↔ f.Reads st s k ∧ ((f.attempt k).commit = .done ∨
      (f.attempt k).commit = .retried ∧ f.CommitsFrom st s n (k + 1)) := by
  constructor
  · rintro ⟨j, hj, hreads, hretried, hdone⟩
    refine ⟨hreads 0 (Nat.zero_le j), ?_⟩
    cases j with
    | zero => exact Or.inl hdone
    | succ j =>
      refine Or.inr ⟨hretried 0 (Nat.succ_pos j), j, Nat.lt_of_succ_lt_succ hj, fun i hi ↦ ?_,
        fun i hi ↦ ?_, ?_⟩
      · rw [Nat.add_right_comm]
        exact hreads (i + 1) (Nat.succ_le_succ hi)
      · rw [Nat.add_right_comm]
        exact hretried (i + 1) (Nat.succ_lt_succ hi)
      · rw [Nat.add_right_comm]
        exact hdone
  · rintro ⟨hreads, hdone | ⟨hretried, j, hj, hreads', hretried', hdone⟩⟩
    · refine ⟨0, Nat.succ_pos n, fun i hi ↦ ?_, fun i hi ↦ absurd hi (Nat.not_lt_zero i), hdone⟩
      obtain rfl := Nat.le_zero.mp hi
      exact hreads
    · refine ⟨j + 1, Nat.succ_lt_succ hj, fun i hi ↦ ?_, fun i hi ↦ ?_, ?_⟩
      · cases i with
        | zero => exact hreads
        | succ i =>
          have := hreads' i (Nat.le_of_succ_le_succ hi)
          rwa [Nat.add_right_comm] at this
      · cases i with
        | zero => exact hretried
        | succ i =>
          have := hretried' i (Nat.lt_of_succ_lt_succ hi)
          rwa [Nat.add_right_comm] at this
      · rwa [Nat.add_right_comm] at hdone

/-- The version that a call is about to take is free if nobody else writes. -/
theorem insertCommit_nextVersion (st : Store) (row : StorageCommit)
    (hversion : row.version = nextVersion st row.streamId) :
    st.insertCommit row = some { st with commits := st.commits ++ [row.column] } := by
  rw [Store.insertCommit, if_neg]
  intro htaken
  obtain ⟨r, hr, hsame⟩ := List.any_eq_true.mp htaken
  obtain ⟨hs, hv⟩ := of_decide_eq_true hsame
  have hmem : r.version ∈ (st.stream row.streamId).map StorageCommit.version :=
    List.mem_map_of_mem (List.mem_filter.mpr ⟨hr, by simpa using hs⟩)
  rw [hversion, nextVersion] at hv
  cases hmax : ((st.stream row.streamId).map StorageCommit.version).max? with
  | none => exact absurd (List.max?_eq_none_iff.mp hmax ▸ hmem) List.not_mem_nil
  | some top =>
    have hle := (List.max?_eq_some_iff.mp hmax).2 _ hmem
    rw [hmax, Option.getD_some] at hv
    omega

theorem readPrevEntryHash_eq_ok {fault : Option AppendError} {st : Store} {version : ℤ}
    {p : Option Str} (h : readPrevEntryHash fault st s version = .ok p) :
    prevEntryHash st s version = .ok p := by
  unfold readPrevEntryHash at h
  split at h
  · cases h
  · cases hprev : prevEntryHash st s version with
    | error e => rw [hprev] at h; cases h
    | ok p' =>
      rw [hprev] at h
      exact congrArg Except.ok (Except.ok.inj h)

/-- The row is in the log. -/
def AppendWorld.withRow (w : AppendWorld) (row : StorageCommit) : AppendWorld :=
  { w with store := { w.store with commits := w.store.commits ++ [row] } }

/-- **What the attempts do**: they come to a commit, which inserts one row and is followed by the
rest of the call, or the call raises and nothing has changed. -/
theorem appendAttempts_cases (f : AppendFaults) (defaultStore : Store) (t : AppendTask)
    (n k : ℕ) (w : AppendWorld) :
    (f.CommitsFrom w.store t.streamId n k ∧ ∃ prevHash now,
      let row := (t.commit (nextVersion w.store t.streamId) prevHash now).column
      appendAttempts f defaultStore t n k w = afterCommit f defaultStore row (w.withRow row)) ∨
    (¬f.CommitsFrom w.store t.streamId n k ∧
      ∃ e, appendAttempts f defaultStore t n k w = (.error e, w)) := by
  induction n generalizing k with
  | zero =>
    refine Or.inr ⟨?_, _, rfl⟩
    rintro ⟨j, hj, -⟩
    exact absurd hj (Nat.not_lt_zero j)
  | succ n ih =>
    simp only [AppendFaults.commitsFrom_succ, appendAttempts]
    cases hversion : (f.attempt k).readVersion with
    | some e => exact Or.inr ⟨fun h ↦ absurd (h.1.1.symm.trans hversion) (by simp), e, rfl⟩
    | none =>
      cases hprev : readPrevEntryHash (f.attempt k).readPrev w.store t.streamId
          (nextVersion w.store t.streamId) with
      | error e =>
        refine Or.inr ⟨?_, e, rfl⟩
        rintro ⟨⟨-, p, hp⟩, -⟩
        cases hp.symm.trans hprev
      | ok p =>
        have hreads : f.Reads w.store t.streamId k := ⟨hversion, p, hprev⟩
        cases hcommit : (f.attempt k).commit with
        | raised e => exact Or.inr ⟨by simp, e, rfl⟩
        | retried => simpa [hreads] using ih (k + 1)
        | done =>
          refine Or.inl ⟨⟨hreads, Or.inl rfl⟩, p, (f.attempt k).now, ?_⟩
          have hins := insertCommit_nextVersion w.store
            (t.commit (nextVersion w.store t.streamId) p (f.attempt k).now) rfl
          simp only [hins]
          rfl

/-! ## The function is a run -/

/-- A call that has committed returns its row or raises. -/
theorem afterCommit_step (f : AppendFaults) (defaultStore : Store) (row : StorageCommit)
    (w : AppendWorld) : AppendStep w.store (.committed row) w.store
      (.ofResult (afterCommit f defaultStore row w).1) := by
  obtain ⟨-, hok, herror⟩ := afterCommit_ends f defaultStore row w
  by_cases h : f.Finishes defaultStore row.streamId row.version w
  · rw [hok h]
    exact .finish
  · obtain ⟨e, he⟩ := herror h
    rw [he]
    exact .fail e rfl

theorem appendAttempts_steps (f : AppendFaults) (defaultStore : Store) (t : AppendTask) (n k : ℕ)
    (w : AppendWorld) (hn : n + k = t.maxRetries) :
    Solo AppendStep (w.store, .ready t k)
      ((appendAttempts f defaultStore t n k w).2.store,
        .ofResult (appendAttempts f defaultStore t n k w).1) := by
  induction n generalizing k with
  | zero => exact Solo.step .refl (.exhausted (by omega))
  | succ n ih =>
    rw [appendAttempts]
    cases (f.attempt k).readVersion with
    | some e => exact Solo.step .refl (.fail e rfl)
    | none =>
      have hversion : Solo AppendStep (w.store, .ready t k)
          (w.store, .versioned t k (nextVersion w.store t.streamId)) :=
        Solo.step .refl (.readVersion (by omega))
      cases hprev : readPrevEntryHash (f.attempt k).readPrev w.store t.streamId
          (nextVersion w.store t.streamId) with
      | error e =>
        simp only [hprev]
        exact hversion.step (.fail e rfl)
      | ok p =>
        have hp : prevEntryHash w.store t.streamId (nextVersion w.store t.streamId) = .ok p :=
          readPrevEntryHash_eq_ok hprev
        have hstamped := (hversion.step (.readPrev hp)).step (.stamp (f.attempt k).now)
        simp only [hprev]
        cases (f.attempt k).commit with
        | raised e => exact hstamped.step (.fail e rfl)
        | retried => exact (hstamped.step .operationalError).trans (ih (k + 1) (by omega))
        | done =>
          have hins := insertCommit_nextVersion w.store
            (t.commit (nextVersion w.store t.streamId) p (f.attempt k).now) rfl
          have hcommitted := hstamped.step (.commit hins)
          simp only [hins]
          have hlast := afterCommit_step f defaultStore
            (t.commit (nextVersion w.store t.streamId) p (f.attempt k).now).column
            (w.withRow (t.commit (nextVersion w.store t.streamId) p (f.attempt k).now).column)
          rw [(afterCommit_ends f defaultStore _ _).1]
          exact hcommitted.step hlast

/-- **A call whose steps may raise is a run** of the steps of a call among others. -/
theorem appendCommitFaulty_steps (callback : MaskingCallback) (f : AppendFaults)
    (defaultStore : Store) (a : AppendArgs) (w : AppendWorld) :
    Solo AppendStep (w.store, .called a)
      ((appendCommitFaulty callback f defaultStore a w).2.store,
        .ofResult (appendCommitFaulty callback f defaultStore a w).1) := by
  unfold appendCommitFaulty
  cases f.resolve with
  | some e => exact Solo.step .refl (.fail e rfl)
  | none =>
    cases ht : a.prepare callback with
    | error e => exact Solo.step .refl (.maskError callback ht)
    | ok t =>
      have hready : Solo AppendStep (w.store, .called a) (w.store, .ready t 0) :=
        Solo.step .refl (.mask callback ht)
      cases f.encode with
      | some e => exact Solo.step .refl (.fail e rfl)
      | none => exact hready.trans (appendAttempts_steps f defaultStore t _ 0 w rfl)

/-! ## All or nothing -/

/-- The call reaches its commit, and makes it. -/
structure AppendFaults.Commits (f : AppendFaults) (callback : MaskingCallback) (a : AppendArgs)
    (st : Store) : Prop where
  resolve : f.resolve = none
  /-- The callback lets some payload through. -/
  mask : ∃ masked, applyMasking callback a.payload = .ok masked
  encode : f.encode = none
  /-- Some attempt succeeds, and those before it were repeated. -/
  attempts : f.CommitsFrom st a.streamId a.maxRetries 0

/-- Nothing is written by a call that raises; one that returns has added one row to the stream, with
the JSON of the masked payload. -/
structure AllOrNothing (callback : MaskingCallback) (a : AppendArgs) (st : Store)
    (r : Except AppendError StorageCommit × AppendWorld) : Prop where
  nothing : ∀ e, r.1 = .error e → r.2.store.stream a.streamId = st.stream a.streamId
  all : ∀ row, r.1 = .ok row → ∃ masked, applyMasking callback a.payload = .ok masked ∧
    r.2.store.stream a.streamId = st.stream a.streamId ++ [row] ∧
    row.payload = Json.dumps (.obj masked)

/-- **What follows the commit must not raise**: a call that has inserted its row is all-or-nothing
exactly if it finishes. -/
theorem allOrNothing_committed {callback : MaskingCallback} {a : AppendArgs} {t : AppendTask}
    (ht : a.prepare callback = .ok t) (f : AppendFaults) (defaultStore : Store)
    (w : AppendWorld) {version : ℤ} {prevHash : Option Str} {now : Timestamp} {row : StorageCommit}
    (hrow : row = (t.commit version prevHash now).column) :
    AllOrNothing callback a w.store (afterCommit f defaultStore row (w.withRow row)) ↔
      f.Finishes defaultStore row.streamId row.version (w.withRow row) := by
  obtain ⟨masked, hmasked, rfl⟩ := AppendArgs.prepare_eq_ok_iff.mp ht
  have hs : row.streamId = a.streamId := by rw [hrow]; rfl
  have hpayload : row.payload = Json.dumps (.obj masked) := by rw [hrow]; rfl
  have hstream : (w.withRow row).store.stream a.streamId =
      w.store.stream a.streamId ++ [row] := by
    rw [AppendWorld.withRow, Store.stream_concat, if_pos hs]
  obtain ⟨hstore, hok, herror⟩ := afterCommit_ends f defaultStore row (w.withRow row)
  constructor
  · intro h
    by_contra hnot
    obtain ⟨e, he⟩ := herror hnot
    have hsame := h.nothing e he
    rw [hstore, hstream] at hsame
    simp at hsame
  · intro h
    refine ⟨fun e he ↦ ?_, fun r hr ↦ ?_⟩
    · cases (hok h).symm.trans he
    · cases (hok h).symm.trans hr
      exact ⟨masked, hmasked, by rw [hstore, hstream], hpayload⟩

/-- **When a call is all-or-nothing**: if it reaches its commit, nothing that follows the commit may
raise. -/
theorem append_all_or_nothing_iff (callback : MaskingCallback) (f : AppendFaults)
    (defaultStore : Store) (a : AppendArgs) (w : AppendWorld) :
    AllOrNothing callback a w.store (appendCommitFaulty callback f defaultStore a w) ↔
      (f.Commits callback a w.store →
        f.Finishes defaultStore a.streamId (nextVersion w.store a.streamId) w) := by
  -- whatever raises before the commit
  have unchanged {e : AppendError} : AllOrNothing callback a w.store (.error e, w) :=
    ⟨fun _ _ ↦ rfl, fun _ h ↦ by cases h⟩
  unfold appendCommitFaulty
  cases hresolve : f.resolve with
  | some e => exact iff_of_true unchanged fun h ↦ by cases h.resolve.symm.trans hresolve
  | none =>
    cases ht : a.prepare callback with
    | error e =>
      refine iff_of_true unchanged fun h ↦ ?_
      obtain ⟨masked, hmasked⟩ := h.mask
      cases ht.symm.trans (AppendArgs.prepare_eq_ok_iff.mpr ⟨masked, hmasked, rfl⟩)
    | ok t =>
      cases hencode : f.encode with
      | some e => exact iff_of_true unchanged fun h ↦ by cases h.encode.symm.trans hencode
      | none =>
        obtain ⟨hs, -, hretries⟩ := AppendArgs.prepare_eq_ok ht
        obtain ⟨masked, hmasked, -⟩ := AppendArgs.prepare_eq_ok_iff.mp ht
        rcases appendAttempts_cases f defaultStore t t.maxRetries 0 w with
          ⟨hcommits, p, now, heq⟩ | ⟨hcommits, e, heq⟩
        · -- the row is inserted, and all depends on what follows
          have hall : f.Commits callback a w.store :=
            ⟨hresolve, ⟨masked, hmasked⟩, hencode, by rwa [← hs, ← hretries]⟩
          -- what the conditions on the rest look at is not touched by the commit
          simp only [heq]
          rw [allOrNothing_committed ht f defaultStore w rfl, imp_iff_right hall, ← hs]
          exact ⟨fun h ↦ ⟨h.1, h.2, h.3, h.4⟩, fun h ↦ ⟨h.1, h.2, h.3, h.4⟩⟩
        · simp only [heq]
          refine iff_of_true unchanged fun h ↦ absurd h.attempts ?_
          rwa [← hs, ← hretries]

/-! ### A configuration that cannot be read -/

/-- Nothing raises but the query for the storage configuration. -/
def configFault : AppendFaults where
  resolve := none
  encode := none
  attempt _ := ⟨noon, none, none, .done⟩
  refresh := none
  readConfig := some .other
  readLastCheckpoint := none
  startThread := none

/-- A new process on a new store. -/
def freshWorld : AppendWorld := ⟨Store.create "store.db".toList, none, none, [], []⟩

/-- **The other way round**: the configuration is read from the default store, which is locked; the
call raises, and its row is in the log. -/
theorem config_fault_raises :
    let callback : MaskingCallback := fun p ↦ .ok (.dict p)
    let a : AppendArgs := ⟨"spans".toList, "span".toList, [], some "acme".toList, 20⟩
    let r := appendCommitFaulty callback configFault (Store.create "main.db".toList) a freshWorld
    r.1 = .error .other ∧ freshWorld.store.stream a.streamId = [] ∧
      (r.2.store.stream a.streamId).length = 1 ∧ ¬AllOrNothing callback a freshWorld.store r := by
  refine ⟨rfl, rfl, rfl, fun h ↦ ?_⟩
  have hsame := congrArg List.length (h.nothing .other rfl)
  cases hsame

end WiseTraceLoom
