import WiseTraceLoom.Storage.AllOrNothing
import WiseTraceLoom.Storage.TimeTravel

/-!
# How far checkpoints lag behind

`append_commit` looks after its commit whether a checkpoint is due, and starts a thread to make it
if so.  Whether one is due it judges by a cache of the process, which it fills from the database
when it is empty, and which a compaction sets when it is through.  Any number of appends and of
compactions go on at once, so the cache may be set back, filled with what is out of date already,
or missed by several appends at a time.

No boundary is skipped all the same.  What is in the cache was true once, and checkpoints do not go
away, so the cache never promises too much (`ProcessCall.Ok`); hence the append that commits a
multiple of the interval finds it covered or starts a compaction, which covers it, and until then
one of the two has it to do (`Process.Due`).

The compactions of one version come in each other's way only if one of them has inserted its row.
No other failure of a compaction is part of this model; before its commit an append may raise as it
likes.
-/

set_option autoImplicit false

namespace WiseTraceLoom

open Interleaving

variable {ι : Type} [DecidableEq ι]

/-! ## The threads of a process -/

/-- The arguments of `_spawn_checkpoint` that its thread works with. -/
structure CheckpointJob where
  /-- The stream. -/
  streamId : Str
  /-- The version whose commit made the checkpoint due. -/
  latestVersion : ℤ
  deriving DecidableEq

/-- What the threads of a process share. -/
structure Process where
  /-- The store of the engine. -/
  store : Store
  /-- What `_last_checkpoint_version_cache` has for the engine. -/
  lastCheckpointVersionCache : Str → Option ℤ
  /-- The compactions whose threads were started and have yet to run. -/
  spawned : List CheckpointJob

/-- `_last_checkpoint_version_cache[cache_key] = version`. -/
def Process.cache (p : Process) (streamId : Str) (version : ℤ) : Process :=
  { p with lastCheckpointVersionCache :=
    Function.update p.lastCheckpointVersionCache streamId (some version) }

theorem Process.cache_apply (p : Process) (s s' : Str) (v : ℤ) :
    (p.cache s v).lastCheckpointVersionCache s' =
      if s' = s then some v else p.lastCheckpointVersionCache s' := Function.update_apply ..

/-- What a thread is doing. -/
inductive ProcessCall where
  | idle
  | append (c : AppendCall)
  /-- The cache has nothing for the stream of the row that was committed. -/
  | missed (row : StorageCommit)
  /-- The last checkpoint was looked up. -/
  | loaded (row : StorageCommit) (lastCheckpointVersion : ℤ)
  /-- It is to be decided whether a checkpoint is due. -/
  | checking (row : StorageCommit) (lastCheckpointVersion : ℤ)
  | compacting (job : CheckpointJob) (c : CompactCall)

/-- Has everything ended? -/
def ProcessCall.ended : ProcessCall → Bool
  | .idle => true
  | .append c => c.ended
  | _ => false

/-- Another compaction has inserted the row of this version. -/
def CompactCall.Conflicts (st : Store) : CompactCall → Prop
  | .written s v _ _ => st.findCheckpoint s v ≠ none
  | _ => False

/-- One step of one thread, when a checkpoint is made every `interval` commits. -/
inductive ProcessStep (interval : ℤ) : Process → ProcessCall → Process → ProcessCall → Prop
  | start {p : Process} (a : AppendArgs) :
      ProcessStep interval p .idle p (.append (.called a))
  /-- Up to its commit. -/
  | append {p : Process} {c c' : AppendCall} {st' : Store} (h : AppendStep p.store c st' c')
      (hc : ∀ row, c ≠ .committed row) :
      ProcessStep interval p (.append c) { p with store := st' } (.append c')
  | hit {p : Process} {row : StorageCommit} {last : ℤ}
      (h : p.lastCheckpointVersionCache row.streamId = some last) :
      ProcessStep interval p (.append (.committed row)) p (.checking row last)
  | miss {p : Process} {row : StorageCommit}
      (h : p.lastCheckpointVersionCache row.streamId = none) :
      ProcessStep interval p (.append (.committed row)) p (.missed row)
  | load {p : Process} {row : StorageCommit} :
      ProcessStep interval p (.missed row) p
        (.loaded row (loadLastCheckpointVersion p.store row.streamId))
  | fill {p : Process} {row : StorageCommit} {last : ℤ} :
      ProcessStep interval p (.loaded row last) (p.cache row.streamId last) (.checking row last)
  | skip {p : Process} {row : StorageCommit} {last : ℤ}
      (h : shouldCheckpoint row.version last interval = false) :
      ProcessStep interval p (.checking row last) p (.append (.returned row))
  | spawn {p : Process} {row : StorageCommit} {last : ℤ}
      (h : shouldCheckpoint row.version last interval = true) :
      ProcessStep interval p (.checking row last)
        { p with spawned := p.spawned ++ [⟨row.streamId, row.version⟩] } (.append (.returned row))
  | stop {p : Process} {c : AppendCall} (h : c.ended = true) :
      ProcessStep interval p (.append c) p .idle
  /-- The thread of a compaction starts to run. -/
  | run {p : Process} {job : CheckpointJob} {jobs jobs' : List CheckpointJob}
      (h : p.spawned = jobs ++ job :: jobs') :
      ProcessStep interval p .idle { p with spawned := jobs ++ jobs' }
        (.compacting job (.called job.streamId))
  | compact {p : Process} {job : CheckpointJob} {c c' : CompactCall} {st' : Store}
      (h : CompactStep p.store c st' c') (hraised : c' = .raised → c.Conflicts p.store) :
      ProcessStep interval p (.compacting job c) { p with store := st' } (.compacting job c')
  | advance {p : Process} {job : CheckpointJob} {ck : Option StorageCheckpoint} :
      ProcessStep interval p (.compacting job (.returned ck))
        (p.cache job.streamId job.latestVersion) .idle
  /-- What the compaction has raised is logged. -/
  | warn {p : Process} {job : CheckpointJob} :
      ProcessStep interval p (.compacting job .raised) p .idle

/-- The process and what all its threads are doing. -/
abbrev ProcessSystem (ι : Type) := Config ι Process ProcessCall

/-- A process that starts on a store: nothing is cached and nobody is doing anything. -/
def ProcessSystem.init (ι : Type) (st : Store) : ProcessSystem ι :=
  ⟨⟨st, fun _ ↦ none, []⟩, fun _ ↦ .idle⟩

/-- All calls and all compactions have ended. -/
def ProcessSystem.Quiescent (c : ProcessSystem ι) : Prop :=
  c.shared.spawned = [] ∧ ∀ i, (c.locals i).ended = true

/-- The commits a read up to a version has to add to its checkpoint. -/
def Store.replayed (st : Store) (streamId : Str) (targetVersion : ℤ) : List StorageCommit :=
  match st.bestCheckpoint streamId targetVersion with
  | none => st.selectTail streamId 0 targetVersion
  | some ck => st.selectTail streamId ck.version targetVersion

/-! ## What comes after a commit, on its own -/

/-- The look-up of the last checkpoint, when nobody else does anything. -/
theorem lookup_steps (interval : ℤ) (p : Process) (row : StorageCommit) (w : AppendWorld)
    (hstore : p.store = w.store)
    (hcache : p.lastCheckpointVersionCache row.streamId = w.lastCheckpointVersionCache) :
    ∃ last p' w', lastCheckpointVersion none row.streamId w = (.ok last, w') ∧
      Solo (ProcessStep interval) (p, .append (.committed row)) (p', .checking row last) ∧
      p'.lastCheckpointVersionCache row.streamId = w'.lastCheckpointVersionCache ∧
      p'.spawned = p.spawned ∧ w'.started = w.started := by
  rw [lastCheckpointVersion]
  cases hw : w.lastCheckpointVersionCache with
  | some last => exact ⟨last, p, w, rfl, Solo.step .refl (.hit (hcache.trans hw)), hcache, rfl, rfl⟩
  | none =>
    have hmiss : Solo (ProcessStep interval) (p, .append (.committed row)) (p, .missed row) :=
      Solo.step .refl (.miss (hcache.trans hw))
    have hload := hmiss.step .load
    rw [hstore] at hload
    exact ⟨_, _, _, rfl, hload.step .fill, by rw [Process.cache_apply, if_pos rfl], rfl, rfl⟩

/-- **The two views agree**: what comes after the commit, on its own and without faults, is a run of
the steps of a thread among others. -/
theorem afterCommit_steps (f : AppendFaults) (defaultStore : Store) (p : Process)
    (row : StorageCommit) (w : AppendWorld) (hstore : p.store = w.store)
    (hcache : p.lastCheckpointVersionCache row.streamId = w.lastCheckpointVersionCache)
    (hrefresh : f.refresh = none) (hconfig : f.readConfig = none)
    (hlast : f.readLastCheckpoint = none) (hthread : f.startThread = none) :
    ∃ p' w' jobs, afterCommit f defaultStore row w = (.ok row, w') ∧
      Solo (ProcessStep (w.storageConfigCache.getD
          (loadStorageConfig defaultStore none)).checkpointIntervalCommits)
        (p, .append (.committed row)) (p', .append (.returned row)) ∧
      p'.lastCheckpointVersionCache row.streamId = w'.lastCheckpointVersionCache ∧
      p'.spawned = p.spawned ++ jobs ∧
      w'.started = w.started ++ jobs.map CheckpointJob.streamId := by
  let config := w.storageConfigCache.getD (loadStorageConfig defaultStore none)
  obtain ⟨w₁, hget, hstore₁, hcache₁, hstarted₁⟩ :
      ∃ w₁, getStorageConfig none defaultStore w = (.ok config, w₁) ∧ w₁.store = w.store ∧
        w₁.lastCheckpointVersionCache = w.lastCheckpointVersionCache ∧ w₁.started = w.started := by
    rw [getStorageConfig]
    cases hw : w.storageConfigCache with
    | some c => exact ⟨w, by simp [config, hw], rfl, rfl, rfl⟩
    | none =>
      refine ⟨{ w with storageConfigCache := some config }, ?_, rfl, rfl, rfl⟩
      simp [config, hw]
  obtain ⟨last, p', w', hlookup, hrun, hcache', hspawned, hstarted⟩ :=
    lookup_steps config.checkpointIntervalCommits p row w₁ (hstore.trans hstore₁.symm)
      (hcache.trans hcache₁.symm)
  simp only [afterCommit, maybeCheckpoint, hrefresh, hconfig, hlast, hthread, hget, hlookup]
  split_ifs with hdue
  · refine ⟨_, _, [⟨row.streamId, row.version⟩], rfl, hrun.step (.spawn hdue), hcache',
      congrArg (· ++ [_]) hspawned, ?_⟩
    exact congrArg (· ++ [row.streamId]) (hstarted.trans hstarted₁)
  · refine ⟨_, _, [], rfl, hrun.step (.skip (Bool.eq_false_iff.mpr hdue)), hcache', ?_, ?_⟩
    · rw [hspawned, List.append_nil]
    · rw [hstarted, hstarted₁, List.map_nil, List.append_nil]

/-! ## Versions that are covered -/

variable {st st' : Store} {s : Str} {v : ℤ}

/-- Some checkpoint of the stream is at this version or a later one. -/
def Store.Covers (st : Store) (s : Str) (v : ℤ) : Prop :=
  v ≤ 0 ∨ ∃ ck ∈ st.checkpoints, ck.streamId = s ∧ v ≤ ck.version

theorem Store.Covers.mono (h : st.Covers s v) (hst : st.Grows st') : st'.Covers s v :=
  h.imp_right fun ⟨ck, hck, hcovers⟩ ↦ ⟨ck, hst.checkpoints.subset hck, hcovers⟩

theorem Store.Covers.le {w : ℤ} (h : st.Covers s v) (hw : w ≤ v) : st.Covers s w :=
  h.imp hw.trans fun ⟨ck, hck, hs, hv⟩ ↦ ⟨ck, hck, hs, hw.trans hv⟩

theorem Store.covers_of_find (h : st.findCheckpoint s v ≠ none) : st.Covers s v := by
  obtain ⟨ck, hck⟩ := Option.ne_none_iff_exists'.mp h
  have hkey := List.find?_some hck
  simp only [decide_eq_true_eq] at hkey
  exact .inr ⟨ck, List.mem_of_find?_eq_some hck, hkey.1, hkey.2.ge⟩

/-- The log is as appends leave it, and no checkpoint goes beyond it. -/
structure Store.CheckpointsBounded (st : Store) : Prop where
  /-- The log. -/
  log : st.LogOk
  /-- The versions of the checkpoints. -/
  versions : ∀ ck ∈ st.checkpoints, 1 ≤ ck.version ∧
    ck.version ≤ (st.stream ck.streamId).length

/-- **The last checkpoint that `_load_last_checkpoint_version` finds** covers what is covered. -/
theorem Store.CheckpointsBounded.covers_iff (h : st.CheckpointsBounded) :
    st.Covers s v ↔ v ≤ loadLastCheckpointVersion st s := by
  let versions : List ℤ :=
    (st.checkpoints.filter fun ck ↦ ck.streamId = s).map StorageCheckpoint.version
  have hmem {w : ℤ} : w ∈ versions ↔ ∃ ck ∈ st.checkpoints, ck.streamId = s ∧ ck.version = w := by
    simp [versions, and_assoc]
  rw [loadLastCheckpointVersion]
  cases hmax : versions.max? with
  | none =>
    rw [List.max?_eq_none_iff] at hmax
    refine ⟨fun hcovers ↦ ?_, .inl⟩
    rcases hcovers with hle | ⟨ck, hck, hs, -⟩
    · exact hle
    · have := hmem.mpr ⟨ck, hck, hs, rfl⟩
      simp [hmax] at this
  | some m =>
    obtain ⟨hm, hle⟩ := List.max?_eq_some_iff.mp hmax
    obtain ⟨ck, hck, hs, hversion⟩ := hmem.mp hm
    rw [Option.getD_some]
    constructor
    · rintro (hv | ⟨ck', hck', hs', hv⟩)
      · have := (h.versions ck hck).1
        omega
      · exact hv.trans (hle _ (hmem.mpr ⟨ck', hck', hs', rfl⟩))
    · intro hv
      exact .inr ⟨ck, hck, hs, hversion ▸ hv⟩

/-! ## What a compaction knows -/

/-- What a compaction that was started for a job knows. -/
def CheckpointJob.Ok (job : CheckpointJob) (st : Store) : CompactCall → Prop
  | .called s => s = job.streamId ∧ 1 ≤ job.latestVersion ∧
      job.latestVersion ≤ (st.stream s).length
  | .read s v _ => s = job.streamId ∧ job.latestVersion ≤ v ∧ 1 ≤ v ∧ v ≤ (st.stream s).length
  | .planned s v _ => s = job.streamId ∧ job.latestVersion ≤ v ∧ 1 ≤ v ∧ v ≤ (st.stream s).length
  | .written s v _ _ =>
    s = job.streamId ∧ job.latestVersion ≤ v ∧ 1 ≤ v ∧ v ≤ (st.stream s).length
  | _ => st.Covers job.streamId job.latestVersion

theorem Store.Grows.length_le (h : st.Grows st') (s : Str) :
    ((st.stream s).length : ℤ) ≤ (st'.stream s).length :=
  Int.ofNat_le.mpr (Store.stream_prefix h.commits s).length_le

theorem CheckpointJob.Ok.mono {job : CheckpointJob} {c : CompactCall} (h : job.Ok st c)
    (hst : st.Grows st') : job.Ok st' c := by
  have hlen := hst.length_le
  cases c with
  | called s => exact ⟨h.1, h.2.1, h.2.2.trans (hlen s)⟩
  | read s v rows => exact ⟨h.1, h.2.1, h.2.2.1, h.2.2.2.trans (hlen s)⟩
  | planned s v rows => exact ⟨h.1, h.2.1, h.2.2.1, h.2.2.2.trans (hlen s)⟩
  | written s v rows path => exact ⟨h.1, h.2.1, h.2.2.1, h.2.2.2.trans (hlen s)⟩
  | _ => exact Store.Covers.mono h hst

theorem Store.CheckpointsBounded.of_eq (h : st.CheckpointsBounded)
    (hcommits : st'.commits = st.commits) (hcheckpoints : st'.checkpoints = st.checkpoints) :
    st'.CheckpointsBounded where
  log := h.log.of_commits_eq hcommits
  versions ck hck := by
    rw [Store.stream, hcommits]
    exact h.versions ck (hcheckpoints ▸ hck)

/-- A checkpoint of rows that are there is inserted. -/
theorem Store.CheckpointsBounded.insert (h : st.CheckpointsBounded) {ck : StorageCheckpoint}
    (hversion : 1 ≤ ck.version ∧ ck.version ≤ (st.stream ck.streamId).length)
    (hins : st.insertCheckpoint ck = some st') :
    st'.CheckpointsBounded ∧ st'.Covers ck.streamId ck.version := by
  obtain ⟨-, rfl⟩ := Store.insertCheckpoint_eq_some hins
  refine ⟨⟨h.log.of_commits_eq rfl, fun ck' hck' ↦ ?_⟩,
    .inr ⟨ck, List.mem_append_right _ List.mem_cons_self, rfl, le_rfl⟩⟩
  rcases List.mem_append.mp hck' with hck' | hck'
  · exact h.versions ck' hck'
  · rw [List.mem_singleton.mp hck']
    exact hversion

/-- **One step of a compaction**: whatever it meets, what has made it due is covered in the end. -/
theorem CompactStep.jobOk {job : CheckpointJob} {c c' : CompactCall} (h : CompactStep st c st' c')
    (hst : st.CheckpointsBounded) (hc : job.Ok st c) (hraised : c' = .raised → c.Conflicts st) :
    st'.CheckpointsBounded ∧ job.Ok st' c' := by
  -- a compaction that finds its version taken is covered by the other one
  have hconflict {s : Str} {v : ℤ} (hs : s = job.streamId) (hle : job.latestVersion ≤ v)
      (hfound : st.findCheckpoint s v ≠ none) : st.Covers job.streamId job.latestVersion :=
    hs ▸ (Store.covers_of_find hfound).le hle
  cases h with
  | @readEmpty s h =>
    obtain ⟨-, hlow, hhigh⟩ := hc
    rw [(hst.log s).selectStream] at h
    rw [h, List.length_nil] at hhigh
    exact absurd hhigh (by omega)
  | @read s last h =>
    obtain ⟨hs, hlow, hhigh⟩ := hc
    rw [(hst.log s).selectStream] at h
    have hne : st.stream s ≠ [] := fun hnil ↦ by simp [hnil] at h
    have hlast : last.version = (st.stream s).length := by
      rw [List.getLast?_eq_some_getLast hne, Option.some_inj] at h
      rw [← h, (hst.log s).numbered.num_getLast hne]
    exact ⟨hst, hs, by omega, by omega, by omega⟩
  | found h => exact ⟨hst, hconflict hc.1 hc.2.1 (by rw [h]; exact Option.some_ne_none _)⟩
  | plan h => exact ⟨hst, hc⟩
  | write config => exact ⟨hst.of_eq rfl rfl, hc⟩
  | insert now h =>
    obtain ⟨hs, hle, hversion⟩ := hc
    obtain ⟨hst', hcovers⟩ := hst.insert hversion h
    exact ⟨hst', hs ▸ hcovers.le hle⟩
  | integrityError now h => exact ⟨hst, hconflict hc.1 hc.2.1 (hraised rfl)⟩
  | finish => exact ⟨hst, hc⟩
  | fail =>
    refine ⟨hst, ?_⟩
    cases c with
    | written s v rows path => exact hconflict hc.1 hc.2.1 (hraised rfl)
    | _ => exact (hraised rfl).elim

/-! ## What holds of the process -/

variable {interval : ℤ} {p p' : Process}

/-- The cache promises no more than the store keeps, and what was spawned is about commits that are
there. -/
structure Process.Ok (p : Process) : Prop where
  /-- The store. -/
  store : p.store.CheckpointsBounded
  /-- The cache. -/
  cache : ∀ s v, p.lastCheckpointVersionCache s = some v → p.store.Covers s v
  /-- The compactions that have yet to run. -/
  spawned : ∀ job ∈ p.spawned, job.Ok p.store (.called job.streamId)

/-- What a thread knows. -/
def ProcessCall.Ok (st : Store) : ProcessCall → Prop
  | .idle => True
  | .append c => c.Ok st
  | .missed row => row ∈ st.commits
  | .loaded row last => row ∈ st.commits ∧ st.Covers row.streamId last
  | .checking row last => row ∈ st.commits ∧ st.Covers row.streamId last
  | .compacting job c => job.Ok st c

/-- **Other threads cannot invalidate it.** -/
theorem ProcessCall.Ok.mono {c : ProcessCall} (h : c.Ok st) (hst : st.Grows st') : c.Ok st' := by
  cases c with
  | idle => trivial
  | append c => exact AppendCall.Ok.mono h hst.commits
  | missed row => exact hst.commits.subset h
  | loaded row last => exact ⟨hst.commits.subset h.1, h.2.mono hst⟩
  | checking row last => exact ⟨hst.commits.subset h.1, h.2.mono hst⟩
  | compacting job c => exact CheckpointJob.Ok.mono h hst

/-- The store has changed, and the rest of the process has not. -/
theorem Process.Ok.withStore (hp : p.Ok) (h : p.store.Grows st') (hst : st'.CheckpointsBounded) :
    ({ p with store := st' } : Process).Ok where
  store := hst
  cache s v hv := (hp.cache s v hv).mono h
  spawned job hjob := (hp.spawned job hjob).mono h

/-- What is covered may be cached. -/
theorem Process.Ok.cached (hp : p.Ok) (h : p.store.Covers s v) : (p.cache s v).Ok where
  store := hp.store
  cache s' v' hv := by
    rw [Process.cache_apply] at hv
    split_ifs at hv with hs
    · rwa [hs, ← Option.some.inj hv]
    · exact hp.cache s' v' hv
  spawned := hp.spawned

theorem AppendStep.checkpointsBounded {c c' : AppendCall} (h : AppendStep st c st' c')
    (hst : st.CheckpointsBounded) (hc : c.Ok st) : st'.CheckpointsBounded ∧ c'.Ok st' := by
  obtain ⟨hlog, hc', hcommits⟩ := h.ok hst.log hc
  refine ⟨⟨hlog, fun ck hck ↦ ?_⟩, hc'⟩
  have hsame : st'.checkpoints = st.checkpoints := by rw [h.store_eq]
  obtain ⟨hlow, hhigh⟩ := hst.versions ck (hsame ▸ hck)
  exact ⟨hlow, hhigh.trans (h.grows.length_le ck.streamId)⟩

/-- A commit of the stream has a version of the stream. -/
theorem Store.CheckpointsBounded.jobOk (h : st.CheckpointsBounded) {row : StorageCommit}
    (hrow : row ∈ st.commits) :
    CheckpointJob.Ok ⟨row.streamId, row.version⟩ st (.called row.streamId) := by
  have hmem : row ∈ st.stream row.streamId := List.mem_filter.mpr ⟨hrow, decide_eq_true rfl⟩
  exact ⟨rfl, (h.log row.streamId).numbered.bounds hmem⟩

/-- **One step of one thread** keeps what holds of the process and what the thread knows. -/
theorem ProcessStep.ok {c c' : ProcessCall} (h : ProcessStep interval p c p' c') (hp : p.Ok)
    (hc : c.Ok p.store) : p.store.Grows p'.store ∧ p'.Ok ∧ c'.Ok p'.store := by
  have hsame : p.store.Grows p.store := .refl _
  cases h with
  | start a => exact ⟨hsame, hp, trivial⟩
  | append h hcommitted =>
    obtain ⟨hst, hc'⟩ := h.checkpointsBounded hp.store hc
    exact ⟨h.grows, hp.withStore h.grows hst, hc'⟩
  | hit h => exact ⟨hsame, hp, hc, hp.cache _ _ h⟩
  | miss h => exact ⟨hsame, hp, hc⟩
  | load => exact ⟨hsame, hp, hc, hp.store.covers_iff.mpr le_rfl⟩
  | fill => exact ⟨hsame, hp.cached hc.2, hc⟩
  | skip h => exact ⟨hsame, hp, hc.1⟩
  | spawn h =>
    refine ⟨hsame, { hp with spawned := fun job hjob ↦ ?_ }, hc.1⟩
    rcases List.mem_append.mp hjob with hjob | hjob
    · exact hp.spawned job hjob
    · rw [List.mem_singleton.mp hjob]
      exact hp.store.jobOk hc.1
  | stop h => exact ⟨hsame, hp, trivial⟩
  | @run job jobs jobs' h =>
    have hsub : (jobs ++ jobs').Sublist p.spawned :=
      h ▸ (List.sublist_cons_self job jobs').append_left jobs
    have hjob : job ∈ p.spawned := h ▸ List.mem_append_right _ List.mem_cons_self
    exact ⟨hsame, { hp with spawned := fun j hj ↦ hp.spawned j (hsub.subset hj) },
      hp.spawned job hjob⟩
  | compact h hraised =>
    obtain ⟨hst, hc'⟩ := h.jobOk hp.store hc hraised
    exact ⟨h.grows, hp.withStore h.grows hst, hc'⟩
  | advance => exact ⟨hsame, hp.cached hc, trivial⟩
  | warn => exact ⟨hsame, hp, trivial⟩

/-- **The premises of the rely–guarantee rule.** -/
theorem process_relyGuarantee (interval : ℤ) :
    RelyGuarantee (ι := ι) (ProcessStep interval) (fun _ ↦ True)
      (fun p p' ↦ p.store.Grows p'.store) Process.Ok (fun p c ↦ c.Ok p.store) where
  step _ _ _ _ _ _ hp hc h := h.ok hp hc
  stable _ _ _ h hc := hc.mono h

/-- A store on which a process starts. -/
structure Store.CaughtUp (interval : ℤ) (st : Store) : Prop extends st.CheckpointsBounded where
  /-- Every multiple of the interval is covered. -/
  covered : ∀ s v, v % interval = 0 → v ≤ (st.stream s).length → st.Covers s v

/-- **What holds of every process** at every moment. -/
theorem ProcessSystem.ok (hst : st.CheckpointsBounded) {c : ProcessSystem ι}
    (h : Steps (ProcessStep interval) (ProcessSystem.init ι st) c) :
    c.shared.Ok ∧ ∀ i, (c.locals i).Ok c.shared.store :=
  (process_relyGuarantee interval).steps h (fun _ _ ↦ trivial)
    ⟨hst, nofun, nofun⟩ fun _ ↦ trivial

/-! ## What is due -/

/-- What a thread has to do: to see whether the checkpoint of its commit is due, or to make one. -/
def ProcessCall.job : ProcessCall → Option CheckpointJob
  | .append (.committed row) => some ⟨row.streamId, row.version⟩
  | .missed row => some ⟨row.streamId, row.version⟩
  | .loaded row _ => some ⟨row.streamId, row.version⟩
  | .checking row _ => some ⟨row.streamId, row.version⟩
  | .compacting job _ => some job
  | _ => none

/-- A checkpoint was made, or a thread was started that will make one. -/
def Process.Promises (p : Process) (job : CheckpointJob) : Prop :=
  p.store.Covers job.streamId job.latestVersion ∨ job ∈ p.spawned

theorem Process.Promises.mono {job : CheckpointJob} (h : p.Promises job)
    (hst : p.store.Grows p'.store) (hspawned : p.spawned ⊆ p'.spawned) : p'.Promises job :=
  h.imp (fun hcovers ↦ hcovers.mono hst) fun hjob ↦ hspawned hjob

/-- **A boundary that a commit has reached is due.** -/
theorem covers_of_not_due (hinterval : 1 ≤ interval) {last : ℤ} (hv : v % interval = 0)
    (h : shouldCheckpoint v last interval = false) (hlast : st.Covers s last) : st.Covers s v := by
  rw [shouldCheckpoint, if_neg (by omega)] at h
  simp only [Bool.and_eq_false_iff, decide_eq_false_iff_not, hv, not_true_eq_false, or_false] at h
  exact hlast.le (by omega)

/-- **One step does not drop what is due.**  A thread that was to see to it hands it to the thread
it starts, or leaves it because it is covered. -/
theorem ProcessStep.promises {c c' : ProcessCall} (h : ProcessStep interval p c p' c')
    (hp : p.Ok) (hc : c.Ok p.store) (hinterval : 1 ≤ interval) {job : CheckpointJob}
    (hjob : job.latestVersion % interval = 0) (hdue : p.Promises job ∨ c.job = some job) :
    p'.Promises job ∨ c'.job = some job := by
  have hgrows : p.store.Grows p'.store := (h.ok hp hc).1
  -- most steps leave what was spawned as it is, and what the thread has to do
  have hkeep (hspawned : p'.spawned = p.spawned) (hcall : c.job = some job → c'.job = some job) :
      p'.Promises job ∨ c'.job = some job :=
    hdue.imp (fun hdue ↦ hdue.mono hgrows fun j hj ↦ hspawned.symm ▸ hj) hcall
  cases h with
  | start a => exact hkeep rfl nofun
  | @append c c' st' h hcommitted =>
    refine hkeep rfl fun hcall ↦ ?_
    cases c with
    | committed row => exact absurd rfl (hcommitted row)
    | _ => cases hcall
  | hit h => exact hkeep rfl id
  | miss h => exact hkeep rfl id
  | load => exact hkeep rfl id
  | fill => exact hkeep rfl id
  | @skip row last h =>
    rcases hdue with hdue | hcall
    · exact .inl hdue
    · obtain rfl := Option.some.inj hcall
      exact .inl (.inl (covers_of_not_due hinterval hjob h hc.2))
  | @spawn row last h =>
    rcases hdue with hdue | hcall
    · exact .inl (hdue.imp_right (List.mem_append_left _))
    · exact .inl (.inr (List.mem_append_right _ (Option.some.inj hcall ▸ List.mem_cons_self)))
  | @stop c h =>
    refine hkeep rfl fun hcall ↦ ?_
    cases c with
    | committed row => cases h
    | _ => cases hcall
  | @run j jobs jobs' h =>
    rcases hdue with (hcovers | hmem) | hcall
    · exact .inl (.inl hcovers)
    · rw [h, List.mem_append, List.mem_cons] at hmem
      rcases hmem with hmem | rfl | hmem
      · exact .inl (.inr (List.mem_append_left _ hmem))
      · exact .inr rfl
      · exact .inl (.inr (List.mem_append_right _ hmem))
    · cases hcall
  | compact h hraised => exact hkeep rfl id
  | advance =>
    rcases hdue with hdue | hcall
    · exact .inl hdue
    · exact .inl (.inl (Option.some.inj hcall ▸ hc))
  | warn =>
    rcases hdue with hdue | hcall
    · exact .inl hdue
    · exact .inl (.inl (Option.some.inj hcall ▸ hc))

/-- **A stream gets longer by a commit of which the thread has to see whether it is due.** -/
theorem ProcessStep.length {c c' : ProcessCall} (h : ProcessStep interval p c p' c') (hp : p.Ok)
    (hc : c.Ok p.store) (s : Str) : (p'.store.stream s).length = (p.store.stream s).length ∨
      (p'.store.stream s).length = (p.store.stream s).length + 1 ∧
        c'.job = some ⟨s, (p'.store.stream s).length⟩ := by
  cases h with
  | @append c c' st' h hcommitted =>
    cases h with
    | @commit _ t k v prev now hins =>
      obtain ⟨hnext, -⟩ := hp.store.log.insertCommit hc.1 hc.2 hins
      have hst' := (Store.insertCommit_eq_some hins).2
      have hstream : st'.stream s = p.store.stream s ++ if t.streamId = s then
          [(t.commit v prev now).column] else [] := by
        rw [hst']
        exact Store.stream_concat p.store (t.commit v prev now).column s
      show (st'.stream s).length = _ ∨ (st'.stream s).length = _ ∧
        some (CheckpointJob.mk t.streamId v) = some ⟨s, (st'.stream s).length⟩
      by_cases hs : t.streamId = s
      · have hlen : (st'.stream s).length = (p.store.stream s).length + 1 := by
          rw [hstream, if_pos hs, List.length_append, List.length_singleton]
        refine .inr ⟨hlen, ?_⟩
        rw [hlen, hnext, hs]
        rfl
      · rw [hstream, if_neg hs, List.append_nil]
        exact .inl rfl
    | _ => exact .inl rfl
  | @compact job c c' st' h hraised =>
    have hsame : st'.stream s = p.store.stream s := by rw [h.store_eq]; rfl
    exact .inl (congrArg List.length hsame)
  | _ => exact .inl rfl

/-- **Every boundary is attended to**: the checkpoint is there, or somebody sees to it. -/
theorem ProcessSystem.attended (hinterval : 1 ≤ interval) (hst : st.CaughtUp interval)
    {c : ProcessSystem ι} (h : Steps (ProcessStep interval) (ProcessSystem.init ι st) c)
    (hv : v % interval = 0) (hle : v ≤ (c.shared.store.stream s).length) :
    Attended (fun p ↦ p.Promises ⟨s, v⟩) (fun t ↦ t.job = some ⟨s, v⟩) c := by
  induction h with
  | refl => exact .inl (.inl (hst.covered s v hv hle))
  | @tail d e hcd hde ih =>
    obtain ⟨i, p', t', ht, rfl⟩ := hde
    obtain ⟨hp, hlocals⟩ := ProcessSystem.ok hst.toCheckpointsBounded hcd
    have hle' : v ≤ (p'.store.stream s).length := hle
    by_cases hold : v ≤ (d.shared.store.stream s).length
    · exact (ih hold).set (ht.promises hp (hlocals i) hinterval hv)
    · rcases ht.length hp (hlocals i) s with hlen | ⟨hlen, hjob⟩
      · exact absurd (hlen ▸ hle') hold
      · -- this is the version that was committed in this step
        have hversion : ((p'.store.stream s).length : ℤ) = v := by omega
        exact Attended.of_duty d i p' (hversion ▸ hjob)

theorem ProcessCall.job_of_ended {c : ProcessCall} (h : c.ended = true) : c.job = none := by
  cases c with
  | append c => cases c <;> first | rfl | cases h
  | idle => rfl
  | _ => cases h

omit [DecidableEq ι] in
/-- **When everything has ended, every boundary is covered.** -/
theorem ProcessSystem.Quiescent.covers {c : ProcessSystem ι} (hquiet : c.Quiescent)
    (h : Attended (fun p ↦ p.Promises ⟨s, v⟩) (fun t ↦ t.job = some ⟨s, v⟩) c) :
    c.shared.store.Covers s v := by
  rcases h with (hcovers | hspawned) | ⟨i, hi⟩
  · exact hcovers
  · rw [hquiet.1] at hspawned
    cases hspawned
  · rw [ProcessCall.job_of_ended (hquiet.2 i)] at hi
    cases hi

/-! ## What a read replays -/

/-- The tail of a read, as the read computes it. -/
theorem loadStreamState_eq_replayed (st : Store) (s : Str) (v : ℤ) (tenantId : Option Str) :
    loadStreamState st s v tenantId =
      (match st.bestCheckpoint s v with
        | none => some []
        | some ck => loadCheckpointRows st ck).map fun rows ↦
          assemble tenantId (rows ++ (st.replayed s v).map StorageCommit.toStreamRow) := by
  rw [loadStreamState, Store.replayed]
  cases st.bestCheckpoint s v <;> rfl

/-- The commits between two versions. -/
theorem StreamOk.length_selectTail (h : StreamOk (st.stream s)) {base : ℤ} (hbase : 0 ≤ base)
    (hle : base ≤ v) (hv : v ≤ (st.stream s).length) :
    ((st.selectTail s base v).length : ℤ) = v - base := by
  have hsplice := congrArg List.length (h.numbered.filter_splice hle)
  rw [List.length_append, h.numbered.filter_le, h.numbered.filter_le, List.length_take,
    List.length_take, ← h.selectTail] at hsplice
  omega

/-- The checkpoint a read starts from is the newest one. -/
theorem Store.bestCheckpoint_ge {ck : StorageCheckpoint} (hck : ck ∈ st.checkpoints)
    (hs : ck.streamId = s) (hv : ck.version ≤ v) :
    ∃ best, st.bestCheckpoint s v = some best ∧ ck.version ≤ best.version := by
  let newer (a b : StorageCheckpoint) : Prop := b.version ≤ a.version
  have htotal : Std.Total newer := ⟨fun a b ↦ le_total b.version a.version⟩
  have htrans : IsTrans StorageCheckpoint newer := ⟨fun _ _ _ hab hbc ↦ hbc.trans hab⟩
  let found := st.checkpoints.filter fun ck ↦ ck.streamId = s ∧ ck.version ≤ v
  have hsorted : (found.insertionSort newer).Pairwise newer :=
    List.pairwise_insertionSort newer found
  have hmem : ck ∈ found.insertionSort newer :=
    (List.mem_insertionSort newer).mpr (List.mem_filter.mpr ⟨hck, by simp [hs, hv]⟩)
  obtain ⟨best, rest, hlist⟩ := List.exists_cons_of_ne_nil (List.ne_nil_of_mem hmem)
  refine ⟨best, congrArg List.head? hlist, ?_⟩
  rw [hlist] at hmem hsorted
  rcases List.mem_cons.mp hmem with rfl | hrest
  · exact le_rfl
  · exact (List.pairwise_cons.mp hsorted).1 ck hrest

/-- **A read of a stream whose last boundary is covered** replays fewer commits than an interval
has. -/
theorem Store.CheckpointsBounded.length_replayed (h : st.CheckpointsBounded)
    (hinterval : 1 ≤ interval) (hmax : st.maxVersion s = some v)
    (hcovers : st.Covers s (interval * (v / interval))) :
    ((st.replayed s v).length : ℤ) < interval := by
  have hstream := h.log s
  have hlen : v = (st.stream s).length := by
    have := hstream.numbered.max?_getD
    rw [Store.maxVersion] at hmax
    rwa [hmax, Option.getD_some] at this
  have hdiv := Int.mul_ediv_add_emod v interval
  have hmod := Int.emod_lt_of_pos v (show 0 < interval by omega)
  rw [Store.replayed]
  cases hbest : st.bestCheckpoint s v with
  | none =>
    dsimp only
    rw [hstream.length_selectTail le_rfl (by omega) hlen.le]
    rcases hcovers with hzero | ⟨ck, hck, hs, -⟩
    · omega
    · -- a checkpoint would have been found
      have hversion := (h.versions ck hck).2
      rw [hs, ← hlen] at hversion
      obtain ⟨best, hbest', -⟩ := Store.bestCheckpoint_ge hck hs hversion
      simp [hbest] at hbest'
  | some best =>
    dsimp only
    obtain ⟨hmem, hs, hle⟩ := Store.bestCheckpoint_mem hbest
    have hlow := (h.versions best hmem).1
    rw [hstream.length_selectTail (by omega) hle hlen.le]
    rcases hcovers with hzero | ⟨ck, hck, hcs, hcv⟩
    · omega
    · have hversion := (h.versions ck hck).2
      rw [hcs, ← hlen] at hversion
      obtain ⟨best', hbest', hge⟩ := Store.bestCheckpoint_ge hck hcs hversion
      obtain rfl := Option.some.inj (hbest.symm.trans hbest')
      omega

/-! ## The lag -/

/-- **How far checkpoints lag behind.**  At every moment the cache promises no checkpoint beyond the
last one; and when all calls and all compactions have ended, the last checkpoint is at the last
multiple of the interval or beyond it, and a read replays fewer commits than an interval has. -/
theorem checkpoint_lag (hinterval : 1 ≤ interval) (hst : st.CaughtUp interval)
    {c : ProcessSystem ι} (h : Steps (ProcessStep interval) (ProcessSystem.init ι st) c) (s : Str) :
    (∀ v, c.shared.lastCheckpointVersionCache s = some v →
      v ≤ loadLastCheckpointVersion c.shared.store s) ∧
    (c.Quiescent →
      interval * ((c.shared.store.maxVersion s).getD 0 / interval) ≤
        loadLastCheckpointVersion c.shared.store s ∧
      ∀ v, c.shared.store.maxVersion s = some v →
        ((c.shared.store.replayed s v).length : ℤ) < interval) := by
  obtain ⟨hp, -⟩ := ProcessSystem.ok hst.toCheckpointsBounded h
  refine ⟨fun v hv ↦ hp.store.covers_iff.mp (hp.cache s v hv), fun hquiet ↦ ?_⟩
  have hlen : (c.shared.store.maxVersion s).getD 0 = (c.shared.store.stream s).length :=
    (hp.store.log s).numbered.max?_getD
  have hcovers : c.shared.store.Covers s
      (interval * ((c.shared.store.maxVersion s).getD 0 / interval)) := by
    refine hquiet.covers (ProcessSystem.attended hinterval hst h (Int.mul_emod_right ..) ?_)
    rw [hlen]
    exact Int.mul_ediv_self_le (by omega)
  refine ⟨hp.store.covers_iff.mp hcovers, fun v hv ↦ ?_⟩
  rw [hv, Option.getD_some] at hcovers
  exact hp.store.length_replayed hinterval hv hcovers

/-! ### One commit and its checkpoint -/

theorem Store.caughtUp_create (interval : ℤ) (database : Str) :
    (Store.create database).CaughtUp interval where
  log _ := streamOk_nil
  versions := nofun
  covered _ _ _ hle := .inl hle

/-- A checkpoint after every commit: one thread appends, and another one makes the checkpoint. -/
theorem checkpoint_lag_first : ∃ c : ProcessSystem Bool,
    c.shared.lastCheckpointVersionCache "spans".toList = some 1 ∧
      1 ≤ loadLastCheckpointVersion c.shared.store "spans".toList ∧
      c.shared.store.replayed "spans".toList 1 = [] := by
  let t := spanTask []
  let spans : Str := "spans".toList
  let path := firstCheckpoint.filePath
  let job : CheckpointJob := ⟨spans, 1⟩
  let writtenStore := raceMiddle.writeFile path [firstRow.column.toStreamRow]
  have happend {p : Process} {a a' : AppendCall} {st' : Store} (h : AppendStep p.store a st' a')
      (ha : ∀ row, a ≠ .committed row) :
      ProcessStep 1 p (.append a) { p with store := st' } (.append a') := .append h ha
  have hcompact {p : Process} {a a' : CompactCall} {st' : Store}
      (h : CompactStep p.store a st' a') (ha : a' ≠ .raised) :
      ProcessStep 1 p (.compacting job a) { p with store := st' } (.compacting job a') :=
    .compact h fun heq ↦ absurd heq ha
  have hmask : AppendStep raceStart (.called (spanArgs [])) raceStart (.ready t 0) :=
    .mask (fun p ↦ .ok (.dict p)) rfl
  have hversion : AppendStep raceStart (.ready t 0) raceStart (.versioned t 0 1) :=
    .readVersion (by decide)
  have hprev : AppendStep raceStart (.versioned t 0 1) raceStart (.linked t 0 1 none) :=
    .readPrev rfl
  have hcommit : AppendStep raceStart (.stamped t 0 1 none noon) raceMiddle
    (.committed firstRow.column) := .commit rfl
  have hlast : (raceMiddle.selectStream spans).getLast? = some firstRow.column := rfl
  have hread : CompactStep raceMiddle (.called spans) raceMiddle
    (.read spans 1 [firstRow.column]) := .read hlast
  have hwrite : CompactStep raceMiddle (.planned spans 1 [firstRow.column]) writtenStore
    (.written spans 1 [firstRow.column] path) := .write .default
  have hinsert : CompactStep writtenStore (.written spans 1 [firstRow.column] path) compactedStore
    (.committed firstCheckpoint) := .insert noon rfl
  have hrun {p : Process} (h : p.spawned = [] ++ job :: []) :
      ProcessStep 1 p .idle { p with spawned := [] } (.compacting job (.called spans)) := .run h
  have h0 : Steps (ProcessStep 1) (ProcessSystem.init Bool raceStart) _ := .refl
  have h1 := Steps.thread h0 false (.start (spanArgs []))
  have h2 := Steps.thread h1 false (happend hmask nofun)
  have h3 := Steps.thread h2 false (happend hversion nofun)
  have h4 := Steps.thread h3 false (happend hprev nofun)
  have h5 := Steps.thread h4 false (happend (.stamp noon) nofun)
  have h6 := Steps.thread h5 false (happend hcommit nofun)
  have h7 := Steps.thread h6 false (.miss rfl)
  have h8 := Steps.thread h7 false .load
  have h9 := Steps.thread h8 false .fill
  have h10 := Steps.thread h9 false (.spawn rfl)
  have h11 := Steps.thread h10 true (hrun rfl)
  have h12 := Steps.thread h11 true (hcompact hread nofun)
  have h13 := Steps.thread h12 true (hcompact (.plan rfl) nofun)
  have h14 := Steps.thread h13 true (hcompact hwrite nofun)
  have h15 := Steps.thread h14 true (hcompact hinsert nofun)
  have h16 := Steps.thread h15 true (hcompact .finish nofun)
  have h17 := Steps.thread h16 true .advance
  obtain ⟨c, h, hstore, hspawned, hcached, hidle⟩ : ∃ c : ProcessSystem Bool,
      Steps (ProcessStep 1) (ProcessSystem.init Bool raceStart) c ∧
      c.shared.store = compactedStore ∧ c.shared.spawned = [] ∧
      c.shared.lastCheckpointVersionCache spans = some 1 ∧ ∀ i, (c.locals i).ended = true :=
    ⟨_, h17, rfl, rfl, rfl, fun i ↦ by cases i <;> rfl⟩
  have hmax : c.shared.store.maxVersion spans = some 1 := by rw [hstore]; rfl
  obtain ⟨hcache, hquiet⟩ := checkpoint_lag le_rfl (Store.caughtUp_create 1 _) h spans
  have hlength : ((c.shared.store.replayed "spans".toList 1).length : ℤ) < 1 :=
    (hquiet ⟨hspawned, hidle⟩).2 1 hmax
  exact ⟨c, hcached, hcache 1 hcached, List.length_eq_zero_iff.mp (by omega)⟩

end WiseTraceLoom
