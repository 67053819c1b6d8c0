import WiseTraceLoom.Storage.Log

/-!
# Checkpoints

A checkpoint is a Parquet file with all rows of a stream up to some version, and a row of its own
that says where the file is.  A compaction reads the stream at one moment, writes the file at
another and inserts its row at a third, and appends and other compactions may come in between:
`CompactStep`.  `compactCheckpoint` is the whole call when nothing does.

`checkpointFilePath` is where the file goes.  The last component of the path determines the version
(`checkpointFileName_injective`); the directory above it does not determine the stream, as
characters that do not belong in a file name are all replaced by `_`.
-/

set_option autoImplicit false

namespace WiseTraceLoom

open Interleaving

/-! ## Paths -/

/-- `_STREAM_ID_SANITIZE_RE.sub("_", s)`. -/
def sanitize (s : Str) : Str :=
  s.map fun c ↦ if c.isAlphanum || c == '_' || c == '-' then c else '_'

/-- `default_checkpoint_dir`. -/
def defaultCheckpointDir (database : Str) : Str :=
  ((PurePath.parse database).parent.child "checkpoints".toList).toStr

/-- `f"{version:020d}.checkpoint.parquet"`. -/
def checkpointFileName (version : ℤ) : Str :=
  Text.zeroPad 20 version ++ ".checkpoint.parquet".toList

/-- `checkpoint_file_path`. -/
def checkpointFilePath (streamId : Str) (version : ℤ) (checkpointDir database : Str) : PurePath :=
  (((PurePath.parse checkpointDir).child (sanitize (PurePath.parse database).stem)).child
    (sanitize streamId)).child (checkpointFileName version)

/-- `config.checkpoint_dir or default_checkpoint_dir(engine)`. -/
def StorageConfig.dir (config : StorageConfig) (database : Str) : Str :=
  match config.checkpointDir with
  | some (c :: cs) => c :: cs
  | _ => defaultCheckpointDir database

theorem checkpointFileName_injective : Function.Injective checkpointFileName := fun _ _ h ↦
  Text.zeroPad_injective 20 (List.append_cancel_right h)

theorem checkpointFileName_plain (v : ℤ) : PurePath.Plain (checkpointFileName v) := by
  have hlen : 3 < (checkpointFileName v).length := by
    rw [checkpointFileName, List.length_append]
    have : ".checkpoint.parquet".toList.length = 19 := rfl
    omega
  refine ⟨fun hslash ↦ ?_, ?_, ?_, ?_⟩
  · rcases List.mem_append.mp hslash with h | h
    · exact Text.not_mem_zeroPad rfl (by decide) 20 v h
    · exact absurd h (by decide)
  all_goals
    intro h
    rw [h] at hlen
    exact absurd hlen (by decide)

/-- The file a checkpoint of version `v` is written to is called after `v`. -/
theorem name_checkpointFilePath (s : Str) (v : ℤ) (dir database : Str) :
    (checkpointFilePath s v dir database).resolve.name = checkpointFileName v :=
  PurePath.name_resolve_child (checkpointFileName_plain v) _

/-! ## When a checkpoint is due -/

/-- `should_checkpoint`. -/
def shouldCheckpoint (latestVersion lastCheckpointVersion interval : ℤ) : Bool :=
  if interval ≤ 0 then false
  else latestVersion > lastCheckpointVersion && latestVersion % interval = 0

/-! ## The statements -/

/-- The row of the checkpoint of a stream at a version, if there is one. -/
def Store.findCheckpoint (st : Store) (streamId : Str) (version : ℤ) : Option StorageCheckpoint :=
  st.checkpoints.find? fun ck ↦ ck.streamId = streamId ∧ ck.version = version

/-- The insert of a checkpoint and its commit, `none` if there already is one. -/
def Store.insertCheckpoint (st : Store) (ck : StorageCheckpoint) : Option Store :=
  if (st.findCheckpoint ck.streamId ck.version).isSome then none
  else some { st with checkpoints := st.checkpoints ++ [ck] }

/-- Writing a Parquet file: what was there before is replaced. -/
def Store.writeFile (st : Store) (path : PurePath) (rows : List StreamRow) : Store :=
  { st with files := Function.update st.files path.resolve (some rows) }

theorem Store.writeFile_files (st : Store) (path p : PurePath) (rows : List StreamRow) :
    (st.writeFile path rows).files p = if p = path.resolve then some rows else st.files p :=
  Function.update_apply ..

/-- Reading a Parquet file. -/
def Store.readFile (st : Store) (path : PurePath) : Option (List StreamRow) :=
  st.files path.resolve

/-- The checkpoint of the rows that were read. -/
def newCheckpoint (streamId : Str) (version : ℤ) (path : PurePath) (rows : List StorageCommit)
    (now : Timestamp) : StorageCheckpoint :=
  ⟨streamId, version, path, rows.length, (utcnow now).column⟩

/-! ## A call among others -/

/-- Where a call to `compact_checkpoint` stands. -/
inductive CompactCall where
  | called (streamId : Str)
  /-- After the rows of the stream were read, the last one having this version. -/
  | read (streamId : Str) (version : ℤ) (rows : List StorageCommit)
  /-- After it was found that there is no such checkpoint yet. -/
  | planned (streamId : Str) (version : ℤ) (rows : List StorageCommit)
  /-- After the file was written. -/
  | written (streamId : Str) (version : ℤ) (rows : List StorageCommit) (path : PurePath)
  | committed (ck : StorageCheckpoint)
  | returned (ck : Option StorageCheckpoint)
  | raised

/-- One step of a call to `compact_checkpoint`.  The configuration it finds is not part of this
store, so any will do. -/
inductive CompactStep : Store → CompactCall → Store → CompactCall → Prop
  | readEmpty {st : Store} {s : Str} (h : st.selectStream s = []) :
      CompactStep st (.called s) st (.returned none)
  | read {st : Store} {s : Str} {last : StorageCommit}
      (h : (st.selectStream s).getLast? = some last) :
      CompactStep st (.called s) st (.read s last.version (st.selectStream s))
  | found {st : Store} {s : Str} {v : ℤ} {rows : List StorageCommit} {ck : StorageCheckpoint}
      (h : st.findCheckpoint s v = some ck) :
      CompactStep st (.read s v rows) st (.returned (some ck))
  | plan {st : Store} {s : Str} {v : ℤ} {rows : List StorageCommit}
      (h : st.findCheckpoint s v = none) :
      CompactStep st (.read s v rows) st (.planned s v rows)
  | write {st : Store} {s : Str} {v : ℤ} {rows : List StorageCommit} (config : StorageConfig) :
      CompactStep st (.planned s v rows)
        (st.writeFile (checkpointFilePath s v (config.dir st.database) st.database)
          (rows.map StorageCommit.toStreamRow))
        (.written s v rows (checkpointFilePath s v (config.dir st.database) st.database))
  | insert {st st' : Store} {s : Str} {v : ℤ} {rows : List StorageCommit} {path : PurePath}
      (now : Timestamp) (h : st.insertCheckpoint (newCheckpoint s v path rows now) = some st') :
      CompactStep st (.written s v rows path) st' (.committed (newCheckpoint s v path rows now))
  /-- `IntegrityError`: another compaction of the same version came first. -/
  | integrityError {st : Store} {s : Str} {v : ℤ} {rows : List StorageCommit} {path : PurePath}
      (now : Timestamp) (h : st.insertCheckpoint (newCheckpoint s v path rows now) = none) :
      CompactStep st (.written s v rows path) st .raised
  | finish {st : Store} {ck : StorageCheckpoint} :
      CompactStep st (.committed ck) st (.returned (some ck))
  | fail {st : Store} {c : CompactCall} : CompactStep st c st .raised

/-- **What a step of a compaction can write**: nothing, its file, or its row. -/
theorem CompactStep.effect {st st' : Store} {c c' : CompactCall} (h : CompactStep st c st' c') :
    st' = st ∨
      (∃ s v rows, ∃ config : StorageConfig, c = .planned s v rows ∧
        st' = st.writeFile (checkpointFilePath s v (config.dir st.database) st.database)
          (rows.map StorageCommit.toStreamRow)) ∨
      ∃ s v rows path now, c = .written s v rows path ∧
        st.insertCheckpoint (newCheckpoint s v path rows now) = some st' := by
  cases h
  case write s v rows config => exact Or.inr (Or.inl ⟨s, v, rows, config, rfl, rfl⟩)
  case insert s v rows path now h => exact Or.inr (Or.inr ⟨s, v, rows, path, now, rfl, h⟩)
  all_goals exact Or.inl rfl

theorem Store.insertCheckpoint_eq_some {st st' : Store} {ck : StorageCheckpoint}
    (h : st.insertCheckpoint ck = some st') :
    st.findCheckpoint ck.streamId ck.version = none ∧
      st' = { st with checkpoints := st.checkpoints ++ [ck] } := by
  rw [insertCheckpoint] at h
  split_ifs at h with hfound
  exact ⟨by simpa using hfound, (Option.some.inj h).symm⟩

/-- A compaction writes files and checkpoints and nothing else. -/
theorem CompactStep.store_eq {st st' : Store} {c c' : CompactCall} (h : CompactStep st c st' c') :
    st' = { st with checkpoints := st'.checkpoints, files := st'.files } := by
  rcases h.effect with rfl | ⟨s, v, rows, config, -, rfl⟩ | ⟨s, v, rows, path, now, -, hins⟩
  · rfl
  · rfl
  · rw [(Store.insertCheckpoint_eq_some hins).2]

/-! ## A call on its own -/

/-- What a compaction meets. -/
structure CompactEnv where
  /-- The configuration it finds. -/
  config : StorageConfig
  /-- What the clock shows. -/
  now : Timestamp
  /-- Does it fail before its file is written? -/
  writeFails : Bool
  /-- Does it fail before its row is inserted? -/
  insertFails : Bool

/-- `compact_checkpoint` when nothing else happens; `none` where it raises. -/
def compactCheckpoint (env : CompactEnv) (streamId : Str) (st : Store) :
    Option (Option StorageCheckpoint) × Store :=
  let rows := st.selectStream streamId
  match rows.getLast? with
  | none => (some none, st)
  | some last =>
    match st.findCheckpoint streamId last.version with
    | some ck => (some (some ck), st)
    | none =>
      if env.writeFails then (none, st)
      else
        let dir := env.config.dir st.database
        let path := checkpointFilePath streamId last.version dir st.database
        let st' := st.writeFile path (rows.map StorageCommit.toStreamRow)
        if env.insertFails then (none, st')
        else
          let ck := newCheckpoint streamId last.version path rows env.now
          match st'.insertCheckpoint ck with
          | none => (none, st')
          | some st'' => (some (some ck), st'')

/-- The state in which a call ends. -/
def CompactCall.ofResult : Option (Option StorageCheckpoint) → CompactCall
  | none => .raised
  | some ck => .returned ck

/-- **The two views agree**: a call on its own is a run of the steps of a call among others. -/
theorem compactCheckpoint_steps (env : CompactEnv) (s : Str) (st : Store) :
    Solo CompactStep (st, .called s)
      ((compactCheckpoint env s st).2, .ofResult (compactCheckpoint env s st).1) := by
  rw [compactCheckpoint]
  cases hlast : (st.selectStream s).getLast? with
  | none => exact Solo.step .refl (.readEmpty (List.getLast?_eq_none_iff.mp hlast))
  | some last =>
    have hread : Solo CompactStep (st, .called s) (st, .read s last.version (st.selectStream s)) :=
      Solo.step .refl (.read hlast)
    cases hfind : st.findCheckpoint s last.version with
    | some ck =>
      simp only [hfind]
      exact hread.step (.found hfind)
    | none =>
      simp only [hfind]
      have hplan := hread.step (.plan hfind)
      have hwrite := hplan.step (.write env.config)
      split_ifs
      · exact hplan.step .fail
      · exact hwrite.step .fail
      · split
        · rename_i h
          exact hwrite.step (.integrityError env.now h)
        · rename_i st'' h
          exact (hwrite.step (.insert env.now h)).step .finish

/-! ## Reading a checkpoint back -/

/-- `load_checkpoint_rows`; `none` where the file cannot be read. -/
def loadCheckpointRows (st : Store) (ck : StorageCheckpoint) : Option (List StreamRow) :=
  st.readFile ck.filePath

end WiseTraceLoom
