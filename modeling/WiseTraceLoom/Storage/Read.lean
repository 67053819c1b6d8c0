import WiseTraceLoom.Checkpoint

/-!
# Reading a stream

A read as of a version starts from the newest checkpoint that is not newer, and adds the commits
since.  The row of the checkpoint, its file and the commits are read at three moments, so next to
the functions there is `ReadStep`, as for appends and compactions.

What the two paths have to agree on is `snapshot`, the rows of a stream up to a version: a snapshot
and the commits after it make the later snapshot (`StreamOk.splice`), and this is what a plain
`replay` of the log finds (`StreamOk.assemble_snapshot`).
-/

set_option autoImplicit false

namespace WiseTraceLoom

open Interleaving NumberedLog

/-! ## The statements -/

/-- The newest checkpoint of a stream at or before a version. -/
def Store.bestCheckpoint (st : Store) (streamId : Str) (targetVersion : ℤ) :
    Option StorageCheckpoint :=
  ((st.checkpoints.filter fun ck ↦
    ck.streamId = streamId ∧ ck.version ≤ targetVersion).insertionSort
      fun a b ↦ b.version ≤ a.version).head?

/-- The commits of a stream after one version and up to another, in version order. -/
def Store.selectTail (st : Store) (streamId : Str) (baseVersion targetVersion : ℤ) :
    List StorageCommit :=
  ((st.stream streamId).filter fun row ↦
    baseVersion < row.version && row.version ≤ targetVersion).insertionSort
      fun a b ↦ a.version ≤ b.version

/-- Sorting the rows of checkpoint and tail by version, and keeping those of the tenant. -/
def assemble (tenantId : Option Str) (rows : List StreamRow) : List StreamRow :=
  let sorted := rows.insertionSort fun a b ↦ a.version ≤ b.version
  match tenantId with
  | none => sorted
  | some t => sorted.filter fun row ↦ row.tenantId = some t

/-- `[json.loads(row["payload"]) for row in rows]`; `none` where a payload is not JSON. -/
def loadPayloads (rows : List StreamRow) : Option (List Json) :=
  rows.mapM fun row ↦ Json.loads row.payload

/-- The largest version of a stream. -/
def Store.maxVersion (st : Store) (streamId : Str) : Option ℤ :=
  ((st.stream streamId).map StorageCommit.version).max?

/-! ## A read on its own -/

/-- `_load_stream_state`; `none` where the file of the checkpoint cannot be read. -/
def loadStreamState (st : Store) (streamId : Str) (targetVersion : ℤ) (tenantId : Option Str) :
    Option (List StreamRow) :=
  match st.bestCheckpoint streamId targetVersion with
  | none =>
    some (assemble tenantId
      ((st.selectTail streamId 0 targetVersion).map StorageCommit.toStreamRow))
  | some ck =>
    (loadCheckpointRows st ck).map fun rows ↦
      assemble tenantId
        (rows ++ (st.selectTail streamId ck.version targetVersion).map StorageCommit.toStreamRow)

/-- `read_as_of_version` on a given store; `none` where it raises. -/
def readAsOfVersion (st : Store) (streamId : Str) (version : ℤ) (tenantId : Option Str) :
    Option (List Json) :=
  (loadStreamState st streamId version tenantId).bind loadPayloads

/-- `read_latest` on a given store; `none` where it raises. -/
def readLatest (st : Store) (streamId : Str) (tenantId : Option Str) : Option (List Json) :=
  match st.maxVersion streamId with
  | none => some []
  | some version => readAsOfVersion st streamId version tenantId

/-! ## A read among other calls -/

/-- Where a call to `read_latest` or `read_as_of_version` stands. -/
inductive ReadCall where
  | latest (streamId : Str) (tenantId : Option Str)
  | called (streamId : Str) (version : ℤ) (tenantId : Option Str)
  /-- After the newest checkpoint was looked up. -/
  | based (streamId : Str) (version : ℤ) (tenantId : Option Str) (ck : Option StorageCheckpoint)
  /-- After its file was read: the rows, and the version they go up to. -/
  | loaded (streamId : Str) (version : ℤ) (tenantId : Option Str) (baseVersion : ℤ)
      (rows : List StreamRow)
  | returned (payloads : List Json)
  | raised

/-- One step of a read. -/
inductive ReadStep : Store → ReadCall → Store → ReadCall → Prop
  | noVersion {st : Store} {s : Str} {tenantId : Option Str} (h : st.maxVersion s = none) :
      ReadStep st (.latest s tenantId) st (.returned [])
  | maxVersion {st : Store} {s : Str} {tenantId : Option Str} {v : ℤ}
      (h : st.maxVersion s = some v) : ReadStep st (.latest s tenantId) st (.called s v tenantId)
  | base {st : Store} {s : Str} {v : ℤ} {tenantId : Option Str} :
      ReadStep st (.called s v tenantId) st (.based s v tenantId (st.bestCheckpoint s v))
  | noBase {st : Store} {s : Str} {v : ℤ} {tenantId : Option Str} :
      ReadStep st (.based s v tenantId none) st (.loaded s v tenantId 0 [])
  | load {st : Store} {s : Str} {v : ℤ} {tenantId : Option Str} {ck : StorageCheckpoint}
      {rows : List StreamRow} (h : loadCheckpointRows st ck = some rows) :
      ReadStep st (.based s v tenantId (some ck)) st (.loaded s v tenantId ck.version rows)
  | loadError {st : Store} {s : Str} {v : ℤ} {tenantId : Option Str} {ck : StorageCheckpoint}
      (h : loadCheckpointRows st ck = none) : ReadStep st (.based s v tenantId (some ck)) st .raised
  | tail {st : Store} {s : Str} {v base : ℤ} {tenantId : Option Str} {rows : List StreamRow}
      {payloads : List Json} (h : loadPayloads (assemble tenantId
        (rows ++ (st.selectTail s base v).map StorageCommit.toStreamRow)) = some payloads) :
      ReadStep st (.loaded s v tenantId base rows) st (.returned payloads)
  | tailError {st : Store} {s : Str} {v base : ℤ} {tenantId : Option Str} {rows : List StreamRow}
      (h : loadPayloads (assemble tenantId
        (rows ++ (st.selectTail s base v).map StorageCommit.toStreamRow)) = none) :
      ReadStep st (.loaded s v tenantId base rows) st .raised

/-- A read writes nothing. -/
theorem ReadStep.store_eq {st st' : Store} {c c' : ReadCall} (h : ReadStep st c st' c') :
    st' = st := by
  cases h <;> rfl

/-- The state in which a call ends. -/
def ReadCall.ofResult : Option (List Json) → ReadCall
  | none => .raised
  | some payloads => .returned payloads

/-- **The two views agree**: a read on its own is a run of the steps of a read among others. -/
theorem readAsOfVersion_steps (st : Store) (s : Str) (v : ℤ) (tenantId : Option Str) :
    Solo ReadStep (st, .called s v tenantId) (st, .ofResult (readAsOfVersion st s v tenantId)) := by
  have hbase : Solo ReadStep (st, .called s v tenantId)
      (st, .based s v tenantId (st.bestCheckpoint s v)) := Solo.step .refl .base
  have htail (base : ℤ) (rows : List StreamRow) : Solo ReadStep (st, .loaded s v tenantId base rows)
      (st, .ofResult (loadPayloads (assemble tenantId
        (rows ++ (st.selectTail s base v).map StorageCommit.toStreamRow)))) := by
    cases hpay : loadPayloads (assemble tenantId
        (rows ++ (st.selectTail s base v).map StorageCommit.toStreamRow)) with
    | none => exact Solo.step .refl (.tailError hpay)
    | some payloads => exact Solo.step .refl (.tail hpay)
  rw [readAsOfVersion, loadStreamState]
  cases hbest : st.bestCheckpoint s v with
  | none =>
    rw [hbest] at hbase
    exact (hbase.step .noBase).trans (htail 0 [])
  | some ck =>
    rw [hbest] at hbase
    cases hload : loadCheckpointRows st ck with
    | none =>
      simp only [hload, Option.map_none, Option.bind_none]
      exact hbase.step (.loadError hload)
    | some rows =>
      simp only [hload, Option.map_some, Option.bind_some]
      exact (hbase.step (.load hload)).trans (htail ck.version rows)

/-! ## Snapshots -/

/-- The first `v` rows of a stream, as a checkpoint keeps them. -/
def snapshot (rows : List StorageCommit) (v : ℤ) : List StreamRow :=
  (rows.take v.toNat).map StorageCommit.toStreamRow

/-- The commits a read has to give back, found by going through the log in version order. -/
def replay (st : Store) (streamId : Str) (v : ℤ) (tenantId : Option Str) : List StorageCommit :=
  ((st.selectStream streamId).filter fun row ↦ row.version ≤ v).filter fun row ↦
    tenantId.all fun t ↦ row.tenantId = some t

variable {st : Store} {s : Str}

theorem snapshot_of_isPrefix {l m : List StorageCommit} (hlm : l <+: m) {v : ℤ}
    (hv : v ≤ l.length) : snapshot m v = snapshot l v := by
  obtain ⟨t, rfl⟩ := hlm
  rw [snapshot, snapshot, List.take_append_of_le_length (by omega)]

/-- Writing the snapshot of one stream leaves that of another in its file, unless the files are the
same.  Two snapshots of one stream in one file are the same, as the file is called after the
version. -/
theorem Store.readFile_writeFile {path p : PurePath} {v v' : ℤ} {l l' : List StorageCommit}
    (hpath : path.resolve.name = checkpointFileName v)
    (hp : p.resolve.name = checkpointFileName v') (hsame : p.resolve = path.resolve → l' = l)
    (h : st.readFile p = some (snapshot l' v')) :
    (st.writeFile path (snapshot l v)).readFile p = some (snapshot l' v') := by
  rw [Store.readFile, Store.writeFile_files]
  split_ifs with heq
  · have hv : v' = v := checkpointFileName_injective (by rw [← hp, ← hpath, heq])
    rw [hv, hsame heq]
  · exact h

theorem StreamOk.snapshot_eq (h : StreamOk (st.stream s)) (v : ℤ) :
    snapshot (st.stream s) v =
      ((st.stream s).filter fun row ↦ row.version ≤ v).map StorageCommit.toStreamRow := by
  rw [snapshot, h.numbered.filter_le v]

theorem StreamOk.selectTail (h : StreamOk (st.stream s)) (base v : ℤ) :
    st.selectTail s base v =
      (st.stream s).filter fun row ↦ base < row.version && row.version ≤ v := by
  have hsorted := (h.numbered.pairwise.imp fun hab ↦ hab.le).filter
    fun row ↦ base < row.version && row.version ≤ v
  rw [Store.selectTail, hsorted.insertionSort_eq]

/-- **The splice**: a snapshot and the commits after it make the later snapshot. -/
theorem StreamOk.splice (h : StreamOk (st.stream s)) {base v : ℤ} (hbase : base ≤ v ∨ base = 0) :
    snapshot (st.stream s) base ++ (st.selectTail s base v).map StorageCommit.toStreamRow =
      snapshot (st.stream s) v := by
  rw [h.selectTail, h.snapshot_eq, h.snapshot_eq, ← List.map_append]
  rcases hbase with hbase | rfl
  · rw [h.numbered.filter_splice hbase]
  · -- all versions are positive, so version 0 is a base for every target
    congr 1
    have hnone : (st.stream s).filter (fun row ↦ decide (row.version ≤ 0)) = [] := by
      rw [h.numbered.filter_le]
      rfl
    rw [hnone, List.nil_append]
    refine List.filter_congr fun row hrow ↦ ?_
    have := (h.numbered.bounds hrow).1
    simp only [Bool.and_eq_right_iff_imp, decide_eq_true_eq]
    omega

/-- Sorted by version and filtered by tenant, a snapshot is the replay of the log. -/
theorem StreamOk.assemble_snapshot (h : StreamOk (st.stream s)) (v : ℤ) (tenantId : Option Str) :
    assemble tenantId (snapshot (st.stream s) v) =
      (replay st s v tenantId).map StorageCommit.toStreamRow := by
  have hsorted : (snapshot (st.stream s) v).Pairwise fun a b ↦ a.version ≤ b.version := by
    rw [h.snapshot_eq]
    exact List.pairwise_map.mpr ((h.numbered.pairwise.imp fun hab ↦ hab.le).filter _)
  have hsame := hsorted.insertionSort_eq
  cases tenantId with
  | none =>
    rw [assemble, hsame, h.snapshot_eq, replay, h.selectStream]
    simp
  | some t =>
    rw [assemble, hsame, h.snapshot_eq, replay, h.selectStream, List.filter_map]
    rfl

/-- What a compaction reads is the snapshot of the stream up to the version it finds last. -/
theorem StreamOk.selectStream_snapshot (h : StreamOk (st.stream s)) {last : StorageCommit}
    (hlast : (st.selectStream s).getLast? = some last) : 1 ≤ last.version ∧
      last.version ≤ (st.stream s).length ∧
      (st.selectStream s).map StorageCommit.toStreamRow = snapshot (st.stream s) last.version := by
  rw [h.selectStream] at hlast ⊢
  have hne : st.stream s ≠ [] := by
    rintro hnil
    simp [hnil] at hlast
  have hversion : last.version = (st.stream s).length := by
    rw [List.getLast?_eq_some_getLast hne, Option.some_inj] at hlast
    rw [← hlast, h.numbered.num_getLast hne]
  have hpos := List.length_pos_iff.mpr hne
  refine ⟨by omega, by omega, ?_⟩
  rw [snapshot, hversion, Int.toNat_natCast, List.take_length]

/-- The payloads of the log can be read. -/
theorem StreamOk.loadPayloads (h : StreamOk (st.stream s)) {rows : List StorageCommit}
    (hrows : rows ⊆ st.stream s) :
    ∃ payloads, loadPayloads (rows.map StorageCommit.toStreamRow) = some payloads ∧
      rows.map (fun row ↦ Json.loads row.payload) = payloads.map some := by
  induction rows with
  | nil => exact ⟨[], rfl, rfl⟩
  | cons row rows ih =>
    obtain ⟨payloads, hpay, hmap⟩ := ih fun r hr ↦ hrows (List.mem_cons_of_mem row hr)
    obtain ⟨members, hmembers⟩ := (h.sealed row (hrows List.mem_cons_self)).json
    have hload : Json.loads row.payload = some (Json.sortKeys (.obj members)) := by
      rw [hmembers, Json.loads_dumps]
    have hrow : Json.loads row.toStreamRow.payload = some (Json.sortKeys (.obj members)) := hload
    refine ⟨Json.sortKeys (.obj members) :: payloads, ?_, ?_⟩
    · rw [WiseTraceLoom.loadPayloads] at hpay
      rw [WiseTraceLoom.loadPayloads, List.map_cons, List.mapM_cons, hrow, hpay]
      rfl
    · rw [List.map_cons, List.map_cons, hload, hmap]

/-- **A read that has a snapshot to start from returns the replay of the log.** -/
theorem StreamOk.loadPayloads_assemble (h : StreamOk (st.stream s)) {base v : ℤ}
    (hbase : base ≤ v ∨ base = 0) (tenantId : Option Str) :
    ∃ payloads, WiseTraceLoom.loadPayloads (assemble tenantId (snapshot (st.stream s) base ++
        (st.selectTail s base v).map StorageCommit.toStreamRow)) = some payloads ∧
      (replay st s v tenantId).map (fun row ↦ Json.loads row.payload) = payloads.map some := by
  rw [h.splice hbase, h.assemble_snapshot]
  refine h.loadPayloads fun row hrow ↦ ?_
  rw [← h.selectStream]
  exact (List.mem_filter.mp (List.mem_filter.mp hrow).1).1

end WiseTraceLoom
