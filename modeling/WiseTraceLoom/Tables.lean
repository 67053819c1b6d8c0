import WiseTraceLoom.Lib.Json
import WiseTraceLoom.Lib.PurePath
import WiseTraceLoom.Lib.Sha256

/-!
# The tables of a store

A *store* is one SQLite file together with the Parquet files its checkpoints are written to.  This
file has the rows of the tables that the storage layer, the audit chain and the erasure workflow
read and write, and `Store` itself.

* A table is the list of its rows in the order in which they were inserted; a query that asks for
  an order sorts.
* A `datetime` column drops the offset (`Datetime.column`): what was written as an aware UTC value
  is read back as a naive value with the same fields.  `isoUtc` is what makes up for it.
* `computeEntryHash` is the hash every row of the log carries.
-/

set_option autoImplicit false

namespace WiseTraceLoom

/-! ## Dates -/

/-- The wall-clock fields of a `datetime`. -/
structure Timestamp where
  /-- The year. -/
  year : ℕ
  /-- The month, from 1. -/
  month : ℕ
  /-- The day, from 1. -/
  day : ℕ
  /-- The hour. -/
  hour : ℕ
  /-- The minute. -/
  minute : ℕ
  /-- The second. -/
  second : ℕ
  /-- The microsecond. -/
  microsecond : ℕ
  deriving DecidableEq

/-- A `datetime`. -/
structure Datetime extends Timestamp where
  /-- `utcoffset()` in seconds, `none` for a naive value. -/
  utcoffset : Option ℤ
  deriving DecidableEq

/-- `datetime.now(timezone.utc)` when the clock shows `t`. -/
def utcnow (t : Timestamp) : Datetime := ⟨t, some 0⟩

/-- A moment. -/
def noon : Timestamp := ⟨2026, 1, 1, 12, 0, 0, 0⟩

/-- What a `datetime` column gives back. -/
def Datetime.column (dt : Datetime) : Datetime := ⟨dt.toTimestamp, none⟩

/-- The offset as `isoformat` writes it. -/
def isoOffset (seconds : ℤ) : Str :=
  let n := seconds.natAbs
  (if seconds < 0 then '-' else '+') ::
    (Text.zeroPad 2 (n / 3600) ++ ':' :: Text.zeroPad 2 (n / 60 % 60) ++
      if n % 60 = 0 then [] else ':' :: Text.zeroPad 2 (n % 60))

/-- `dt.isoformat()`: the microseconds are left out when they are zero. -/
def Datetime.isoformat (dt : Datetime) : Str :=
  Text.zeroPad 4 dt.year ++ '-' :: Text.zeroPad 2 dt.month ++ '-' :: Text.zeroPad 2 dt.day ++
    'T' :: Text.zeroPad 2 dt.hour ++ ':' :: Text.zeroPad 2 dt.minute ++
    ':' :: Text.zeroPad 2 dt.second ++
    (if dt.microsecond = 0 then [] else '.' :: Text.zeroPad 6 dt.microsecond) ++
    (dt.utcoffset.map isoOffset).getD []

/-- `iso_utc`: a naive value is taken to be UTC. -/
def isoUtc (dt : Datetime) : Str :=
  ({ dt with utcoffset := dt.utcoffset.or (some 0) } : Datetime).isoformat

/-- The text that is hashed does not change when a row is read back. -/
@[simp] theorem isoUtc_column_utcnow (t : Timestamp) :
    isoUtc (utcnow t).column = isoUtc (utcnow t) := rfl

/-! ## The commit log -/

/-- The payload of a commit: a `dict` with string keys. -/
abbrev Payload := List (Str × Json)

/-- One versioned event of a stream. -/
structure StorageCommit where
  /-- The stream it belongs to. -/
  streamId : Str
  /-- Its position in the stream, from 1. -/
  version : ℤ
  /-- What kind of event it is. -/
  recordType : Str
  /-- The tenant it was recorded for. -/
  tenantId : Option Str
  /-- The event, as JSON. -/
  payload : Str
  /-- When it was written. -/
  committedAt : Datetime
  /-- The `entryHash` of the version before it. -/
  prevHash : Option Str
  /-- The hash over all of the above. -/
  entryHash : Str
  deriving DecidableEq

/-- The text `compute_entry_hash` hashes. -/
def entryMaterial (prevHash : Option Str) (streamId : Str) (version : ℤ) (recordType : Str)
    (tenantId : Option Str) (committedAtIso payloadJson : Str) : Str :=
  Text.join ['\n'] [prevHash.getD [], streamId, Text.ofInt version, recordType, tenantId.getD [],
    committedAtIso, payloadJson]

/-- `compute_entry_hash`. -/
def computeEntryHash (prevHash : Option Str) (streamId : Str) (version : ℤ) (recordType : Str)
    (tenantId : Option Str) (committedAtIso payloadJson : Str) : Str :=
  Sha256.hexdigest
    (entryMaterial prevHash streamId version recordType tenantId committedAtIso payloadJson)

/-- The text hashed for a row, from the row's own fields. -/
def StorageCommit.material (row : StorageCommit) : Str :=
  entryMaterial row.prevHash row.streamId row.version row.recordType row.tenantId
    (isoUtc row.committedAt) row.payload

/-- The hash recomputed from a row's own fields. -/
def StorageCommit.recomputed (row : StorageCommit) : Str :=
  computeEntryHash row.prevHash row.streamId row.version row.recordType row.tenantId
    (isoUtc row.committedAt) row.payload

theorem StorageCommit.recomputed_eq (row : StorageCommit) :
    row.recomputed = Sha256.hexdigest row.material := rfl

/-- The row as it is read back. -/
def StorageCommit.column (row : StorageCommit) : StorageCommit :=
  { row with committedAt := row.committedAt.column }

/-! ## Checkpoints -/

/-- A row of a checkpoint file, and of what a read puts together before it decodes the payloads. -/
structure StreamRow where
  /-- The stream. -/
  streamId : Str
  /-- The version. -/
  version : ℤ
  /-- The kind of event. -/
  recordType : Str
  /-- The tenant. -/
  tenantId : Option Str
  /-- The event, as JSON. -/
  payload : Str
  /-- `committed_at.isoformat()`. -/
  committedAt : Str
  deriving DecidableEq

/-- The fields of a commit that a checkpoint keeps. -/
def StorageCommit.toStreamRow (row : StorageCommit) : StreamRow :=
  ⟨row.streamId, row.version, row.recordType, row.tenantId, row.payload, row.committedAt.isoformat⟩

/-- Where the snapshot of a stream up to a version was written. -/
structure StorageCheckpoint where
  /-- The stream. -/
  streamId : Str
  /-- The last version in the snapshot. -/
  version : ℤ
  /-- The Parquet file. -/
  filePath : PurePath
  /-- The number of rows in it. -/
  rowCount : ℕ
  /-- When it was written. -/
  createdAt : Datetime
  deriving DecidableEq

/-- The checkpoint and retention knobs of a tenant, or of everyone. -/
structure StorageConfig where
  /-- The tenant, `none` for the global row. -/
  tenantId : Option Str
  /-- How many commits lie between two checkpoints. -/
  checkpointIntervalCommits : ℤ
  /-- How long rows are kept. -/
  retentionDays : Option ℤ
  /-- Where checkpoints are written, `none` for next to the database. -/
  checkpointDir : Option Str
  deriving DecidableEq

/-! ## Anchors and erasure -/

/-- A Merkle root handed to an external anchor. -/
structure AnchorRecord where
  /-- The stream. -/
  streamId : Str
  /-- The root covers the versions up to this one. -/
  version : ℤ
  /-- The root. -/
  merkleRoot : Str
  /-- What the external anchor returned. -/
  externalReference : Str
  /-- When the record was made. -/
  anchoredAt : Datetime
  deriving DecidableEq

/-- One generation of a data subject's key. -/
structure SubjectKey where
  /-- The primary key. -/
  id : ℤ
  /-- The subject. -/
  subjectId : Str
  /-- The tenant. -/
  tenantId : Option Str
  /-- The generation, from 1. -/
  generation : ℤ
  /-- The key, `none` once it is destroyed. -/
  keyMaterial : Option Str
  /-- When the row was made. -/
  createdAt : Datetime
  /-- When the key was destroyed. -/
  destroyedAt : Option Datetime
  deriving DecidableEq

/-- The two states of an erasure request. -/
inductive ErasureStatus where
  | requested
  | confirmed
  deriving DecidableEq

/-- The text of a status in its column. -/
def ErasureStatus.text : ErasureStatus → Str
  | .requested => "Requested".toList
  | .confirmed => "Confirmed".toList

/-- A request to erase a subject's data. -/
structure ErasureRequest where
  /-- The primary key. -/
  id : ℤ
  /-- The subject. -/
  subjectId : Str
  /-- The tenant. -/
  tenantId : Option Str
  /-- Where the request stands. -/
  status : ErasureStatus
  /-- What is to be erased. -/
  scope : Option Str
  /-- Who asked. -/
  requestedBy : Option Str
  /-- When the request was made. -/
  requestedAt : Datetime
  /-- When it was confirmed. -/
  confirmedAt : Option Datetime
  deriving DecidableEq

/-! ## Stores -/

/-- One SQLite file and the files its checkpoints are written to. -/
structure Store where
  /-- The path of the SQLite file. -/
  database : Str
  /-- The commit log of all streams. -/
  commits : List StorageCommit
  /-- The checkpoints of all streams. -/
  checkpoints : List StorageCheckpoint
  /-- The configuration rows. -/
  configs : List StorageConfig
  /-- The anchors of all streams. -/
  anchors : List AnchorRecord
  /-- The keys of all subjects. -/
  subjectKeys : List SubjectKey
  /-- The erasure requests. -/
  erasureRequests : List ErasureRequest
  /-- The Parquet files. -/
  files : PurePath → Option (List StreamRow)

/-- A store whose tables have just been created. -/
def Store.create (database : Str) : Store := ⟨database, [], [], [], [], [], [], fun _ ↦ none⟩

/-- The rows of a stream, in the order in which they were inserted. -/
def Store.stream (st : Store) (streamId : Str) : List StorageCommit :=
  st.commits.filter fun row ↦ row.streamId = streamId

/-- `select(StorageCommit).where(stream_id == …).order_by(version)`. -/
def Store.selectStream (st : Store) (streamId : Str) : List StorageCommit :=
  (st.stream streamId).insertionSort fun a b ↦ a.version ≤ b.version

/-- The next value of an integer primary key. -/
def nextId (ids : List ℤ) : ℤ := ids.max?.getD 0 + 1

theorem lt_nextId {ids : List ℤ} {n : ℤ} (h : n ∈ ids) : n < nextId ids := by
  rw [nextId]
  cases hmax : ids.max? with
  | none => simp [List.max?_eq_none_iff.mp hmax] at h
  | some m =>
    have := (List.max?_eq_some_iff.mp hmax).2 n h
    rw [Option.getD_some]
    omega

/-- A row with a new key does not make a key of the table occur twice. -/
theorem nodup_map_concat {α β : Type} {key : α → β} {rows : List α} {row : α}
    (h : (rows.map key).Nodup) (hnew : ∀ r ∈ rows, key r ≠ key row) :
    ((rows ++ [row]).map key).Nodup := by
  rw [List.map_append, List.map_singleton, ← List.concat_eq_append, List.nodup_concat]
  refine ⟨fun hmem ↦ ?_, h⟩
  obtain ⟨r, hr, hkey⟩ := List.mem_map.mp hmem
  exact hnew r hr hkey

/-- What the `one()` of a query raises. -/
inductive OneError where
  | noResultFound
  | multipleResultsFound
  deriving DecidableEq

/-- `one()`. -/
def one {α : Type} : List α → Except OneError α
  | [] => .error .noResultFound
  | [a] => .ok a
  | _ => .error .multipleResultsFound

end WiseTraceLoom
