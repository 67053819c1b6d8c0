import WiseTraceLoom.Audit.Integrity

/-!
# Checkpoints refine the plain replay

In a store that holds a single stream, a read through a checkpoint and the commits after it returns
what a plain replay of the log returns, whatever compactions are going on: several may be under way
at once, finish late, out of order or not at all, and the read itself takes its three looks at the
store at three different moments.

The invariant is `Store.FilesOk`.  The name of a file is the version of its checkpoint and nothing
else, so that with a single stream every file called after version `v` holds the first `v` rows of
the log.  These never change, so it does not matter which compaction wrote the file last.
-/

set_option autoImplicit false

namespace WiseTraceLoom

open Interleaving NumberedLog

variable {ι : Type} [DecidableEq ι] {F : Fernet} {st st' : Store}

/-! ## Reads of backed checkpoints -/

/-- Every checkpoint has its rows: its file holds its stream up to its version. -/
def Store.Backed (st : Store) : Prop :=
  ∀ ck ∈ st.checkpoints,
    loadCheckpointRows st ck = some (snapshot (st.stream ck.streamId) ck.version) ∧
      ck.version ≤ (st.stream ck.streamId).length

/-- What a read knows.  No read ever fails. -/
def ReadCall.Ok (st : Store) : ReadCall → Prop
  | .based s v _ (some ck) => ck ∈ st.checkpoints ∧ ck.streamId = s ∧ ck.version ≤ v
  | .loaded s v _ base rows => rows = snapshot (st.stream s) base ∧
      base ≤ (st.stream s).length ∧ (base ≤ v ∨ base = 0)
  | .raised => False
  | _ => True

/-- A version within a stream is still within it later on. -/
theorem Store.Grows.le_length (h : st.Grows st') {s : Str} {v : ℤ}
    (hv : v ≤ (st.stream s).length) : v ≤ (st'.stream s).length := by
  have := (Store.stream_prefix h.commits s).length_le
  omega

/-- The rows up to it do not change. -/
theorem Store.Grows.snapshot_eq (h : st.Grows st') {s : Str} {v : ℤ}
    (hv : v ≤ (st.stream s).length) : snapshot (st'.stream s) v = snapshot (st.stream s) v :=
  snapshot_of_isPrefix (Store.stream_prefix h.commits s) hv

theorem ReadCall.Ok.mono {c : ReadCall} (hc : c.Ok st) (h : st.Grows st') : c.Ok st' := by
  match c, hc with
  | .based s v t (some ck), hc => exact ⟨h.checkpoints.subset hc.1, hc.2⟩
  | .loaded s v t base rows, hc =>
    exact ⟨hc.1.trans (h.snapshot_eq hc.2.1).symm, h.le_length hc.2.1, hc.2.2⟩
  | .latest _ _, _ | .called _ _ _, _ | .based _ _ _ none, _ | .returned _, _ => trivial

theorem Store.bestCheckpoint_mem {s : Str} {v : ℤ} {ck : StorageCheckpoint}
    (h : st.bestCheckpoint s v = some ck) :
    ck ∈ st.checkpoints ∧ ck.streamId = s ∧ ck.version ≤ v := by
  have hmem := List.mem_of_head? h
  rw [List.mem_insertionSort, List.mem_filter] at hmem
  simpa using hmem

/-- **One step of a read.** -/
theorem ReadStep.ok {c c' : ReadCall} (h : ReadStep st c st' c') (hlog : st.LogOk)
    (hst : st.Backed) (hc : c.Ok st) : c'.Ok st' := by
  cases h with
  | @base s v t =>
    cases hbest : st.bestCheckpoint s v with
    | none => trivial
    | some ck => exact Store.bestCheckpoint_mem hbest
  | noBase => exact ⟨rfl, by simp, Or.inr rfl⟩
  | load hload =>
    obtain ⟨hck, rfl, hle⟩ := hc
    obtain ⟨hrows, hversion⟩ := hst _ hck
    rw [hload, Option.some_inj] at hrows
    exact ⟨hrows, hversion, Or.inl hle⟩
  | loadError hload =>
    rw [(hst _ hc.1).1] at hload
    exact absurd hload (by simp)
  | tailError hpay =>
    obtain ⟨rfl, -, hbase⟩ := hc
    obtain ⟨payloads, hsome, -⟩ := (hlog _).loadPayloads_assemble hbase _
    rw [hpay] at hsome
    exact absurd hsome (by simp)
  | _ => trivial

/-- **The last step of a read returns the replay of the log.** -/
theorem ReadStep.replay {s : Str} {v base : ℤ} {tenantId : Option Str} {rows : List StreamRow}
    {c' : ReadCall} (h : ReadStep st (.loaded s v tenantId base rows) st' c') (hlog : st.LogOk)
    (hc : (ReadCall.loaded s v tenantId base rows).Ok st) :
    ∃ payloads, c' = .returned payloads ∧
      (replay st s v tenantId).map (fun row ↦ Json.loads row.payload) = payloads.map some := by
  obtain ⟨rfl, -, hbase⟩ := hc
  obtain ⟨payloads, hpay, hreplay⟩ := (hlog s).loadPayloads_assemble hbase tenantId
  cases h with
  | tail h =>
    rw [hpay, Option.some_inj] at h
    exact ⟨_, rfl, h ▸ hreplay⟩
  | tailError h => exact absurd (hpay.symm.trans h) (by simp)

/-- **A read on its own returns the replay of the log.** -/
theorem Store.Backed.readAsOfVersion {s : Str} (h : st.Backed) (hlog : StreamOk (st.stream s))
    (v : ℤ) (tenantId : Option Str) :
    ∃ payloads, readAsOfVersion st s v tenantId = some payloads ∧
      (WiseTraceLoom.replay st s v tenantId).map (fun row ↦ Json.loads row.payload) =
        payloads.map some := by
  simp only [WiseTraceLoom.readAsOfVersion, loadStreamState]
  cases hbest : st.bestCheckpoint s v with
  | none => exact hlog.loadPayloads_assemble (Or.inr (rfl : (0 : ℤ) = 0)) tenantId
  | some ck =>
    obtain ⟨hck, rfl, hle⟩ := Store.bestCheckpoint_mem hbest
    simp only [(h ck hck).1, Option.map_some, Option.bind_some]
    exact hlog.loadPayloads_assemble (Or.inl hle) tenantId

/-! ## The invariant -/

/-- Files and checkpoints describe prefixes of the stream `s`. -/
structure Store.FilesOk (s : Str) (st : Store) : Prop where
  /-- A file holds the rows up to the version it is called after. -/
  files : ∀ path rows, st.files path = some rows → ∃ v : ℤ, 1 ≤ v ∧ v ≤ (st.stream s).length ∧
    path.name = checkpointFileName v ∧ rows = snapshot (st.stream s) v
  /-- A checkpoint belongs to the stream and names a file that is there and is called after its
  version. -/
  checkpoints : ∀ ck ∈ st.checkpoints, ck.streamId = s ∧
    ck.filePath.resolve.name = checkpointFileName ck.version ∧ (st.readFile ck.filePath).isSome

/-- What a thread knows about files and checkpoints.  No read ever fails. -/
def Call.FilesOk (s : Str) (st : Store) : Call → Prop
  | .compact (.read s' v rows) => s' = s ∧ 1 ≤ v ∧ v ≤ (st.stream s).length ∧
      rows.map StorageCommit.toStreamRow = snapshot (st.stream s) v
  | .compact (.planned s' v rows) => s' = s ∧ 1 ≤ v ∧ v ≤ (st.stream s).length ∧
      rows.map StorageCommit.toStreamRow = snapshot (st.stream s) v
  | .compact (.written s' v _ path) => s' = s ∧ path.resolve.name = checkpointFileName v ∧
      (st.readFile path).isSome
  | .read (.based s' v _ (some ck)) => ck ∈ st.checkpoints ∧ ck.streamId = s' ∧ ck.version ≤ v
  | .read (.loaded s' v _ base rows) => rows = snapshot (st.stream s') base ∧
      base ≤ (st.stream s').length ∧ (base ≤ v ∨ base = 0)
  | .read .raised => False
  | _ => True

/-- What it knows about a read is what a read has to know. -/
theorem Call.filesOk_read {s : Str} {c : ReadCall} : (Call.read c).FilesOk s st ↔ c.Ok st := by
  match c with
  | .based _ _ _ none | .based _ _ _ (some _) | .loaded _ _ _ _ _ | .raised => exact Iff.rfl
  | .latest _ _ | .called _ _ _ | .returned _ => exact Iff.rfl

theorem Call.FilesOk.mono {s : Str} {c : Call} (hc : c.FilesOk s st) (h : st.Grows st') :
    c.FilesOk s st' := by
  match c, hc with
  | .compact (.read s' v rows), hc =>
    exact ⟨hc.1, hc.2.1, h.le_length hc.2.2.1, hc.2.2.2.trans (h.snapshot_eq hc.2.2.1).symm⟩
  | .compact (.planned s' v rows), hc =>
    exact ⟨hc.1, hc.2.1, h.le_length hc.2.2.1, hc.2.2.2.trans (h.snapshot_eq hc.2.2.1).symm⟩
  | .compact (.written s' v rows path), hc => exact ⟨hc.1, hc.2.1, h.files _ hc.2.2⟩
  | .read c, hc => exact filesOk_read.mpr ((filesOk_read.mp hc).mono h)
  | .idle, _ | .append _, _ | .anchor _, _ | .encrypt _, _ | .request _, _ | .confirm _, _
  | .config _, _ => trivial
  | .compact (.called _), _ | .compact (.committed _), _ | .compact (.returned _), _
  | .compact .raised, _ => trivial

/-- The log grows, files and checkpoints stay. -/
theorem Store.FilesOk.frame {s : Str} (h : st.FilesOk s) (hcommits : st.commits <+: st'.commits)
    (hfiles : st'.files = st.files) (hckpts : st'.checkpoints = st.checkpoints) :
    st'.FilesOk s where
  files := by
    intro path rows hrows
    rw [hfiles] at hrows
    obtain ⟨v, hpos, hle, hname, heq⟩ := h.files path rows hrows
    have hlen := (Store.stream_prefix hcommits s).length_le
    exact ⟨v, hpos, by omega, hname,
      heq.trans (snapshot_of_isPrefix (Store.stream_prefix hcommits s) hle).symm⟩
  checkpoints := by
    intro ck hck
    rw [hckpts] at hck
    rw [Store.readFile, hfiles]
    exact h.checkpoints ck hck

/-- The file of a checkpoint holds the rows up to the checkpoint's version. -/
theorem Store.FilesOk.load {s : Str} (h : st.FilesOk s) {ck : StorageCheckpoint}
    (hck : ck ∈ st.checkpoints) : loadCheckpointRows st ck =
      some (snapshot (st.stream s) ck.version) ∧ ck.version ≤ (st.stream s).length := by
  obtain ⟨-, hname, hsome⟩ := h.checkpoints ck hck
  obtain ⟨rows, hrows⟩ := Option.isSome_iff_exists.mp hsome
  obtain ⟨v, -, hle, hfile, rfl⟩ := h.files _ rows hrows
  have hv : ck.version = v := checkpointFileName_injective (hname.symm.trans hfile)
  exact ⟨hv ▸ hrows, hv ▸ hle⟩

theorem Store.FilesOk.backed {s : Str} (h : st.FilesOk s) : st.Backed := by
  intro ck hck
  rw [(h.checkpoints ck hck).1]
  exact h.load hck

/-! ## Steps -/

/-- Only compactions touch files and checkpoints. -/
theorem SystemStep.files_eq {c c' : Call} (h : SystemStep F st c st' c') :
    (st'.files = st.files ∧ st'.checkpoints = st.checkpoints) ∨
      ∃ a a', c = .compact a ∧ c' = .compact a' ∧ CompactStep st a st' a' := by
  cases h with
  | compact h => exact Or.inr ⟨_, _, rfl, rfl, h⟩
  | append h => rw [h.store_eq]; exact Or.inl ⟨rfl, rfl⟩
  | anchor h => rw [h.store_eq]; exact Or.inl ⟨rfl, rfl⟩
  | read h => rw [h.store_eq]; exact Or.inl ⟨rfl, rfl⟩
  | encrypt h => rw [h.store_eq]; exact Or.inl ⟨rfl, rfl⟩
  | request h => rw [h.store_eq]; exact Or.inl ⟨rfl, rfl⟩
  | confirm h => rw [h.store_eq]; exact Or.inl ⟨rfl, rfl⟩
  | config h => rw [h.store_eq]; exact Or.inl ⟨rfl, rfl⟩
  | _ => exact Or.inl ⟨rfl, rfl⟩

/-- A file of the snapshot of its version is written. -/
theorem Store.FilesOk.write {s : Str} (h : st.FilesOk s) {path : PurePath} {v : ℤ}
    {rows : List StreamRow} (hpos : 1 ≤ v) (hle : v ≤ (st.stream s).length)
    (hrows : rows = snapshot (st.stream s) v) (hname : path.resolve.name = checkpointFileName v) :
    (st.writeFile path rows).FilesOk s where
  files := by
    intro p r hp
    rw [Store.writeFile_files] at hp
    split_ifs at hp with hpath
    · exact ⟨v, hpos, hle, hpath ▸ hname, (Option.some.inj hp).symm.trans hrows⟩
    · exact h.files p r hp
  checkpoints := by
    intro ck hck
    obtain ⟨hs, hckname, hsome⟩ := h.checkpoints ck hck
    refine ⟨hs, hckname, ?_⟩
    rw [Store.readFile, Store.writeFile_files]
    split_ifs
    · rfl
    · exact hsome

/-- The row of a checkpoint is inserted, after its file was written. -/
theorem Store.FilesOk.insert {s : Str} (h : st.FilesOk s) {ck : StorageCheckpoint}
    (hins : st.insertCheckpoint ck = some st') (hs : ck.streamId = s)
    (hname : ck.filePath.resolve.name = checkpointFileName ck.version)
    (hsome : (st.readFile ck.filePath).isSome) : st'.FilesOk s := by
  obtain ⟨-, rfl⟩ := Store.insertCheckpoint_eq_some hins
  refine ⟨h.files, fun ck' hck ↦ ?_⟩
  rcases List.mem_append.mp hck with hck | hck
  · exact h.checkpoints ck' hck
  · rw [List.mem_singleton.mp hck]
    exact ⟨hs, hname, hsome⟩

/-- **One step of a compaction.** -/
theorem CompactStep.filesOk {s : Str} {c c' : CompactCall} (h : CompactStep st c st' c')
    (hlog : st.LogOk) (hsingle : ∀ row ∈ st.commits, row.streamId = s) (hst : st.FilesOk s)
    (hc : (Call.compact c).FilesOk s st) :
    st'.FilesOk s ∧ (Call.compact c').FilesOk s st' := by
  cases h with
  | @read s' last hlast =>
    have hmem := List.mem_of_getLast? hlast
    rw [(hlog s').selectStream, Store.stream, List.mem_filter] at hmem
    have hs : s' = s := by
      have hlast' : last.streamId = s' := by simpa using hmem.2
      exact hlast'.symm.trans (hsingle last hmem.1)
    subst hs
    exact ⟨hst, rfl, (hlog s').selectStream_snapshot hlast⟩
  | plan => exact ⟨hst, hc⟩
  | @write s' v rows config =>
    obtain ⟨rfl, hpos, hle, hrows⟩ := hc
    refine ⟨hst.write hpos hle hrows (name_checkpointFilePath ..), rfl,
      name_checkpointFilePath .., ?_⟩
    rw [Store.readFile, Store.writeFile_files, if_pos rfl]
    rfl
  | insert _ hins =>
    obtain ⟨rfl, hname, hsome⟩ := hc
    exact ⟨hst.insert hins rfl hname hsome, trivial⟩
  | _ => exact ⟨hst, trivial⟩

/-! ## Runs -/

/-- All commits belong to one stream. -/
def Store.Single (s : Str) (st : Store) : Prop := ∀ row ∈ st.commits, row.streamId = s

theorem Store.Single.of_prefix {s : Str} (h : st'.Single s) (hst : st.commits <+: st'.commits) :
    st.Single s := fun row hrow ↦ h row (hst.subset hrow)

/-- **The premises of the rely–guarantee rule**, for as long as there is a single stream. -/
theorem files_relyGuarantee (F : Fernet) (s : Str) :
    RelyGuarantee (ι := ι) (SystemStep F) (fun c ↦ c.shared.LogOk) Store.Grows
      (fun st ↦ st.Single s → st.FilesOk s) (fun st c ↦ st.Single s → c.FilesOk s st) where
  step := by
    intro c i st' t' hlog _ hst hc hstep
    have hgrows := hstep.grows
    refine ⟨hgrows, ?_⟩
    suffices h : st'.Single s → st'.FilesOk s ∧ t'.FilesOk s st' from
      ⟨fun hs ↦ (h hs).1, fun hs ↦ (h hs).2⟩
    intro hs'
    have hs := hs'.of_prefix hgrows.commits
    have hst := hst hs
    have hc := hc hs
    generalize c.shared = st at *
    generalize c.locals i = t at *
    rcases hstep.files_eq with ⟨hfiles, hckpts⟩ | ⟨a, a', rfl, rfl, h⟩
    · refine ⟨hst.frame hgrows.commits hfiles hckpts, ?_⟩
      cases hstep with
      | compact h => exact (h.filesOk hlog hs hst hc).2
      | read h => exact Call.filesOk_read.mpr (h.ok hlog hst.backed (Call.filesOk_read.mp hc))
      | start h => cases h <;> trivial
      | _ => trivial
    · exact h.filesOk hlog hs hst hc
  stable := fun _ _ _ hgrows hc hs ↦ (hc (hs.of_prefix hgrows.commits)).mono hgrows

/-- **The invariant holds in every reachable state** with a single stream. -/
theorem Reachable.filesOk {c : System ι} (hc : Reachable F c) {s : Str}
    (hsingle : c.shared.Single s) :
    c.shared.FilesOk s ∧ ∀ i, (c.locals i).FilesOk s c.shared := by
  obtain ⟨database, hrun⟩ := hc
  have hinit : (System.init ι database).shared.FilesOk s := by
    constructor
    · simp [System.init, Store.create]
    · simp [System.init, Store.create]
  obtain ⟨hst, hlocals⟩ := (files_relyGuarantee F s).steps hrun
    (fun d hd ↦ (Reachable.auditOk ⟨database, hd⟩).1.log) (fun _ ↦ hinit) (fun _ _ ↦ trivial)
  exact ⟨hst hsingle, fun i ↦ hlocals i hsingle⟩

/-- The last step of a read, when nothing else is going on or something is. -/
theorem Reachable.read_tail {c d : System ι} (hc : Reachable F c) {s : Str}
    (hsingle : c.shared.Single s) {i : ι} {v base : ℤ} {tenantId : Option Str}
    {rows : List StreamRow} (hloaded : c.locals i = .read (.loaded s v tenantId base rows))
    (hstep : StepOf (SystemStep F) i c d) (hidle : d.locals i ≠ .idle) :
    ∃ payloads, d.locals i = .read (.returned payloads) ∧
      (replay c.shared s v tenantId).map (fun row ↦ Json.loads row.payload) =
        payloads.map some := by
  have hlocal := (hc.filesOk hsingle).2 i
  obtain ⟨st', t', hstep, rfl⟩ := hstep
  rw [Config.set_locals_self] at hidle ⊢
  rw [hloaded] at hstep hlocal
  cases hstep with
  | stop => exact absurd rfl hidle
  | read h =>
    obtain ⟨payloads, rfl, hreplay⟩ := h.replay hc.auditOk.1.log (Call.filesOk_read.mp hlocal)
    exact ⟨payloads, rfl, hreplay⟩

/-- **Checkpoint-plus-tail reading equals the replay of the log.**  In every reachable state of a
store with a single stream, no read has failed; and a read that is about to run its tail query for a
version and a tenant returns exactly the payloads of the commits of that tenant up to that version
which are in the log at this moment, each once and in version order. -/
theorem read_refines_replay {c : System ι} (hc : Reachable F c) {s : Str}
    (hsingle : ∀ row ∈ c.shared.commits, row.streamId = s) (i : ι) :
    c.locals i ≠ .read .raised ∧
      ∀ v tenantId base rows, c.locals i = .read (.loaded s v tenantId base rows) →
        ∀ d, StepOf (SystemStep F) i c d → d.locals i ≠ .idle →
          ∃ payloads, d.locals i = .read (.returned payloads) ∧
            (replay c.shared s v tenantId).map (fun row ↦ Json.loads row.payload) =
              payloads.map some := by
  have hlocal := (hc.filesOk hsingle).2 i
  refine ⟨fun hraised ↦ by rwa [hraised] at hlocal, ?_⟩
  intro v tenantId base rows hloaded d hstep hidle
  exact hc.read_tail hsingle hloaded hstep hidle

/-! ### A read across a checkpoint -/

/-- The checkpoint of the first row. -/
def firstCheckpoint : StorageCheckpoint :=
  newCheckpoint "spans".toList 1
    (checkpointFilePath "spans".toList 1 "checkpoints".toList "store.db".toList)
    [firstRow.column] noon

/-- The store after the first append and a compaction. -/
def compactedStore : Store :=
  { raceMiddle.writeFile firstCheckpoint.filePath [firstRow.column.toStreamRow] with
    checkpoints := [firstCheckpoint] }

/-- The same store after the second append. -/
def spliceStore : Store := { compactedStore with commits := [firstRow.column, secondRow.column] }

/-- One thread appends, compacts and appends again; another reads up to version 2, and has loaded
the checkpoint of version 1. -/
theorem splice_reachable (F : Fernet) : ∃ c : System Bool, Reachable F c ∧ c.shared = spliceStore ∧
    c.locals false = .read (.loaded "spans".toList 2 none 1 [firstRow.column.toStreamRow]) := by
  let env : AppendEnv := ⟨fun _ ↦ ⟨noon, false⟩, none⟩
  let callback : MaskingCallback := fun p ↦ .ok (.dict p)
  have hfirst := appendCommit_steps callback env (spanArgs []) raceStart
  have hcompact := compactCheckpoint_steps ⟨.default, noon, false, false⟩ "spans".toList raceMiddle
  have hsecond := appendCommit_steps callback env (spanArgs [("a".toList, .int 1)]) compactedStore
  have hload : ReadStep spliceStore (.based "spans".toList 2 none (some firstCheckpoint))
      spliceStore (.loaded "spans".toList 2 none 1 [firstRow.column.toStreamRow]) := .load rfl
  have h0 : Runs F (System.init Bool "store.db".toList) _ := .refl
  have h1 := Steps.thread h0 true (.start (.append (spanArgs [])))
  have h2 := h1.trans (Runs.append true rfl rfl hfirst)
  have h3 := Steps.thread h2 true .stop
  have h4 := Steps.thread h3 true (.start (.compact "spans".toList))
  have h5 := h4.trans (Runs.compact true rfl rfl hcompact)
  have h6 := Steps.thread h5 true .stop
  have h7 := Steps.thread h6 true (.start (.append (spanArgs [("a".toList, .int 1)])))
  have h8 := h7.trans (Runs.append true rfl rfl hsecond)
  have h9 := Steps.thread h8 false (.start (.readAsOfVersion "spans".toList 2 none))
  have h10 := Steps.thread h9 false (.read .base)
  have h11 := Steps.thread h10 false (.read hload)
  exact ⟨_, ⟨_, h11⟩, rfl, rfl⟩

/-- The read returns the payloads of both rows, one from the file and one from the log. -/
theorem splice_read : ∃ d : System Bool,
    d.locals false = .read (.returned [.obj [], .obj [("a".toList, .int 1)]]) ∧
      (replay spliceStore "spans".toList 2 none).map (fun row ↦ Json.loads row.payload) =
        [some (.obj []), some (.obj [("a".toList, .int 1)])] := by
  let F : Fernet := ⟨fun _ _ p ↦ p, fun _ t ↦ some t⟩
  obtain ⟨c, hc, hst, hread⟩ := splice_reachable F
  have htail : ReadStep spliceStore
      (.loaded "spans".toList 2 none 1 [firstRow.column.toStreamRow]) spliceStore
      (.returned [.obj [], .obj [("a".toList, .int 1)]]) := .tail rfl
  have hstep : StepOf (SystemStep F) false c
      (c.set false spliceStore (.read (.returned [.obj [], .obj [("a".toList, .int 1)]]))) :=
    ⟨_, _, by rw [hst, hread]; exact .read htail, rfl⟩
  have hsingle : ∀ row ∈ c.shared.commits, row.streamId = "spans".toList := by
    rw [hst]
    intro row hrow
    simp only [spliceStore, List.mem_cons, List.not_mem_nil, or_false] at hrow
    rcases hrow with rfl | rfl <;> rfl
  obtain ⟨payloads, hreturned, hreplay⟩ := (read_refines_replay hc hsingle false).2 2 none 1 _ hread
    _ hstep (by simp)
  rw [Config.set_locals_self, Call.read.injEq, ReadCall.returned.injEq] at hreturned
  rw [hst, ← hreturned] at hreplay
  exact ⟨c.set false spliceStore _, Config.set_locals_self .., hreplay⟩

end WiseTraceLoom
