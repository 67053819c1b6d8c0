import WiseTraceLoom.Storage.TimeTravel
import WiseTraceLoom.Tenancy

/-!
# What a viewer's query depends on

The streams of all namespaces of all tenants share one store.  A row never leaves its stream, and a
query reads one stream, so what others do could only reach a viewer through the checkpoint files:
the directory of a stream does not determine the stream (`Checkpoint`), and a compaction of another
stream can write over a file of this one.

`viewer_noninterference` says that this is the only way.  Two runs that do the same on a stream, and
in which no compaction of another stream writes over a file that a query of this stream depends on
(`Vital`), show a viewer the same, namely the payloads of the rows that were appended to it.
`viewer_interference` is a pair of runs in which such a file is written over.

Runs come with their histories, and "doing the same on a stream" is having the same history of it.
-/

set_option autoImplicit false

namespace WiseTraceLoom

open Interleaving NumberedLog

variable {ι : Type} [DecidableEq ι] {F : Fernet} {st st' : Store}

/-! ## Histories -/

/-- The stream an append works on. -/
def AppendCall.streamId : AppendCall → Option Str
  | .called a => some a.streamId
  | .ready t _ | .versioned t _ _ | .linked t _ _ _ | .stamped t _ _ _ _ => some t.streamId
  | .committed row | .returned row => some row.streamId
  | .raised _ => none

/-- The stream a compaction works on. -/
def CompactCall.streamId : CompactCall → Option Str
  | .called s | .read s _ _ | .planned s _ _ | .written s _ _ _ => some s
  | .committed ck => some ck.streamId
  | .returned _ | .raised => none

/-- The stream that an append or a compaction of a thread works on. -/
def Call.streamId : Call → Option Str
  | .compact c => c.streamId
  | c => c.appending.bind AppendCall.streamId

/-- The row a thread has just committed. -/
def Call.committed (c : Call) : Option StorageCommit :=
  match c.appending with
  | some (.committed row) => some row
  | _ => none

/-- What a run does on a stream. -/
def historyOn (s : Str) (history : List Call) : List Call :=
  history.filter fun c ↦ c.streamId = some s

/-- The rows that a run commits to a stream. -/
def committedOn (s : Str) (history : List Call) : List StorageCommit :=
  (history.filterMap Call.committed).filter fun row ↦ row.streamId = s

/-- Runs with their histories. -/
abbrev History (F : Fernet) : System ι → List Call → System ι → Prop :=
  Trace fun c i st' t' ↦ SystemStep F c.shared (c.locals i) st' t'

theorem Call.streamId_of_committed {c : Call} {row : StorageCommit} (h : c.committed = some row) :
    c.streamId = some row.streamId := by
  rw [Call.committed] at h
  split at h
  · rename_i row' happending
    obtain rfl := Option.some.inj h
    cases c <;> simp_all [Call.streamId, Call.appending, AppendCall.streamId]
  · simp at h

/-- Its history of a stream says which rows a run commits to it. -/
theorem committedOn_historyOn (s : Str) (history : List Call) :
    committedOn s (historyOn s history) = committedOn s history := by
  induction history with
  | nil => rfl
  | cons c history ih =>
    rw [committedOn, committedOn, historyOn] at *
    by_cases hs : c.streamId = some s
    · rw [List.filter_cons_of_pos (by simpa using hs), List.filterMap_cons, List.filterMap_cons]
      cases hc : c.committed with
      | none => exact ih
      | some row => simp only [List.filter_cons, ih]
    · rw [List.filter_cons_of_neg (by simpa using hs), ih, List.filterMap_cons]
      cases hc : c.committed with
      | none => rfl
      | some row =>
        have hrow : row.streamId ≠ s := fun h ↦ hs (h ▸ Call.streamId_of_committed hc)
        simp only
        rw [List.filter_cons_of_neg (by simpa using hrow)]

/-! ## The log -/

theorem AppendStep.commits_eq {c c' : AppendCall} (h : AppendStep st c st' c') :
    st'.commits = st.commits ++ (Call.append c').committed.toList := by
  cases h with
  | commit hins => rw [(Store.insertCommit_eq_some hins).2]; rfl
  | _ => exact (List.append_nil _).symm

/-- **A step commits the row its thread then holds as committed, and no other.** -/
theorem SystemStep.commits_eq {c c' : Call} (h : SystemStep F st c st' c') :
    st'.commits = st.commits ++ c'.committed.toList := by
  cases h with
  | start h => cases h <;> exact (List.append_nil _).symm
  | stop => exact (List.append_nil _).symm
  | append h => exact h.commits_eq
  | compact h => rw [h.store_eq]; exact (List.append_nil _).symm
  | anchor h =>
    cases h
    case sinkStep h => exact h.commits_eq
    case sinkGoOn => exact (List.append_nil _).symm
    all_goals exact (List.append_nil _).symm
  | read h => rw [h.store_eq]; exact (List.append_nil _).symm
  | encrypt h => rw [h.store_eq]; exact (List.append_nil _).symm
  | request h => rw [h.store_eq]; exact (List.append_nil _).symm
  | confirm h =>
    cases h
    case appendStep h => exact h.commits_eq
    all_goals exact (List.append_nil _).symm
  | config h => rw [h.store_eq]; exact (List.append_nil _).symm

/-- **The rows of a stream are those that were committed to it.** -/
theorem History.stream {database : Str} {history : List Call} {c : System ι}
    (h : History F (System.init ι database) history c) (s : Str) :
    c.shared.stream s = committedOn s history := by
  induction h with
  | nil => rfl
  | @snoc history d i st' t' _ hstep ih =>
    have hcommits := hstep.commits_eq
    rw [committedOn, List.filterMap_append, List.filter_append, ← committedOn, ← ih,
      Config.set_shared, Store.stream, hcommits, List.filter_append, ← Store.stream,
      List.filterMap_cons, List.filterMap_nil]
    cases t'.committed <;> rfl

/-! ## Compactions -/

/-- A checkpoint covers versions of its stream, and its file is called after the last of them. -/
def Store.CheckpointsOk (st : Store) : Prop :=
  ∀ ck ∈ st.checkpoints, ck.version ≤ (st.stream ck.streamId).length ∧
    ck.filePath.resolve.name = checkpointFileName ck.version

/-- What a compaction knows: the rows it has read are the first ones of its stream. -/
def Call.CompactOk (st : Store) : Call → Prop
  | .compact (.read s v rows) => v ≤ (st.stream s).length ∧
      rows.map StorageCommit.toStreamRow = snapshot (st.stream s) v
  | .compact (.planned s v rows) => v ≤ (st.stream s).length ∧
      rows.map StorageCommit.toStreamRow = snapshot (st.stream s) v
  | .compact (.written s v _ path) => v ≤ (st.stream s).length ∧
      path.resolve.name = checkpointFileName v
  | _ => True

theorem Call.CompactOk.mono {c : Call} (hc : c.CompactOk st) (h : st.Grows st') :
    c.CompactOk st' := by
  match c, hc with
  | .compact (.read s v rows), hc =>
    exact ⟨h.le_length hc.1, hc.2.trans (h.snapshot_eq hc.1).symm⟩
  | .compact (.planned s v rows), hc =>
    exact ⟨h.le_length hc.1, hc.2.trans (h.snapshot_eq hc.1).symm⟩
  | .compact (.written s v rows path), hc => exact ⟨h.le_length hc.1, hc.2⟩
  | .idle, _ | .append _, _ | .anchor _, _ | .read _, _ | .encrypt _, _ | .request _, _ => trivial
  | .confirm _, _ | .config _, _ => trivial
  | .compact (.called _), _ | .compact (.committed _), _ | .compact (.returned _), _
  | .compact .raised, _ => trivial

/-- **One step of a compaction.** -/
theorem CompactStep.compactOk {c c' : CompactCall} (h : CompactStep st c st' c') (hlog : st.LogOk)
    (hst : st.CheckpointsOk) (hc : (Call.compact c).CompactOk st) :
    st'.CheckpointsOk ∧ (Call.compact c').CompactOk st' := by
  cases h with
  | read hlast => exact ⟨hst, ((hlog _).selectStream_snapshot hlast).2⟩
  | plan => exact ⟨hst, hc⟩
  | write config => exact ⟨hst, hc.1, name_checkpointFilePath ..⟩
  | insert now hins =>
    obtain ⟨-, rfl⟩ := Store.insertCheckpoint_eq_some hins
    refine ⟨fun ck hck ↦ ?_, trivial⟩
    rcases List.mem_append.mp hck with hck | hck
    · exact hst ck hck
    · rw [List.mem_singleton.mp hck]
      exact hc
  | _ => exact ⟨hst, trivial⟩

/-- **The premises of the rely–guarantee rule.** -/
theorem compact_relyGuarantee (F : Fernet) :
    RelyGuarantee (ι := ι) (SystemStep F) (fun c ↦ c.shared.LogOk) Store.Grows
      Store.CheckpointsOk fun st c ↦ c.CompactOk st where
  step := by
    intro c i st' t' hlog _ hst hc hstep
    have hgrows := hstep.grows
    refine ⟨hgrows, ?_⟩
    generalize c.shared = st at *
    generalize c.locals i = t at *
    rcases hstep.files_eq with ⟨-, hckpts⟩ | ⟨a, a', rfl, rfl, h⟩
    · refine ⟨fun ck hck ↦ ?_, ?_⟩
      · rw [hckpts] at hck
        exact ⟨hgrows.le_length (hst ck hck).1, (hst ck hck).2⟩
      · cases hstep with
        | compact h => exact (h.compactOk hlog hst hc).2
        | start h => cases h <;> trivial
        | _ => trivial
    · exact h.compactOk hlog hst hc
  stable := fun _ _ _ hgrows hc ↦ hc.mono hgrows

theorem Reachable.compactOk {c : System ι} (h : Reachable F c) :
    c.shared.CheckpointsOk ∧ ∀ i, (c.locals i).CompactOk c.shared := by
  obtain ⟨database, hrun⟩ := h
  exact (compact_relyGuarantee F).steps hrun
    (fun d hd ↦ (Reachable.auditOk ⟨database, hd⟩).1.log)
    (by simp [System.init, Store.create, Store.CheckpointsOk]) fun _ ↦ trivial

/-! ## The files a query depends on -/

/-- The newest checkpoint of a stream. -/
structure Store.Newest (st : Store) (s : Str) (ck : StorageCheckpoint) : Prop where
  /-- It is there. -/
  mem : ck ∈ st.checkpoints
  /-- It is one of the stream. -/
  streamId : ck.streamId = s
  /-- There is none of a later version. -/
  le : ∀ ck' ∈ st.checkpoints, ck'.streamId = s → ck'.version ≤ ck.version

/-- A version of a stream that would be the newest checkpoint. -/
def Store.Fresh (st : Store) (s : Str) (v : ℤ) : Prop :=
  ∀ ck ∈ st.checkpoints, ck.streamId = s → ck.version < v

/-- The files that a query of a stream depends on: that of its newest checkpoint, and those that a
compaction of the stream has written and is about to make its newest checkpoint. -/
def Vital (c : System ι) (s : Str) (path : PurePath) : Prop :=
  (∃ ck, c.shared.Newest s ck ∧ ck.filePath.resolve = path.resolve) ∨
    ∃ i v rows p, c.locals i = .compact (.written s v rows p) ∧ c.shared.Fresh s v ∧
      p.resolve = path.resolve

/-- A step to `t'` that writes over no file that a query of the stream depends on, unless it is a
step of a compaction of this very stream. -/
def Spares (c : System ι) (s : Str) (t' : Call) : Prop :=
  ∀ s' v rows path, t' = .compact (.written s' v rows path) → s' ≠ s → ¬ Vital c s path

/-- Runs, with their histories, in which no step of another stream writes over such a file. -/
abbrev SparingHistory (F : Fernet) (s : Str) : System ι → List Call → System ι → Prop :=
  Trace fun c i st' t' ↦ SystemStep F c.shared (c.locals i) st' t' ∧ Spares c s t'

/-- These files hold what they should. -/
structure ViewOk (c : System ι) (s : Str) : Prop where
  /-- The file of the newest checkpoint. -/
  newest : ∀ ck, c.shared.Newest s ck →
    c.shared.readFile ck.filePath = some (snapshot (c.shared.stream s) ck.version)
  /-- A file that is about to be that of the newest checkpoint. -/
  written : ∀ i v rows path, c.locals i = .compact (.written s v rows path) →
    c.shared.Fresh s v → c.shared.readFile path = some (snapshot (c.shared.stream s) v)

theorem Store.Newest.of_eq {s : Str} {ck : StorageCheckpoint} (h : st'.Newest s ck)
    (hckpts : st'.checkpoints = st.checkpoints) : st.Newest s ck :=
  ⟨hckpts ▸ h.mem, h.streamId, hckpts ▸ h.le⟩

theorem Store.CheckpointsOk.snapshot_eq (h : st.CheckpointsOk) (hgrows : st.Grows st') {s : Str}
    {ck : StorageCheckpoint} (hck : st.Newest s ck) :
    snapshot (st'.stream s) ck.version = snapshot (st.stream s) ck.version := by
  have hle := (h ck hck.mem).1
  rw [hck.streamId] at hle
  exact hgrows.snapshot_eq hle

/-- A step that does not touch files and checkpoints. -/
theorem ViewOk.frame {c : System ι} {s : Str} (h : ViewOk c s) (hckpts : c.shared.CheckpointsOk)
    (hlocals : ∀ j, (c.locals j).CompactOk c.shared) {i : ι} {t' : Call}
    (hgrows : c.shared.Grows st') (hfiles : st'.files = c.shared.files)
    (hsame : st'.checkpoints = c.shared.checkpoints)
    (ht' : ∀ v rows path, t' ≠ .compact (.written s v rows path)) : ViewOk (c.set i st' t') s where
  newest := by
    intro ck hck
    have hold := hck.of_eq hsame
    rw [Config.set_shared, hckpts.snapshot_eq hgrows hold, Store.readFile, hfiles]
    exact h.newest ck hold
  written := by
    intro j v rows path hj hfresh
    by_cases hji : j = i
    · subst hji
      rw [Config.set_locals_self] at hj
      exact absurd hj (ht' v rows path)
    · rw [Config.set_locals_ne c st' t' hji] at hj
      have hcall := hlocals j
      rw [hj] at hcall
      rw [Config.set_shared, hgrows.snapshot_eq hcall.1, Store.readFile, hfiles]
      exact h.written j v rows path hj (by rwa [Store.Fresh, ← hsame])

/-- **A compaction writes its file.**  If it is one of the stream, the file holds what any file
called after its version has to hold; if it is not, the file is none that matters. -/
theorem ViewOk.write {c : System ι} {s : Str} (h : ViewOk c s) (hckpts : c.shared.CheckpointsOk)
    (hlocals : ∀ j, (c.locals j).CompactOk c.shared) {i : ι} {s' : Str} {v : ℤ}
    {rows : List StorageCommit} {path : PurePath}
    (hrows : rows.map StorageCommit.toStreamRow = snapshot (c.shared.stream s') v)
    (hname : path.resolve.name = checkpointFileName v)
    (hspares : s' ≠ s → ¬ Vital c s path) :
    ViewOk (c.set i (c.shared.writeFile path (rows.map StorageCommit.toStreamRow))
      (.compact (.written s' v rows path))) s := by
  have hread (p : PurePath) (v' : ℤ) (hp : p.resolve.name = checkpointFileName v')
      (hvital : s' ≠ s → p.resolve ≠ path.resolve)
      (hold : c.shared.readFile p = some (snapshot (c.shared.stream s) v')) :
      (c.shared.writeFile path (rows.map StorageCommit.toStreamRow)).readFile p =
        some (snapshot (c.shared.stream s) v') := by
    rw [hrows]
    refine Store.readFile_writeFile hname hp (fun hsame ↦ ?_) hold
    rw [show s' = s from by_contra fun hs ↦ hvital hs hsame]
  constructor
  · intro ck hck
    have hold : c.shared.Newest s ck := hck.of_eq rfl
    exact hread ck.filePath ck.version (hckpts ck hold.mem).2
      (fun hs hsame ↦ hspares hs (Or.inl ⟨ck, hold, hsame⟩)) (h.newest ck hold)
  · intro j v' rows' path' hj hfresh
    by_cases hji : j = i
    · subst hji
      rw [Config.set_locals_self, Call.compact.injEq, CompactCall.written.injEq] at hj
      obtain ⟨rfl, rfl, rfl, rfl⟩ := hj
      rw [Config.set_shared, Store.readFile, Store.writeFile_files, if_pos rfl]
      exact congrArg some hrows
    · rw [Config.set_locals_ne c _ _ hji] at hj
      have hcall := hlocals j
      rw [hj] at hcall
      exact hread path' v' hcall.2
        (fun hs hsame ↦ hspares hs (Or.inr ⟨j, v', rows', path', hj, hfresh, hsame⟩))
        (h.written j v' rows' path' hj hfresh)

/-- **A compaction inserts its row.**  If the row is the newest checkpoint of the stream, its file
was already looked after. -/
theorem ViewOk.insert {c : System ι} {s : Str} (h : ViewOk c s) {i : ι} {s' : Str} {v : ℤ}
    {rows : List StorageCommit} {path : PurePath} {now : Timestamp}
    (hi : c.locals i = .compact (.written s' v rows path))
    (hins : c.shared.insertCheckpoint (newCheckpoint s' v path rows now) = some st') :
    ViewOk (c.set i st' (.compact (.committed (newCheckpoint s' v path rows now)))) s := by
  obtain ⟨hnew, rfl⟩ := Store.insertCheckpoint_eq_some hins
  have hfree : ∀ ck ∈ c.shared.checkpoints, ck.streamId = s' → ck.version ≠ v := fun ck hck hs hv ↦
    absurd (List.find?_eq_none.mp hnew ck hck) (by simp [hs, hv, newCheckpoint])
  constructor
  · intro ck hck
    rcases List.mem_append.mp hck.mem with hmem | hmem
    · exact h.newest ck
        ⟨hmem, hck.streamId, fun ck' hck' ↦ hck.le ck' (List.mem_append_left _ hck')⟩
    · obtain rfl := List.mem_singleton.mp hmem
      have hs : s' = s := hck.streamId
      subst hs
      refine h.written i v rows path hi fun ck' hck' hs' ↦ ?_
      have hle := hck.le ck' (List.mem_append_left _ hck') hs'
      exact lt_of_le_of_ne hle (hfree ck' hck' hs')
  · intro j v' rows' path' hj hfresh
    by_cases hji : j = i
    · subst hji
      rw [Config.set_locals_self] at hj
      simp at hj
    · rw [Config.set_locals_ne c _ _ hji] at hj
      exact h.written j v' rows' path' hj fun ck hck ↦ hfresh ck (List.mem_append_left _ hck)

/-- **One step of a sparing run.** -/
theorem ViewOk.step {c : System ι} {s : Str} (h : ViewOk c s) (hckpts : c.shared.CheckpointsOk)
    (hlocals : ∀ j, (c.locals j).CompactOk c.shared) {i : ι} {t' : Call}
    (hstep : SystemStep F c.shared (c.locals i) st' t') (hspares : Spares c s t') :
    ViewOk (c.set i st' t') s := by
  have hgrows := hstep.grows
  by_cases hcompaction : ∃ a a', c.locals i = .compact a ∧ t' = .compact a' ∧
      CompactStep c.shared a st' a'
  · obtain ⟨a, a', ha, rfl, hcompact⟩ := hcompaction
    have hcall := hlocals i
    rw [ha] at hcall
    cases hcompact with
    | write config =>
      exact h.write hckpts hlocals hcall.2 (name_checkpointFilePath ..)
        fun hs ↦ hspares _ _ _ _ rfl hs
    | insert now hins => exact h.insert ha hins
    | _ => exact h.frame hckpts hlocals hgrows rfl rfl (by simp)
  · obtain ⟨hfiles, hsame⟩ := hstep.files_eq.resolve_right hcompaction
    refine h.frame hckpts hlocals hgrows hfiles hsame fun v rows path ht' ↦ hcompaction ?_
    -- only a step of a compaction leaves a written file behind
    subst ht'
    generalize c.locals i = t at hstep
    cases hstep with
    | start h => cases h
    | compact h => exact ⟨_, _, rfl, rfl, h⟩

theorem SparingHistory.history {s : Str} {c d : System ι} {history : List Call}
    (h : SparingHistory F s c history d) : History F c history d := Trace.mono And.left h

theorem History.reachable {database : Str} {history : List Call} {c : System ι}
    (h : History F (System.init ι database) history c) : Reachable F c :=
  ⟨database, h.steps id⟩

/-- **In a sparing run the files hold what they should.** -/
theorem SparingHistory.viewOk {database s : Str} {history : List Call} {c : System ι}
    (h : SparingHistory F s (System.init ι database) history c) : ViewOk c s := by
  induction h with
  | nil =>
    exact ⟨fun ck hck ↦ absurd hck.mem List.not_mem_nil, fun i v rows path hi ↦ by cases hi⟩
  | snoc h ht ih =>
    obtain ⟨hckpts, hlocals⟩ := (SparingHistory.history h).reachable.compactOk
    exact ih.step hckpts hlocals ht.1 ht.2

/-! ## Queries -/

/-- A query of the latest version starts from the newest checkpoint. -/
theorem Store.newest_of_bestCheckpoint (hckpts : st.CheckpointsOk) {s : Str}
    {ck : StorageCheckpoint} (h : st.bestCheckpoint s (st.stream s).length = some ck) :
    st.Newest s ck := by
  obtain ⟨hmem, hs, -⟩ := Store.bestCheckpoint_mem h
  refine ⟨hmem, hs, fun ck' hck' hs' ↦ ?_⟩
  have hle := (hckpts ck' hck').1
  rw [hs'] at hle
  obtain ⟨rest, hrest⟩ := List.head?_eq_some_iff.mp h
  have hsorted := List.pairwise_insertionSort (fun a b : StorageCheckpoint ↦ b.version ≤ a.version)
    (st.checkpoints.filter fun ck ↦ ck.streamId = s ∧ ck.version ≤ (st.stream s).length)
  have hmem' : ck' ∈ ck :: rest := by
    rw [← hrest, List.mem_insertionSort, List.mem_filter]
    exact ⟨hck', by simp [hs', hle]⟩
  rw [hrest, List.pairwise_cons] at hsorted
  rcases List.mem_cons.mp hmem' with rfl | hmem'
  · exact le_rfl
  · exact hsorted.1 ck' hmem'

/-- The largest version of a stream is its length. -/
theorem StreamOk.maxVersion {s : Str} (h : StreamOk (st.stream s)) (hne : st.stream s ≠ []) :
    st.maxVersion s = some ((st.stream s).length : ℤ) := by
  have hmax := h.numbered.max?_getD
  rw [Store.maxVersion]
  cases hv : ((st.stream s).map StorageCommit.version).max? with
  | none => exact absurd (by simpa using List.max?_eq_none_iff.mp hv) hne
  | some v => rw [← hmax, hv, Option.getD_some]

/-- **What a query returns**, as long as the files it depends on hold what they should. -/
theorem readLatest_eq {s : Str} (hlog : StreamOk (st.stream s)) (hckpts : st.CheckpointsOk)
    (hfiles : ∀ ck, st.Newest s ck →
      st.readFile ck.filePath = some (snapshot (st.stream s) ck.version)) (t : Str) :
    ∃ payloads, readLatest st s (some t) = some payloads ∧
      ((st.stream s).filter fun row ↦ row.tenantId = some t).map
        (fun row ↦ Json.loads row.payload) = payloads.map some := by
  by_cases hne : st.stream s = []
  · refine ⟨[], ?_, by rw [hne]; rfl⟩
    rw [readLatest, Store.maxVersion, hne]
    rfl
  · rw [readLatest, hlog.maxVersion hne]
    have hreplay : replay st s (st.stream s).length (some t) =
        (st.stream s).filter fun row ↦ row.tenantId = some t := by
      rw [replay, hlog.selectStream, hlog.numbered.filter_le, Int.toNat_natCast, List.take_length]
      rfl
    simp only [readAsOfVersion, loadStreamState]
    cases hbest : st.bestCheckpoint s (st.stream s).length with
    | none =>
      obtain ⟨payloads, hpay, hmap⟩ :=
        hlog.loadPayloads_assemble (v := (st.stream s).length) (Or.inr rfl) (some t)
      exact ⟨payloads, hpay, by rwa [hreplay] at hmap⟩
    | some ck =>
      have hnewest := Store.newest_of_bestCheckpoint hckpts hbest
      obtain ⟨payloads, hpay, hmap⟩ :=
        hlog.loadPayloads_assemble (Or.inl (Store.bestCheckpoint_mem hbest).2.2) (some t)
      refine ⟨payloads, ?_, by rwa [hreplay] at hmap⟩
      simp only [loadCheckpointRows, hfiles ck hnewest, Option.map_some, Option.bind_some]
      exact hpay

/-! ## The opening of a stream

A thread on its own appends the first event to a stream and compacts the stream. -/

/-- The steps of the first append to a stream. -/
def firstAppend (a : AppendArgs) (t : AppendTask) : List Call :=
  [.append (.called a),
    .append (.ready t 0),
    .append (.versioned t 0 1),
    .append (.linked t 0 1 none),
    .append (.stamped t 0 1 none noon),
    .append (.committed (t.commit 1 none noon).column),
    .append (.returned (t.commit 1 none noon).column),
    .idle]

theorem firstAppend_trace {a : AppendArgs} {t : AppendTask} {callback : MaskingCallback}
    (ht : a.prepare callback = .ok t) (hmax : 0 < t.maxRetries) (hnew : st.stream t.streamId = []) :
    SoloTrace (SystemStep F) (st, .idle) (firstAppend a t)
      ({ st with commits := st.commits ++ [(t.commit 1 none noon).column] }, .idle) := by
  have hfree : st.insertCommit (t.commit 1 none noon) =
      some { st with commits := st.commits ++ [(t.commit 1 none noon).column] } := by
    rw [Store.insertCommit, if_neg]
    rw [List.any_eq_true]
    rintro ⟨row, hrow, hsame⟩
    refine List.eq_nil_iff_forall_not_mem.mp hnew row (List.mem_filter.mpr ⟨hrow, ?_⟩)
    exact decide_eq_true (of_decide_eq_true hsame).1
  have hread : AppendStep st (.ready t 0) st (.versioned t 0 1) := by
    have hversion : nextVersion st t.streamId = 1 := by
      rw [nextVersion, hnew]
      rfl
    rw [← hversion]
    exact .readVersion hmax
  have h0 : SoloTrace (SystemStep F) (st, .idle) [] (st, .idle) := .nil
  have h1 := h0.snoc (.start (.append a))
  have h2 := h1.snoc (.append (.mask callback ht))
  have h3 := h2.snoc (.append hread)
  have h4 := h3.snoc (.append (.readPrev rfl))
  have h5 := h4.snoc (.append (.stamp noon))
  have h6 := h5.snoc (.append (.commit hfree))
  have h7 := h6.snoc (.append .finish)
  exact h7.snoc .stop

section Opening

variable (s : Str) (event : Payload)

/-- The append of the first event. -/
def openingArgs : AppendArgs := ⟨s, "span".toList, event, some "acme".toList, 20⟩

/-- The same when masking lets it through as it is. -/
def openingTask : AppendTask := ⟨s, "span".toList, some "acme".toList, 20, event⟩

/-- Its row. -/
def openingRow : StorageCommit := ((openingTask s event).commit 1 none noon).column

/-- The file of its checkpoint. -/
def openingPath : PurePath := checkpointFilePath s 1 "checkpoints".toList "store.db".toList

/-- Its checkpoint. -/
def openingCheckpoint : StorageCheckpoint :=
  newCheckpoint s 1 (openingPath s) [openingRow s event] noon

/-- The steps of the append. -/
def openingAppend : List Call :=
  [.append (.called (openingArgs s event)),
    .append (.ready (openingTask s event) 0),
    .append (.versioned (openingTask s event) 0 1),
    .append (.linked (openingTask s event) 0 1 none),
    .append (.stamped (openingTask s event) 0 1 none noon),
    .append (.committed (openingRow s event)),
    .append (.returned (openingRow s event)),
    .idle]

/-- The steps of the compaction. -/
def openingCompaction : List Call :=
  [.compact (.called s),
    .compact (.read s 1 [openingRow s event]),
    .compact (.planned s 1 [openingRow s event]),
    .compact (.written s 1 [openingRow s event] (openingPath s)),
    .compact (.committed (openingCheckpoint s event)),
    .idle]

/-- The store after the append. -/
def Store.afterAppend (st : Store) : Store :=
  { st with commits := st.commits ++ [openingRow s event] }

/-- The store after the compaction. -/
def Store.afterCompaction (st : Store) : Store :=
  { st.writeFile (openingPath s) [(openingRow s event).toStreamRow] with
    checkpoints := st.checkpoints ++ [openingCheckpoint s event] }

variable {s}

theorem openingAppend_trace (hnew : st.stream s = []) :
    SoloTrace (SystemStep F) (st, .idle) (openingAppend s event)
      (st.afterAppend s event, .idle) := by
  have hmask : (openingArgs s event).prepare (fun p ↦ .ok (.dict p)) =
    .ok (openingTask s event) := rfl
  exact firstAppend_trace hmask (show 0 < 20 by decide) hnew

theorem openingCompaction_trace
    (hpath : checkpointFilePath s 1 "checkpoints".toList st.database = openingPath s)
    (hrows : st.stream s = [openingRow s event]) (hnew : st.findCheckpoint s 1 = none) :
    SoloTrace (SystemStep F) (st, .idle) (openingCompaction s event)
      (st.afterCompaction s event, .idle) := by
  have hselect : st.selectStream s = [openingRow s event] := by
    rw [Store.selectStream, hrows]
    rfl
  have hread : CompactStep st (.called s) st (.read s 1 [openingRow s event]) := by
    have hlast : (st.selectStream s).getLast? = some (openingRow s event) := by
      rw [hselect]
      rfl
    rw [← hselect]
    exact .read hlast
  have hwrite : CompactStep st (.planned s 1 [openingRow s event])
      (st.writeFile (openingPath s) [(openingRow s event).toStreamRow])
      (.written s 1 [openingRow s event] (openingPath s)) := by
    rw [← hpath]
    exact .write { StorageConfig.default with checkpointDir := some "checkpoints".toList }
  have hfree : (st.writeFile (openingPath s) [(openingRow s event).toStreamRow]).insertCheckpoint
      (openingCheckpoint s event) = some (st.afterCompaction s event) := by
    have hnone : (st.writeFile (openingPath s) [(openingRow s event).toStreamRow]).findCheckpoint
        (openingCheckpoint s event).streamId (openingCheckpoint s event).version = none := hnew
    rw [Store.insertCheckpoint, hnone]
    rfl
  have h0 : SoloTrace (SystemStep F) (st, .idle) [] (st, .idle) := .nil
  have h1 := h0.snoc (.start (.compact s))
  have h2 := h1.snoc (.compact hread)
  have h3 := h2.snoc (.compact (.plan hnew))
  have h4 := h3.snoc (.compact hwrite)
  have h5 := h4.snoc (.compact (.insert noon hfree))
  exact h5.snoc .stop

end Opening

/-- **Noninterference of viewers.**  In runs that spare the files of a stream, what happens on the
stream determines what a viewer of it is shown.  A viewer with access is shown the payloads of all
rows that were appended to the stream for the tenant, and of no others. -/
theorem viewer_noninterference {base t s : Str} {ns : Option Str}
    (hs : isolatedStreamId base t (some (ns.getD defaultNamespace)) = .ok s) {database : Str}
    {history₁ history₂ : List Call} {c₁ c₂ : System ι}
    (hrun₁ : SparingHistory F s (System.init ι database) history₁ c₁)
    (hrun₂ : SparingHistory F s (System.init ι database) history₂ c₂)
    (hsame : historyOn s history₁ = historyOn s history₂) (memberships : List Membership)
    (p : Str) :
    queryLatest memberships c₁.shared p t ns base = queryLatest memberships c₂.shared p t ns base ∧
      (assertViewerAccess memberships p t (some (ns.getD defaultNamespace)) = .ok () →
        ∃ payloads, queryLatest memberships c₁.shared p t ns base = .ok payloads ∧
          ((committedOn s history₁).filter fun row ↦ row.tenantId = some t).map
            (fun row ↦ Json.loads row.payload) = payloads.map some) := by
  have hquery {history : List Call} {c : System ι}
      (hrun : SparingHistory F s (System.init ι database) history c) :
      ∃ payloads, readLatest c.shared s (some t) = some payloads ∧
        ((committedOn s history).filter fun row ↦ row.tenantId = some t).map
          (fun row ↦ Json.loads row.payload) = payloads.map some := by
    have hhistory := hrun.history
    have hreach := hhistory.reachable
    rw [← hhistory.stream s]
    exact readLatest_eq (hreach.auditOk.1.log s) hreach.compactOk.1 hrun.viewOk.newest t
  obtain ⟨payloads₁, hread₁, hmap₁⟩ := hquery hrun₁
  obtain ⟨payloads₂, hread₂, hmap₂⟩ := hquery hrun₂
  have hpayloads : payloads₁ = payloads₂ := by
    rw [← committedOn_historyOn, hsame, committedOn_historyOn, hmap₂] at hmap₁
    exact (List.map_injective_iff.mpr (Option.some_injective _) hmap₁).symm
  constructor
  · simp only [queryLatest, hs, hread₁, hread₂, hpayloads]
  · intro haccess
    exact ⟨payloads₁, by simp only [queryLatest, haccess, hs, hread₁], hmap₁⟩

/-! ### Two namespaces with one directory -/

/-- The stream of the namespace `a.b`. -/
def dottedStream : Str := "spans:acme:a.b".toList

/-- The stream of the namespace `a_b`. -/
def linedStream : Str := "spans:acme:a_b".toList

/-- The event in the one namespace. -/
def dottedEvent : Payload := [("text".toList, .str "mine".toList)]

/-- The event in the other. -/
def linedEvent : Payload := [("text".toList, .str "theirs".toList)]

/-- Ann may view the one namespace. -/
def annViewer : List Membership :=
  [⟨1, "ann".toList, "acme".toList, "a.b".toList, "viewer".toList, utcnow noon⟩]

/-- The store in which the one stream has been appended to and compacted. -/
def dottedStore : Store :=
  ((Store.create "store.db".toList).afterAppend dottedStream dottedEvent).afterCompaction
    dottedStream dottedEvent

/-- The store in which the other stream has been appended to as well. -/
def linedStore : Store := dottedStore.afterAppend linedStream linedEvent

/-- What is done on the one stream. -/
def dottedHistory : List Call :=
  openingAppend dottedStream dottedEvent ++ openingCompaction dottedStream dottedEvent

/-- What one thread does on the one stream spares the stream. -/
theorem dotted_run (F : Fernet) : ∃ c : System Bool,
    SparingHistory F dottedStream (System.init Bool "store.db".toList) dottedHistory c ∧
      c.shared = dottedStore ∧ c.locals = fun _ ↦ .idle := by
  have hspares (l : List Call) (hl : ∀ s v rows path, .compact (.written s v rows path) ∈ l →
      s = dottedStream) (e : System Bool) (st' : Store) (t' : Call) (ht' : t' ∈ l)
      (hstep : SystemStep F e.shared (e.locals true) st' t') :
      SystemStep F e.shared (e.locals true) st' t' ∧ Spares e dottedStream t' :=
    ⟨hstep, fun s v rows path hwritten hs ↦ absurd (hl s v rows path (hwritten ▸ ht')) hs⟩
  have hstart : SparingHistory F dottedStream (System.init Bool "store.db".toList) []
      (System.init Bool "store.db".toList) := .nil
  obtain ⟨c, hc, hst, hidle⟩ := hstart.solo true (openingAppend_trace dottedEvent rfl)
    (hspares (openingAppend dottedStream dottedEvent) (by simp [openingAppend]))
  rw [show (System.init Bool "store.db".toList).locals = fun _ ↦ Call.idle from rfl,
    Function.update_eq_self_iff.mpr rfl] at hidle
  have hcompaction : SoloTrace (SystemStep F) (c.shared, c.locals true)
      (openingCompaction dottedStream dottedEvent) (dottedStore, .idle) := by
    rw [hst, hidle]
    exact openingCompaction_trace dottedEvent rfl rfl rfl
  obtain ⟨d, hd, hst', hidle'⟩ := hc.solo true hcompaction
    (hspares (openingCompaction dottedStream dottedEvent) (by simp +contextual [openingCompaction]))
  refine ⟨d, hd, hst', ?_⟩
  rw [hidle', hidle, Function.update_eq_self_iff.mpr rfl]

/-- A thread appends to the other stream, which spares the first one. -/
theorem lined_run (F : Fernet) : ∃ c : System Bool,
    SparingHistory F dottedStream (System.init Bool "store.db".toList)
      (dottedHistory ++ openingAppend linedStream linedEvent) c ∧
      c.shared = linedStore ∧ c.locals = fun _ ↦ .idle := by
  obtain ⟨c, hc, hst, hidle⟩ := dotted_run F
  have happend : SoloTrace (SystemStep F) (c.shared, c.locals false)
      (openingAppend linedStream linedEvent) (linedStore, .idle) := by
    rw [hst, hidle]
    exact openingAppend_trace linedEvent rfl
  obtain ⟨d, hd, hst', hidle'⟩ := hc.solo false happend fun e st' t' ht' hstep ↦
    ⟨hstep, fun s v rows path hwritten ↦ by subst hwritten; simp [openingAppend] at ht'⟩
  refine ⟨d, hd, hst', ?_⟩
  rw [hidle', hidle, Function.update_eq_self_iff.mpr rfl]

/-- The other stream is compacted, and its file is that of the first one. -/
theorem lined_compacted (F : Fernet) : ∃ c : System Bool,
    History F (System.init Bool "store.db".toList) (dottedHistory ++
      openingAppend linedStream linedEvent ++ openingCompaction linedStream linedEvent) c ∧
      c.shared = linedStore.afterCompaction linedStream linedEvent := by
  obtain ⟨c, hc, hst, hidle⟩ := lined_run F
  have hcompaction : SoloTrace (SystemStep F) (c.shared, c.locals false)
      (openingCompaction linedStream linedEvent)
      (linedStore.afterCompaction linedStream linedEvent, .idle) := by
    rw [hst, hidle]
    exact openingCompaction_trace linedEvent rfl rfl rfl
  obtain ⟨d, hd, hst', -⟩ := hc.history.solo false hcompaction fun _ _ _ _ hstep ↦ hstep
  exact ⟨d, hd, hst'⟩

/-- With a row in the other namespace, and without: Ann is shown the same. -/
theorem viewer_noninterference_ann :
    isolatedStreamId "spans".toList "acme".toList (some "a.b".toList) = .ok dottedStream ∧
    ∃ c₁ c₂ : System Bool, c₁.shared = dottedStore ∧ c₂.shared = linedStore ∧
      queryLatest annViewer c₁.shared "ann".toList "acme".toList (some "a.b".toList)
          "spans".toList =
        queryLatest annViewer c₂.shared "ann".toList "acme".toList (some "a.b".toList)
          "spans".toList ∧
      ∃ payloads, queryLatest annViewer c₁.shared "ann".toList "acme".toList (some "a.b".toList)
        "spans".toList = .ok payloads ∧ payloads.length = 1 := by
  let F : Fernet := ⟨fun _ _ p ↦ p, fun _ t ↦ some t⟩
  have hs : isolatedStreamId "spans".toList "acme".toList
      (some ((some "a.b".toList).getD defaultNamespace)) = .ok dottedStream := rfl
  obtain ⟨c₁, hc₁, hst₁, -⟩ := dotted_run F
  obtain ⟨c₂, hc₂, hst₂, -⟩ := lined_run F
  obtain ⟨hsame, hown⟩ := viewer_noninterference hs hc₁ hc₂ rfl annViewer "ann".toList
  obtain ⟨payloads, hquery, hpayloads⟩ := hown rfl
  refine ⟨hs, c₁, c₂, hst₁, hst₂, hsame, payloads, hquery, ?_⟩
  rw [← List.length_map (f := some), ← hpayloads]
  rfl

/-- **The other way round**: a compaction in the namespace `a_b` replaces the file of the checkpoint
of `a.b`, and what Ann is then shown was appended to `a_b`. -/
theorem viewer_interference : ∃ (c₁ c₂ : System Bool) (F : Fernet) (others : List Call),
    isolatedStreamId "spans".toList "acme".toList (some "a.b".toList) = .ok dottedStream ∧
    isolatedStreamId "spans".toList "acme".toList (some "a_b".toList) = .ok linedStream ∧
    History F (System.init Bool "store.db".toList) dottedHistory c₁ ∧
    History F (System.init Bool "store.db".toList) (dottedHistory ++ others) c₂ ∧
    (∀ call ∈ others, call.streamId = some linedStream ∨ call.streamId = none) ∧
    historyOn dottedStream dottedHistory = historyOn dottedStream (dottedHistory ++ others) ∧
    assertViewerAccess annViewer "ann".toList "acme".toList (some "a.b".toList) = .ok () ∧
    queryLatest annViewer c₁.shared "ann".toList "acme".toList (some "a.b".toList) "spans".toList =
      .ok [.obj dottedEvent] ∧
    queryLatest annViewer c₂.shared "ann".toList "acme".toList (some "a.b".toList) "spans".toList =
      .ok [.obj linedEvent] := by
  let F : Fernet := ⟨fun _ _ p ↦ p, fun _ t ↦ some t⟩
  have hs : isolatedStreamId "spans".toList "acme".toList
      (some ((some "a.b".toList).getD defaultNamespace)) = .ok dottedStream := rfl
  have haccess : assertViewerAccess annViewer "ann".toList "acme".toList
      (some ((some "a.b".toList).getD defaultNamespace)) = .ok () := rfl
  have hown : readLatest dottedStore dottedStream (some "acme".toList) =
      some [.obj dottedEvent] := rfl
  have hother : readLatest (linedStore.afterCompaction linedStream linedEvent) dottedStream
      (some "acme".toList) = some [.obj linedEvent] := by
    -- the row in the file is the one of the other namespace, and for the same tenant
    have hrows : loadStreamState (linedStore.afterCompaction linedStream linedEvent) dottedStream 1
        (some "acme".toList) = some [(openingRow linedStream linedEvent).toStreamRow] := by
      decide +kernel
    have hversion : (linedStore.afterCompaction linedStream linedEvent).maxVersion dottedStream =
        some 1 := rfl
    rw [readLatest, hversion]
    simp only [readAsOfVersion, hrows]
    rfl
  obtain ⟨c₁, hc₁, hst₁, -⟩ := dotted_run F
  obtain ⟨c₂, hc₂, hst₂⟩ := lined_compacted F
  rw [List.append_assoc] at hc₂
  refine ⟨c₁, c₂, F, _, hs, rfl, hc₁.history, hc₂, ?_, rfl, haccess, ?_, ?_⟩
  · simp [openingAppend, openingCompaction, Call.streamId, Call.appending, AppendCall.streamId,
      CompactCall.streamId, openingArgs, openingTask, openingRow, openingCheckpoint,
      AppendTask.commit, StorageCommit.column, newCheckpoint]
  · simp only [queryLatest, haccess, hs, hst₁, hown]
  · simp only [queryLatest, haccess, hs, hst₂, hother]

end WiseTraceLoom
