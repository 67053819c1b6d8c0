import WiseTraceLoom.Tenancy.Isolation

/-!
# Whose rows are in a checkpoint?

Each region has a store of its own, but all stores write their checkpoint files to one file system.
The directory of a store's checkpoints is named after the stem of its database file, which does not
determine the store, so a compaction in one store can write over a file of another.

A `Fleet` is any number of stores and of threads that work on them.  `checkpoints_owned` says that
this is the only way in which stores can get at each other's checkpoints: in runs in which no
compaction writes over a file that a checkpoint of another store or stream points at, or is about to
point at (`Fleet.Spares`), every checkpoint has the rows of its own stream in its own store, and
every read returns the rows of its own store.  `checkpoints_mixed_up` is a run in which a file is
written over.
-/

set_option autoImplicit false

namespace WiseTraceLoom

open Interleaving

variable {ι ρ : Type} [DecidableEq ι] [DecidableEq ρ] {F : Fernet} {w : ρ → Store} {r : ρ}
  {st' : Store}

/-! ## Stores on one file system -/

/-- The stores after the one at `r` has become `st'`: all of them see the files that were
written. -/
def Fleet.after (w : ρ → Store) (r : ρ) (st' : Store) : ρ → Store := fun r' ↦
  if r' = r then st' else { w r' with files := st'.files }

/-- One step of one thread, which works on the store at some site.  Between two calls it may go to
another site. -/
inductive FleetStep (F : Fernet) : (ρ → Store) → ρ × Call → (ρ → Store) → ρ × Call → Prop
  | route {w : ρ → Store} {r : ρ} (r' : ρ) : FleetStep F w (r, .idle) w (r', .idle)
  | step {w : ρ → Store} {r : ρ} {c c' : Call} {st' : Store} (h : SystemStep F (w r) c st' c') :
      FleetStep F w (r, c) (Fleet.after w r st') (r, c')

/-- The stores, and what every thread is doing and where. -/
abbrev Fleet (ι ρ : Type) := Config ι (ρ → Store) (ρ × Call)

/-- New stores, and nobody doing anything yet. -/
def Fleet.init (database : ρ → Str) (site : ι → ρ) : Fleet ι ρ :=
  ⟨fun r ↦ Store.create (database r), fun i ↦ (site i, .idle)⟩

/-- A file that a checkpoint of the stream `s` at `r` points at, or that a compaction has written
and is about to make one. -/
def Fleet.Owns (c : Fleet ι ρ) (r : ρ) (s : Str) (path : PurePath) : Prop :=
  (∃ ck ∈ (c.shared r).checkpoints, ck.streamId = s ∧ ck.filePath.resolve = path.resolve) ∨
    ∃ i v rows p, c.locals i = (r, .compact (.written s v rows p)) ∧ p.resolve = path.resolve

/-- A step to `t'` that does not write over a file of the stream `s` at `r`, unless it is a step of
a compaction of this very stream. -/
def Fleet.SparesOf (c : Fleet ι ρ) (r : ρ) (s : Str) (t' : ρ × Call) : Prop :=
  ∀ r' s' v rows path, t' = (r', .compact (.written s' v rows path)) → Fleet.Owns c r s path →
    r' = r ∧ s' = s

/-- A step to `t'` that does not write over a file of another store or stream. -/
def Fleet.Spares (c : Fleet ι ρ) (t' : ρ × Call) : Prop := ∀ r s, Fleet.SparesOf c r s t'

/-- Runs with their histories. -/
abbrev FleetHistory (F : Fernet) : Fleet ι ρ → List (ρ × Call) → Fleet ι ρ → Prop :=
  Trace fun c i w' t' ↦ FleetStep F c.shared (c.locals i) w' t'

/-- Runs, with their histories, in which no step writes over a file of another store or stream. -/
abbrev SparingFleet (F : Fernet) : Fleet ι ρ → List (ρ × Call) → Fleet ι ρ → Prop :=
  Trace fun c i w' t' ↦ FleetStep F c.shared (c.locals i) w' t' ∧ Fleet.Spares c t'

@[simp] theorem Fleet.after_self (w : ρ → Store) (r : ρ) (st' : Store) :
    Fleet.after w r st' r = st' := if_pos rfl

theorem Fleet.after_ne (w : ρ → Store) {r r' : ρ} (st' : Store) (h : r' ≠ r) :
    Fleet.after w r st' r' = { w r' with files := st'.files } := if_neg h

@[simp] theorem Fleet.after_files (w : ρ → Store) (r r' : ρ) (st' : Store) :
    (Fleet.after w r st' r').files = st'.files := by
  rw [Fleet.after]
  split_ifs <;> rfl

theorem Fleet.after_checkpoints_ne (w : ρ → Store) {r r' : ρ} (st' : Store) (h : r' ≠ r) :
    (Fleet.after w r st' r').checkpoints = (w r').checkpoints := by
  rw [Fleet.after_ne w st' h]

/-- All stores see the same files. -/
def Fleet.OneFileSystem (w : ρ → Store) : Prop := ∀ r r', (w r).files = (w r').files

theorem Fleet.oneFileSystem_after (w : ρ → Store) (r : ρ) (st' : Store) :
    Fleet.OneFileSystem (Fleet.after w r st') := by
  intro r₁ r₂
  rw [Fleet.after_files, Fleet.after_files]

theorem Fleet.grows (hw : Fleet.OneFileSystem w) (h : (w r).Grows st') (r' : ρ) :
    (w r').Grows (Fleet.after w r st' r') := by
  by_cases hr : r' = r
  · subst hr
    rwa [Fleet.after_self]
  · rw [Fleet.after_ne w st' hr]
    refine { Store.Grows.refl (w r') with files := fun path hpath ↦ h.files path ?_ }
    rwa [hw r r']

/-! ## Logs and compactions -/

/-- What holds of every run: all stores see the same files, and the logs, the checkpoints and the
threads are as in a single store. -/
structure Fleet.Ok (c : Fleet ι ρ) : Prop where
  /-- The files. -/
  files : Fleet.OneFileSystem c.shared
  /-- The logs. -/
  audit : ∀ r, (c.shared r).AuditOk
  /-- What the threads know of the logs. -/
  auditing : ∀ i, (c.locals i).2.AuditOk (c.shared (c.locals i).1)
  /-- The checkpoints. -/
  checkpoints : ∀ r, (c.shared r).CheckpointsOk
  /-- What the threads know of their compactions. -/
  compacting : ∀ i, (c.locals i).2.CompactOk (c.shared (c.locals i).1)

/-- What holds of every store after a step, if it does not depend on files. -/
theorem Fleet.forall_after {P : Store → Prop} (hP : ∀ st files, P st → P { st with files := files })
    (hw : ∀ r', P (w r')) (hst : P st') (r' : ρ) : P (Fleet.after w r st' r') := by
  by_cases hr : r' = r
  · subst hr
    rwa [Fleet.after_self]
  · rw [Fleet.after_ne w st' hr]
    exact hP _ _ (hw r')

omit [DecidableEq ρ] in
/-- What holds of every thread after a step of one. -/
theorem Fleet.forall_locals {P : Store → Call → Prop} {c : Fleet ι ρ} {i : ι} {w' : ρ → Store}
    {t' : ρ × Call} (hself : P (w' t'.1) t'.2)
    (hothers : ∀ j, j ≠ i → P (w' (c.locals j).1) (c.locals j).2) (j : ι) :
    P ((c.set i w' t').shared ((c.set i w' t').locals j).1) ((c.set i w' t').locals j).2 :=
  Config.forall_locals (P := fun _ (t : ρ × Call) ↦ P (w' t.1) t.2) hself hothers j

/-- **Every step keeps it.** -/
theorem Fleet.Ok.step {c : Fleet ι ρ} (hc : Fleet.Ok c) {i : ι} {w' : ρ → Store} {t' : ρ × Call}
    (h : FleetStep F c.shared (c.locals i) w' t') : Fleet.Ok (c.set i w' t') := by
  have hauditing := hc.auditing i
  have hcompacting := hc.compacting i
  generalize c.locals i = t at h hauditing hcompacting
  cases h with
  | @route r r' =>
    exact ⟨hc.files, hc.audit, Fleet.forall_locals trivial fun j _ ↦ hc.auditing j,
      hc.checkpoints, Fleet.forall_locals trivial fun j _ ↦ hc.compacting j⟩
  | @step r call call' st' h =>
    -- the step as one of a system with this store and this thread only
    let d : System Unit := ⟨c.shared r, fun _ ↦ call⟩
    obtain ⟨haudit, hauditing'⟩ := h.auditOk (hc.audit r) hauditing
    obtain ⟨hgrow, hckpts, hcompacting'⟩ := (compact_relyGuarantee F).step d () st' call'
      (hc.audit r).log haudit.log (hc.checkpoints r) hcompacting h
    have hgrows := Fleet.grows hc.files hgrow
    refine ⟨Fleet.oneFileSystem_after c.shared r st', ?_, ?_, ?_, ?_⟩
    · exact Fleet.forall_after (fun st files hst ↦ hst.of_eq rfl rfl) hc.audit haudit
    · refine Fleet.forall_locals (P := fun st t ↦ t.AuditOk st) ?_ fun j _ ↦
        (hc.auditing j).mono (hgrows _).commits
      rwa [Fleet.after_self]
    · exact Fleet.forall_after (fun st files hst ↦ hst) hc.checkpoints hckpts
    · refine Fleet.forall_locals (P := fun st t ↦ t.CompactOk st) ?_ fun j _ ↦
        (hc.compacting j).mono (hgrows _)
      rwa [Fleet.after_self]

/-! ## Files -/

/-- The files of the stream `s` at `r` hold its rows. -/
structure Fleet.Backs (c : Fleet ι ρ) (r : ρ) (s : Str) : Prop where
  /-- Those of its checkpoints. -/
  checkpoints : ∀ ck ∈ (c.shared r).checkpoints, ck.streamId = s →
    (c.shared r).readFile ck.filePath = some (snapshot ((c.shared r).stream s) ck.version)
  /-- Those that are about to be. -/
  written : ∀ i v rows path, c.locals i = (r, .compact (.written s v rows path)) →
    (c.shared r).readFile path = some (snapshot ((c.shared r).stream s) v)

omit [DecidableEq ρ] in
/-- A step that leaves the files and the checkpoints of this store. -/
theorem Fleet.Backs.frame {c : Fleet ι ρ} {s : Str} (h : Fleet.Backs c r s) (hc : Fleet.Ok c)
    {i : ι} {w' : ρ → Store} {t' : ρ × Call} (hgrows : (c.shared r).Grows (w' r))
    (hfiles : (w' r).files = (c.shared r).files)
    (hckpts : (w' r).checkpoints = (c.shared r).checkpoints)
    (ht' : ∀ v rows path, t' ≠ (r, .compact (.written s v rows path))) :
    Fleet.Backs (c.set i w' t') r s where
  checkpoints := by
    intro ck hck hs
    rw [Config.set_shared] at hck ⊢
    rw [hckpts] at hck
    have hle := (hc.checkpoints r ck hck).1
    rw [hs] at hle
    rw [hgrows.snapshot_eq hle, Store.readFile, hfiles]
    exact h.checkpoints ck hck hs
  written := by
    intro j v rows path hj
    by_cases hji : j = i
    · subst hji
      rw [Config.set_locals_self] at hj
      exact absurd hj (ht' v rows path)
    · rw [Config.set_locals_ne c _ _ hji] at hj
      have hcompact := hc.compacting j
      rw [hj] at hcompact
      rw [Config.set_shared, hgrows.snapshot_eq hcompact.1, Store.readFile, hfiles]
      exact h.written j v rows path hj

/-- **A compaction writes its file.**  If it is one of the stream, the file holds what any file
called after its version has to hold; if it is not, the file is none of the stream's. -/
theorem Fleet.Backs.write {c : Fleet ι ρ} {s : Str} (h : Fleet.Backs c r s) (hc : Fleet.Ok c)
    {i : ι} {r' : ρ} {s' : Str} {v : ℤ} {rows : List StorageCommit} {path : PurePath}
    (hrows : rows.map StorageCommit.toStreamRow = snapshot ((c.shared r').stream s') v)
    (hname : path.resolve.name = checkpointFileName v)
    (hspares : Fleet.Owns c r s path → r' = r ∧ s' = s) :
    Fleet.Backs (c.set i
      (Fleet.after c.shared r' ((c.shared r').writeFile path (rows.map StorageCommit.toStreamRow)))
      (r', .compact (.written s' v rows path))) r s := by
  rw [hrows]
  -- to every store the write looks like one of its own
  have hview : Fleet.after c.shared r'
      ((c.shared r').writeFile path (snapshot ((c.shared r').stream s') v)) r =
      (c.shared r).writeFile path (snapshot ((c.shared r').stream s') v) := by
    by_cases hr : r = r'
    · subst hr
      rw [Fleet.after_self]
    · rw [Fleet.after_ne _ _ hr, Store.writeFile, Store.writeFile, hc.files r r']
  have hread {v' : ℤ} {p : PurePath} (hp : p.resolve.name = checkpointFileName v')
      (howns : p.resolve = path.resolve → Fleet.Owns c r s path)
      (hold : (c.shared r).readFile p = some (snapshot ((c.shared r).stream s) v')) :
      ((c.shared r).writeFile path (snapshot ((c.shared r').stream s') v)).readFile p =
        some (snapshot ((c.shared r).stream s) v') := by
    refine Store.readFile_writeFile hname hp (fun hsame ↦ ?_) hold
    obtain ⟨rfl, rfl⟩ := hspares (howns hsame)
    rfl
  constructor
  · intro ck hck hs
    rw [Config.set_shared, hview] at hck ⊢
    have hload := h.checkpoints ck hck hs
    exact hread (hc.checkpoints r ck hck).2 (fun hsame ↦ Or.inl ⟨ck, hck, hs, hsame⟩) hload
  · intro j v' rows' p hj
    rw [Config.set_shared, hview]
    by_cases hji : j = i
    · subst hji
      rw [Config.set_locals_self, Prod.mk.injEq, Call.compact.injEq,
        CompactCall.written.injEq] at hj
      obtain ⟨rfl, rfl, rfl, rfl, rfl⟩ := hj
      rw [Store.readFile, Store.writeFile_files, if_pos rfl]
      rfl
    · rw [Config.set_locals_ne c _ _ hji] at hj
      have hcompact := hc.compacting j
      rw [hj] at hcompact
      exact hread hcompact.2 (fun hsame ↦ Or.inr ⟨j, v', rows', p, hj, hsame⟩)
        (h.written j v' rows' p hj)

/-- **A compaction inserts its row**, and has written its file. -/
theorem Fleet.Backs.insert {c : Fleet ι ρ} {s : Str} (h : Fleet.Backs c r s) {i : ι} {s' : Str}
    {v : ℤ} {rows : List StorageCommit} {path : PurePath} {now : Timestamp}
    (hi : c.locals i = (r, .compact (.written s' v rows path)))
    (hins : (c.shared r).insertCheckpoint (newCheckpoint s' v path rows now) = some st') :
    Fleet.Backs (c.set i (Fleet.after c.shared r st')
      (r, .compact (.committed (newCheckpoint s' v path rows now)))) r s := by
  obtain ⟨-, rfl⟩ := Store.insertCheckpoint_eq_some hins
  constructor
  · intro ck hck hs
    rw [Config.set_shared, Fleet.after_self] at hck ⊢
    rcases List.mem_append.mp hck with hck | hck
    · exact h.checkpoints ck hck hs
    · obtain rfl := List.mem_singleton.mp hck
      obtain rfl : s' = s := hs
      exact h.written i v rows path hi
  · intro j v' rows' p hj
    rw [Config.set_shared, Fleet.after_self]
    by_cases hji : j = i
    · subst hji
      simp [Config.set_locals_self] at hj
    · rw [Config.set_locals_ne c _ _ hji] at hj
      exact h.written j v' rows' p hj

/-- **Every step that spares the stream keeps it.** -/
theorem Fleet.Backs.step {c : Fleet ι ρ} {s : Str} (h : Fleet.Backs c r s) (hc : Fleet.Ok c)
    {i : ι} {w' : ρ → Store} {t' : ρ × Call} (hstep : FleetStep F c.shared (c.locals i) w' t')
    (hspares : Fleet.SparesOf c r s t') : Fleet.Backs (c.set i w' t') r s := by
  have hcompacting := hc.compacting i
  generalize hi : c.locals i = t at hstep hcompacting
  cases hstep with
  | route r' => exact h.frame hc (.refl _) rfl rfl (by simp)
  | @step r' call call' st' hstep =>
    have hgrows := Fleet.grows hc.files hstep.grows r
    -- a step that leaves the files and the checkpoints of its own store
    have hframe (hfiles : st'.files = (c.shared r').files)
        (hckpts : st'.checkpoints = (c.shared r').checkpoints)
        (ht' : ∀ s v rows path, call' ≠ .compact (.written s v rows path)) :
        Fleet.Backs (c.set i (Fleet.after c.shared r' st') (r', call')) r s := by
      refine h.frame hc hgrows ?_ ?_ fun v rows path heq ↦ ht' s v rows path (congrArg Prod.snd heq)
      · rw [Fleet.after_files, hfiles, hc.files r' r]
      · by_cases hr : r = r'
        · subst hr
          rw [Fleet.after_self, hckpts]
        · exact Fleet.after_checkpoints_ne _ _ hr
    cases hstep with
    | compact hcompact =>
      cases hcompact with
      | write config =>
        exact h.write hc hcompacting.2 (name_checkpointFilePath ..) (hspares _ _ _ _ _ rfl)
      | insert now hins =>
        by_cases hr : r' = r
        · subst hr
          exact h.insert hi hins
        · obtain ⟨-, rfl⟩ := Store.insertCheckpoint_eq_some hins
          refine h.frame hc hgrows ?_ (Fleet.after_checkpoints_ne _ _ (Ne.symm hr)) (by simp)
          rw [Fleet.after_files]
          exact hc.files r' r
      | _ => exact hframe rfl rfl (by simp)
    | start hstart => exact hframe rfl rfl (by cases hstart <;> simp)
    | stop => exact hframe rfl rfl (by simp)
    | append hcall | anchor hcall | read hcall | encrypt hcall | request hcall | confirm hcall
    | config hcall =>
      exact hframe (by rw [hcall.store_eq]) (by rw [hcall.store_eq]) (by simp)

omit [DecidableEq ι] [DecidableEq ρ] in
/-- Then all checkpoints of a store have their rows. -/
theorem Fleet.Ok.backed {c : Fleet ι ρ} (hc : Fleet.Ok c) (h : ∀ s, Fleet.Backs c r s) :
    (c.shared r).Backed :=
  fun ck hck ↦ ⟨(h ck.streamId).checkpoints ck hck rfl, (hc.checkpoints r ck hck).1⟩

/-! ## Reads -/

/-- What a thread knows about its read. -/
def Call.ReadOk (st : Store) : Call → Prop
  | .read c => c.Ok st
  | _ => True

theorem Call.ReadOk.mono {st : Store} {c : Call} (hc : c.ReadOk st) (h : st.Grows st') :
    c.ReadOk st' := by
  cases c with
  | read c => exact ReadCall.Ok.mono hc h
  | _ => trivial

/-- One step of a thread, in a store whose checkpoints have their rows. -/
theorem SystemStep.readOk {st : Store} {c c' : Call} (h : SystemStep F st c st' c')
    (hlog : st.LogOk) (hst : st.Backed) (hc : c.ReadOk st) : c'.ReadOk st' := by
  cases h with
  | read h => exact h.ok hlog hst hc
  | start h => cases h <;> trivial
  | _ => trivial

/-! ## Runs -/

omit [DecidableEq ι] [DecidableEq ρ] in
/-- New stores. -/
theorem Fleet.ok_init (database : ρ → Str) (site : ι → ρ) : Fleet.Ok (Fleet.init database site) :=
  ⟨fun _ _ ↦ rfl, fun _ ↦ ⟨fun _ ↦ streamOk_nil, by simp [Fleet.init, Store.create]⟩,
    fun _ ↦ trivial, fun _ ↦ by simp [Fleet.init, Store.create, Store.CheckpointsOk],
    fun _ ↦ trivial⟩

omit [DecidableEq ι] [DecidableEq ρ] in
theorem Fleet.backs_init (database : ρ → Str) (site : ι → ρ) (r : ρ) (s : Str) :
    Fleet.Backs (Fleet.init database site) r s :=
  ⟨fun ck hck ↦ by simp [Fleet.init, Store.create] at hck, fun i v rows path hi ↦ by
    simp [Fleet.init] at hi⟩

/-- What holds in a sparing run. -/
structure Fleet.Owned (c : Fleet ι ρ) : Prop where
  /-- The logs and the compactions are as they should be. -/
  ok : Fleet.Ok c
  /-- All files hold the rows of their streams. -/
  backs : ∀ r s, Fleet.Backs c r s
  /-- So reads find what they look for. -/
  reading : ∀ i, (c.locals i).2.ReadOk (c.shared (c.locals i).1)

theorem Fleet.Owned.step {c : Fleet ι ρ} (h : Fleet.Owned c) {i : ι} {w' : ρ → Store}
    {t' : ρ × Call} (hstep : FleetStep F c.shared (c.locals i) w' t')
    (hspares : Fleet.Spares c t') : Fleet.Owned (c.set i w' t') where
  ok := h.ok.step hstep
  backs := fun r s ↦ (h.backs r s).step h.ok hstep (hspares r s)
  reading := by
    have hreading := h.reading i
    generalize c.locals i = t at hstep hreading
    cases hstep with
    | route r' => exact Fleet.forall_locals trivial fun j _ ↦ h.reading j
    | @step r call call' st' hstep =>
      refine Fleet.forall_locals (P := fun st t ↦ t.ReadOk st) ?_ fun j _ ↦
        (h.reading j).mono (Fleet.grows h.ok.files hstep.grows _)
      rw [Fleet.after_self]
      exact hstep.readOk (h.ok.audit r).log (h.ok.backed (h.backs r)) hreading

/-- **In a sparing run every checkpoint is backed by its own rows.** -/
theorem SparingFleet.owned {database : ρ → Str} {site : ι → ρ} {history : List (ρ × Call)}
    {c : Fleet ι ρ} (h : SparingFleet F (Fleet.init database site) history c) : Fleet.Owned c :=
  h.invariant (fun _ _ _ _ hd hstep ↦ hd.step hstep.1 hstep.2)
    ⟨Fleet.ok_init database site, Fleet.backs_init database site, fun _ ↦ trivial⟩

/-- **Checkpoints belong to their store.**  In a run in which no compaction writes over a file that
a checkpoint of another store or stream points at or is about to point at, the file of every
checkpoint holds the commits of its own stream in its own store up to its version; no read fails,
and a read that is about to run its tail query returns the payloads of the commits of its own
store. -/
theorem checkpoints_owned {database : ρ → Str} {site : ι → ρ} {history : List (ρ × Call)}
    {c : Fleet ι ρ} (hrun : SparingFleet F (Fleet.init database site) history c) :
    (∀ r, ∀ ck ∈ (c.shared r).checkpoints,
      ck.version ≤ ((c.shared r).stream ck.streamId).length ∧
      loadCheckpointRows (c.shared r) ck =
        some ((((c.shared r).stream ck.streamId).filter fun row ↦ row.version ≤ ck.version).map
          StorageCommit.toStreamRow)) ∧
    ∀ i r k, c.locals i = (r, .read k) → k ≠ .raised ∧
      ∀ s v tenantId base rows, k = .loaded s v tenantId base rows →
        ∀ d, StepOf (FleetStep F) i c d → d.locals i ≠ (r, .idle) →
          ∃ payloads, d.locals i = (r, .read (.returned payloads)) ∧
            (replay (c.shared r) s v tenantId).map (fun row ↦ Json.loads row.payload) =
              payloads.map some := by
  obtain ⟨hc, hbacks, hreading⟩ := hrun.owned
  refine ⟨fun r ck hck ↦ ?_, fun i r k hk ↦ ?_⟩
  · obtain ⟨hload, hle⟩ := hc.backed (hbacks r) ck hck
    rw [((hc.audit r).log ck.streamId).snapshot_eq] at hload
    exact ⟨hle, hload⟩
  · have hread := hreading i
    rw [hk] at hread
    refine ⟨fun hraised ↦ by subst hraised; exact hread, ?_⟩
    rintro s v tenantId base rows rfl d ⟨w', t', hstep, rfl⟩ hidle
    rw [Config.set_locals_self] at hidle ⊢
    rw [hk] at hstep
    cases hstep with
    | step h =>
      cases h with
      | stop => exact absurd rfl hidle
      | read h =>
        obtain ⟨payloads, rfl, hreplay⟩ := h.replay (hc.audit r).log hread
        exact ⟨payloads, rfl, hreplay⟩

/-! ## Runs of one thread -/

theorem Fleet.after_eq_self (hw : Fleet.OneFileSystem w) (r : ρ) : Fleet.after w r (w r) = w := by
  funext r'
  by_cases hr : r' = r
  · subst hr
    exact Fleet.after_self ..
  · rw [Fleet.after_ne _ _ hr, hw r r']

theorem Fleet.after_after (w : ρ → Store) (r : ρ) (st st' : Store) :
    Fleet.after (Fleet.after w r st) r st' = Fleet.after w r st' := by
  funext r'
  by_cases hr : r' = r
  · subst hr
    rw [Fleet.after_self, Fleet.after_self]
  · rw [Fleet.after_ne _ _ hr, Fleet.after_ne _ _ hr, Fleet.after_ne _ _ hr]

/-- What a thread does on its own in one store. -/
theorem Fleet.soloTrace (hw : Fleet.OneFileSystem w) {call : Call} {l : List Call}
    {y : Store × Call} (h : SoloTrace (SystemStep F) (w r, call) l y) :
    SoloTrace (FleetStep F) (w, (r, call)) (l.map (Prod.mk r))
      (Fleet.after w r y.1, (r, y.2)) := by
  induction h with
  | nil =>
    rw [Fleet.after_eq_self hw]
    exact .nil
  | @snoc l y st' call' _ hstep ih =>
    have hnext : FleetStep F (Fleet.after w r y.1) (r, y.2)
        (Fleet.after (Fleet.after w r y.1) r st') (r, call') :=
      .step (by rwa [Fleet.after_self])
    rw [Fleet.after_after] at hnext
    rw [List.map_append]
    exact ih.snoc hnext

theorem FleetHistory.solo {c d : Fleet ι ρ} {l : List (ρ × Call)} (h : FleetHistory F c l d)
    (hd : Fleet.OneFileSystem d.shared) (i : ι) {call : Call} (hi : d.locals i = (r, call))
    {l' : List Call} {y : Store × Call}
    (hsolo : SoloTrace (SystemStep F) (d.shared r, call) l' y) :
    ∃ e, FleetHistory F c (l ++ l'.map (Prod.mk r)) e ∧ Fleet.OneFileSystem e.shared ∧
      e.shared = Fleet.after d.shared r y.1 ∧ e.locals i = (r, y.2) := by
  have hfleet := Fleet.soloTrace hd hsolo
  rw [← hi] at hfleet
  obtain ⟨e, he, hshared, hlocals⟩ := Trace.solo h i hfleet fun _ _ _ _ hstep ↦ hstep
  refine ⟨e, he, ?_, hshared, by rw [hlocals, Function.update_self]⟩
  rw [hshared]
  exact Fleet.oneFileSystem_after d.shared r y.1

/-- Files come to belong to a stream by compactions of the stream. -/
theorem Fleet.Owns.step {c : Fleet ι ρ} {i : ι} {w' : ρ → Store} {t' : ρ × Call} {r' : ρ} {s : Str}
    {path : PurePath} (hstep : FleetStep F c.shared (c.locals i) w' t')
    (h : Fleet.Owns (c.set i w' t') r' s path) :
    (∃ path', Fleet.Owns c r' s path') ∨
      ∃ v rows p, t' = (r', .compact (.written s v rows p)) := by
  rcases h with ⟨ck, hck, hs, hpath⟩ | ⟨j, v, rows, p, hj, hp⟩
  · rw [Config.set_shared] at hck
    generalize hi : c.locals i = t at hstep
    cases hstep with
    | route => exact Or.inl ⟨path, Or.inl ⟨ck, hck, hs, hpath⟩⟩
    | @step r call call' st' hstep =>
      by_cases hr : r' = r
      · subst hr
        rw [Fleet.after_self] at hck
        rcases hstep.files_eq with ⟨-, hckpts⟩ | ⟨a, a', rfl, rfl, hcompact⟩
        · exact Or.inl ⟨path, Or.inl ⟨ck, hckpts ▸ hck, hs, hpath⟩⟩
        · rcases hcompact.effect with rfl | ⟨s', v, rows, config, -, rfl⟩ |
            ⟨s', v, rows, p, now, rfl, hins⟩
          · exact Or.inl ⟨path, Or.inl ⟨ck, hck, hs, hpath⟩⟩
          · exact Or.inl ⟨path, Or.inl ⟨ck, hck, hs, hpath⟩⟩
          · obtain ⟨-, rfl⟩ := Store.insertCheckpoint_eq_some hins
            rcases List.mem_append.mp hck with hck | hck
            · exact Or.inl ⟨path, Or.inl ⟨ck, hck, hs, hpath⟩⟩
            · rw [List.mem_singleton.mp hck] at hs
              obtain rfl : s' = s := hs
              exact Or.inl ⟨p, Or.inr ⟨i, v, rows, p, hi, rfl⟩⟩
      · rw [Fleet.after_checkpoints_ne _ _ hr] at hck
        exact Or.inl ⟨path, Or.inl ⟨ck, hck, hs, hpath⟩⟩
  · by_cases hji : j = i
    · subst hji
      rw [Config.set_locals_self] at hj
      exact Or.inr ⟨v, rows, p, hj⟩
    · rw [Config.set_locals_ne c _ _ hji] at hj
      exact Or.inl ⟨path, Or.inr ⟨j, v, rows, p, hj, hp⟩⟩

/-- **A run in which one stream of one store is compacted at most is sparing.** -/
theorem FleetHistory.sparing {database : ρ → Str} {site : ι → ρ} {history : List (ρ × Call)}
    {c : Fleet ι ρ} (h : FleetHistory F (Fleet.init database site) history c) {r : ρ} {s : Str}
    (hone : ∀ r' s' v rows path, (r', Call.compact (.written s' v rows path)) ∈ history →
      r' = r ∧ s' = s) :
    SparingFleet F (Fleet.init database site) history c ∧
      ∀ r' s' path, Fleet.Owns c r' s' path → r' = r ∧ s' = s := by
  induction h with
  | nil =>
    refine ⟨.nil, fun r' s' path howns ↦ ?_⟩
    rcases howns with ⟨ck, hck, -⟩ | ⟨j, v, rows, p, hj, -⟩
    · simp [Fleet.init, Store.create] at hck
    · simp [Fleet.init] at hj
  | @snoc history d i w' t' _ hstep ih =>
    obtain ⟨hsparing, howns⟩ := ih fun r' s' v rows path hmem ↦
      hone r' s' v rows path (List.mem_append_left _ hmem)
    have hlast : ∀ r' s' v rows path, t' = (r', Call.compact (.written s' v rows path)) →
        r' = r ∧ s' = s := fun r' s' v rows path ht' ↦ hone r' s' v rows path (by simp [ht'])
    refine ⟨hsparing.snoc ⟨hstep, fun r₂ s₂ r₁ s₁ v rows path ht' h₂ ↦ ?_⟩,
      fun r' s' path h' ↦ ?_⟩
    · obtain ⟨rfl, rfl⟩ := hlast r₁ s₁ v rows path ht'
      obtain ⟨rfl, rfl⟩ := howns r₂ s₂ path h₂
      exact ⟨rfl, rfl⟩
    · rcases Fleet.Owns.step hstep h' with ⟨path', hold⟩ | ⟨v, rows, p, ht'⟩
      · exact howns r' s' path' hold
      · exact hlast r' s' v rows p ht'

/-! ### Two regions with one label -/

/-- The database files of two regions, which have the same stem. -/
def regionDatabase (eu : Bool) : Str := if eu then "eu/store.db".toList else "us/store.db".toList

/-- The stream both regions have. -/
def regionStream : Str := "spans".toList

/-- The event in the one region. -/
def euEvent : Payload := [("text".toList, .str "eu only".toList)]

/-- The event in the other. -/
def usEvent : Payload := [("text".toList, .str "us only".toList)]

/-- The store of the one region, appended to and compacted. -/
def euStore : Store :=
  ((Store.create "eu/store.db".toList).afterAppend regionStream euEvent).afterCompaction
    regionStream euEvent

/-- The store of the other region, appended to. -/
def usStore : Store :=
  { Store.create "us/store.db".toList with files := euStore.files }.afterAppend regionStream usEvent

/-- What a thread does to get there. -/
def regionHistory : List (Bool × Call) :=
  (openingAppend regionStream euEvent).map (Prod.mk true) ++
    (openingCompaction regionStream euEvent).map (Prod.mk true) ++ [(false, .idle)] ++
      (openingAppend regionStream usEvent).map (Prod.mk false)

theorem region_run (F : Fernet) : ∃ c : Fleet Unit Bool,
    FleetHistory F (Fleet.init regionDatabase fun _ ↦ true) regionHistory c ∧
      Fleet.OneFileSystem c.shared ∧ c.shared true = { euStore with files := usStore.files } ∧
      c.shared false = usStore ∧ c.locals () = (false, .idle) := by
  have h0 : FleetHistory F (Fleet.init regionDatabase fun _ ↦ true) []
    (Fleet.init regionDatabase fun _ : Unit ↦ true) := .nil
  obtain ⟨c₁, h1, hfs₁, hw₁, hl₁⟩ :=
    h0.solo (fun _ _ ↦ rfl) () rfl (openingAppend_trace (s := regionStream) euEvent rfl)
  have hst₁ : c₁.shared true =
      (Store.create "eu/store.db".toList).afterAppend regionStream euEvent := by
    rw [hw₁]
    rfl
  obtain ⟨c₂, h2, hfs₂, hw₂, hl₂⟩ := h1.solo (r := true) hfs₁ () hl₁
    (openingCompaction_trace (s := regionStream) euEvent (by rw [hst₁]; rfl) (by rw [hst₁]; rfl)
      (by rw [hst₁]; rfl))
  rw [hst₁] at hw₂
  have hst₂ : c₂.shared true = euStore ∧
      c₂.shared false = { Store.create "us/store.db".toList with files := euStore.files } := by
    rw [hw₂, hw₁]
    exact ⟨rfl, rfl⟩
  have h3 : FleetHistory F (Fleet.init regionDatabase fun _ ↦ true) _
      (c₂.set () c₂.shared (false, .idle)) := h2.snoc (by rw [hl₂]; exact .route false)
  obtain ⟨c₄, h4, hfs₄, hw₄, hl₄⟩ := h3.solo (r := false) hfs₂ () (Config.set_locals_self ..)
    (openingAppend_trace (s := regionStream) usEvent (by rw [Config.set_shared, hst₂.2]; rfl))
  rw [Config.set_shared, hst₂.2] at hw₄
  refine ⟨c₄, h4, hfs₄, ?_, ?_, hl₄⟩
  · rw [hw₄, Fleet.after_ne _ _ (by decide), hst₂.1]
    rfl
  · rw [hw₄]
    exact Fleet.after_self ..

/-- The checkpoint of the one region has its own row. -/
theorem region_checkpoint_owned : ∃ w : Bool → Store,
    w true = { euStore with files := usStore.files } ∧
    loadCheckpointRows (w true) (openingCheckpoint regionStream euEvent) =
      some [(openingRow regionStream euEvent).toStreamRow] := by
  let F : Fernet := ⟨fun _ _ p ↦ p, fun _ t ↦ some t⟩
  obtain ⟨c, hrun, -, htrue, -⟩ := region_run F
  have hsparing := (hrun.sparing (r := true) (s := regionStream) (by
    simp +contextual [regionHistory, openingAppend, openingCompaction])).1
  have hck : openingCheckpoint regionStream euEvent ∈ (c.shared true).checkpoints := by
    rw [htrue]
    exact List.mem_singleton_self _
  have hload := ((checkpoints_owned hsparing).1 true _ hck).2
  rw [htrue] at hload
  exact ⟨c.shared, htrue, by rw [htrue]; exact hload⟩

/-- **The other way round**: the compaction in the one region is followed by one in the other, which
writes over the same file, and a read in the first region returns the row of the second. -/
theorem checkpoints_mixed_up : ∃ (c : Fleet Unit Bool) (F : Fernet)
    (history : List (Bool × Call)),
    FleetHistory F (Fleet.init regionDatabase fun _ ↦ true) history c ∧
    (∀ t ∈ history, t.2.streamId = some regionStream ∨ t.2.streamId = none) ∧
    (PurePath.parse (regionDatabase true)).resolve ≠
      (PurePath.parse (regionDatabase false)).resolve ∧
    (c.shared true).stream regionStream = [openingRow regionStream euEvent] ∧
    openingCheckpoint regionStream euEvent ∈ (c.shared true).checkpoints ∧
    loadCheckpointRows (c.shared true) (openingCheckpoint regionStream euEvent) =
      some [(openingRow regionStream usEvent).toStreamRow] ∧
    readLatest (c.shared true) regionStream (some "acme".toList) = some [.obj usEvent] := by
  let F : Fernet := ⟨fun _ _ p ↦ p, fun _ t ↦ some t⟩
  obtain ⟨c, hrun, hfs, htrue, hfalse, hidle⟩ := region_run F
  obtain ⟨d, hd, -, hw, -⟩ := hrun.solo (r := false) hfs () hidle
    (openingCompaction_trace (s := regionStream) usEvent (by rw [hfalse]; rfl)
      (by rw [hfalse]; rfl) (by rw [hfalse]; rfl))
  have hst : d.shared true =
      { euStore with files := (usStore.afterCompaction regionStream usEvent).files } := by
    rw [hw, Fleet.after_ne _ _ (by decide), htrue, hfalse]
  refine ⟨d, F, _, hd, ?_, by decide, ?_, ?_, ?_, ?_⟩
  · simp [regionHistory, openingAppend, openingCompaction, Call.streamId, Call.appending,
      AppendCall.streamId, CompactCall.streamId, openingArgs, openingTask, openingRow,
      openingCheckpoint, AppendTask.commit, StorageCommit.column, newCheckpoint]
  · rw [hst]
    rfl
  · rw [hst]
    exact List.mem_singleton_self _
  · rw [hst]
    rfl
  · rw [hst]
    have hrows : loadStreamState
        { euStore with files := (usStore.afterCompaction regionStream usEvent).files }
        regionStream 1 (some "acme".toList) =
          some [(openingRow regionStream usEvent).toStreamRow] := by
      decide +kernel
    have hversion : Store.maxVersion
        { euStore with files := (usStore.afterCompaction regionStream usEvent).files }
        regionStream = some 1 := rfl
    rw [readLatest, hversion]
    simp only [readAsOfVersion, hrows]
    rfl

end WiseTraceLoom
