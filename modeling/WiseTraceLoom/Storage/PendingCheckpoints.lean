import WiseTraceLoom.Storage.CheckpointLag

/-!
# `wait_for_pending_checkpoints`

`_spawn_checkpoint` puts the thread of a compaction into a list and then starts it.
`wait_for_pending_checkpoints` takes the whole list, leaves an empty one, and joins one thread after
the other, each for a limited time.

A `CheckpointPool` is the process of `Storage.CheckpointLag` with this list and with what has become
of each thread.  Its compactions may raise anything at any moment, which is logged and ends the
thread, and so may its appends, also after their commits; as long as they raise nothing but what the
other process knows of, nothing else is new (`SoundStep.simulates`).

* `pending_checkpoints_landed` — what a wait is for: if no compaction has failed and no append after
  its commit, no wait has run out of time or raised, and no other one is under way when it begins,
  then every checkpoint that was due is there when it returns.
* `join_raises_iff` — a thread that has been put into the list but has not been started cannot be
  joined.  This is when a wait raises, and its caller cannot prevent it.
-/

set_option autoImplicit false

namespace WiseTraceLoom

open Interleaving

variable {ι : Type} [DecidableEq ι]

/-! ## The threads -/

/-- What has become of a thread. -/
inductive ThreadStatus where
  | created
  /-- `thread.start()` was called, but nothing of the compaction has run yet. -/
  | started
  | running
  | ended
  deriving DecidableEq

/-- Has the compaction yet to begin? -/
def ThreadStatus.waits : ThreadStatus → Bool
  | .created | .started => true
  | .running | .ended => false

/-- The thread of a compaction. -/
structure CheckpointThread where
  /-- What it is for. -/
  job : CheckpointJob
  /-- What has become of it. -/
  status : ThreadStatus
  deriving DecidableEq

/-- What the threads of a process share. -/
structure CheckpointPool where
  /-- The store of the engine. -/
  store : Store
  /-- What `_last_checkpoint_version_cache` has for the engine. -/
  lastCheckpointVersionCache : Str → Option ℤ
  /-- All threads that `_spawn_checkpoint` has created, known by their positions. -/
  threads : List CheckpointThread
  /-- `_pending_checkpoint_threads`. -/
  pending : List ℕ

namespace CheckpointPool

/-- The process without the list. -/
def process (p : CheckpointPool) : Process :=
  ⟨p.store, p.lastCheckpointVersionCache, (p.threads.filter (·.status.waits)).map (·.job)⟩

/-- The store and the cache have changed. -/
def withProcess (p : CheckpointPool) (q : Process) : CheckpointPool :=
  { p with store := q.store, lastCheckpointVersionCache := q.lastCheckpointVersionCache }

/-- Thread `k`, which has this job, is in another state. -/
def mark (p : CheckpointPool) (k : ℕ) (job : CheckpointJob) (status : ThreadStatus) :
    CheckpointPool := { p with threads := p.threads.set k ⟨job, status⟩ }

/-- A new thread, put into the list. -/
def spawn (p : CheckpointPool) (job : CheckpointJob) : CheckpointPool :=
  { p with
    threads := p.threads ++ [⟨job, .created⟩]
    pending := p.pending ++ [p.threads.length] }

end CheckpointPool

/-- What a thread of the process is doing. -/
inductive PoolCall where
  | call (c : ProcessCall)
  /-- In `_spawn_checkpoint`: thread `k` is in the list and is to be started. -/
  | starting (row : StorageCommit) (k : ℕ)
  /-- `thread.start()` has raised, and so has the append. -/
  | startRaised
  /-- It is thread `k`. -/
  | compacting (k : ℕ) (job : CheckpointJob) (c : CompactCall)
  /-- In `wait_for_pending_checkpoints`: it has taken these threads, and these are left to be
  joined.  Has one of them taken too long? -/
  | joining (taken left : List ℕ) (timedOut : Bool)
  | waited (taken : List ℕ) (timedOut : Bool)
  /-- `RuntimeError`: a thread cannot be joined before it is started. -/
  | waitRaised

/-- One step of one thread. -/
inductive PoolStep (interval : ℤ) : CheckpointPool → PoolCall → CheckpointPool → PoolCall → Prop
  /-- Whatever has nothing to do with the threads. -/
  | other {p : CheckpointPool} {q : Process} {c c' : ProcessCall}
      (h : ProcessStep interval p.process c q c') (hspawned : q.spawned = p.process.spawned)
      (hcompact : ∀ job x, c ≠ .compacting job x) :
      PoolStep interval p (.call c) (p.withProcess q) (.call c')
  /-- After its commit an append raises, while it reads the row back, or the configuration, or the
  last checkpoint. -/
  | appendError {p : CheckpointPool} {row : StorageCommit} {c : ProcessCall}
      (h : c = .append (.committed row) ∨ c = .missed row) :
      PoolStep interval p (.call c) p (.call (.append (.raised .other)))
  | spawn {p : CheckpointPool} {row : StorageCommit} {last : ℤ}
      (h : shouldCheckpoint row.version last interval = true) :
      PoolStep interval p (.call (.checking row last)) (p.spawn ⟨row.streamId, row.version⟩)
        (.starting row p.threads.length)
  | start {p : CheckpointPool} {row : StorageCommit} {k : ℕ} :
      PoolStep interval p (.starting row k) (p.mark k ⟨row.streamId, row.version⟩ .started)
        (.call (.append (.returned row)))
  | startError {p : CheckpointPool} {row : StorageCommit} {k : ℕ} :
      PoolStep interval p (.starting row k) p .startRaised
  | run {p : CheckpointPool} {k : ℕ} {job : CheckpointJob}
      (h : p.threads[k]? = some ⟨job, .started⟩) :
      PoolStep interval p (.call .idle) (p.mark k job .running)
        (.compacting k job (.called job.streamId))
  | compact {p : CheckpointPool} {k : ℕ} {job : CheckpointJob} {c c' : CompactCall} {st' : Store}
      (h : CompactStep p.store c st' c') :
      PoolStep interval p (.compacting k job c) { p with store := st' } (.compacting k job c')
  | advance {p : CheckpointPool} {k : ℕ} {job : CheckpointJob} {ck : Option StorageCheckpoint} :
      PoolStep interval p (.compacting k job (.returned ck))
        ((p.withProcess (p.process.cache job.streamId job.latestVersion)).mark k job .ended)
        (.call .idle)
  | warn {p : CheckpointPool} {k : ℕ} {job : CheckpointJob} :
      PoolStep interval p (.compacting k job .raised) (p.mark k job .ended) (.call .idle)
  /-- `threads = list(...)` and `clear()`, in the lock. -/
  | wait {p : CheckpointPool} :
      PoolStep interval p (.call .idle) { p with pending := [] }
        (.joining p.pending p.pending false)
  | join {p : CheckpointPool} {k : ℕ} {taken left : List ℕ} {timedOut : Bool} {job : CheckpointJob}
      (h : p.threads[k]? = some ⟨job, .ended⟩) :
      PoolStep interval p (.joining taken (k :: left) timedOut) p (.joining taken left timedOut)
  | timeout {p : CheckpointPool} {k : ℕ} {taken left : List ℕ} {timedOut : Bool}
      {thread : CheckpointThread} (h : p.threads[k]? = some thread)
      (hstatus : thread.status ≠ .created) :
      PoolStep interval p (.joining taken (k :: left) timedOut) p (.joining taken left true)
  | joinError {p : CheckpointPool} {k : ℕ} {taken left : List ℕ} {timedOut : Bool}
      {job : CheckpointJob} (h : p.threads[k]? = some ⟨job, .created⟩) :
      PoolStep interval p (.joining taken (k :: left) timedOut) p .waitRaised
  | done {p : CheckpointPool} {taken : List ℕ} {timedOut : Bool} :
      PoolStep interval p (.joining taken [] timedOut) p (.waited taken timedOut)
  | hangUp {p : CheckpointPool} {c : PoolCall}
      (h : c = .startRaised ∨ c = .waitRaised ∨ ∃ taken timedOut, c = .waited taken timedOut) :
      PoolStep interval p c p (.call .idle)

/-- The process and what all its threads are doing. -/
abbrev PoolSystem (ι : Type) := Config ι CheckpointPool PoolCall

/-- A process that starts on a store. -/
def PoolSystem.init (ι : Type) (st : Store) : PoolSystem ι :=
  ⟨⟨st, fun _ ↦ none, [], []⟩, fun _ ↦ .call .idle⟩

/-! ## Who looks after a thread -/

variable {interval : ℤ} {p p' : CheckpointPool} {c c' : PoolCall}

/-- The thread that a call has yet to start, or that it is, and the state of this thread. -/
def PoolCall.thread : PoolCall → Option (ℕ × CheckpointThread)
  | .starting row k => some (k, ⟨⟨row.streamId, row.version⟩, .created⟩)
  | .compacting k job _ => some (k, ⟨job, .running⟩)
  | _ => none

/-- **What a step does to the threads**: nothing, or one thread is created, begins to run, or goes
on to the state after the one its call knows of. -/
theorem PoolStep.threads (h : PoolStep interval p c p' c') :
    (p'.threads = p.threads ∧ (c'.thread = c.thread ∨ c'.thread = none)) ∨
    (∃ job, c.thread = none ∧ p'.threads = p.threads ++ [⟨job, .created⟩] ∧
      c'.thread = some (p.threads.length, ⟨job, .created⟩)) ∨
    (∃ k job, c.thread = none ∧ p.threads[k]? = some ⟨job, .started⟩ ∧
      p'.threads = p.threads.set k ⟨job, .running⟩ ∧ c'.thread = some (k, ⟨job, .running⟩)) ∨
    ∃ k job, ((c.thread = some (k, ⟨job, .created⟩) ∧
        p'.threads = p.threads.set k ⟨job, .started⟩) ∨
      (c.thread = some (k, ⟨job, .running⟩) ∧ p'.threads = p.threads.set k ⟨job, .ended⟩)) ∧
      c'.thread = none := by
  cases h with
  | spawn => exact .inr (.inl ⟨_, rfl, rfl, rfl⟩)
  | @run k job h => exact .inr (.inr (.inl ⟨k, job, rfl, h, rfl, rfl⟩))
  | @start row k => exact .inr (.inr (.inr ⟨k, _, .inl ⟨rfl, rfl⟩, rfl⟩))
  | @advance k job => exact .inr (.inr (.inr ⟨k, job, .inr ⟨rfl, rfl⟩, rfl⟩))
  | @warn k job => exact .inr (.inr (.inr ⟨k, job, .inr ⟨rfl, rfl⟩, rfl⟩))
  | compact => exact .inl ⟨rfl, .inl rfl⟩
  | _ => exact .inl ⟨rfl, .inr rfl⟩

/-- What a call knows of its thread. -/
def PoolCall.Knows (p : CheckpointPool) (c : PoolCall) : Prop :=
  ∀ k x, c.thread = some (k, x) → p.threads[k]? = some x

/-- Each call knows the state of its thread, which no other call has. -/
structure PoolSystem.Held (c : PoolSystem ι) : Prop where
  /-- What a call knows. -/
  knows : ∀ i, (c.locals i).Knows c.shared
  /-- Whose thread it is. -/
  one : ∀ i j k x y, (c.locals i).thread = some (k, x) → (c.locals j).thread = some (k, y) → i = j

/-- A call may let go of its thread. -/
theorem PoolSystem.Held.release {d : PoolSystem ι} (h : d.Held) {i : ι}
    (hothers : ∀ j, j ≠ i → (d.locals j).Knows p')
    (hself : c'.Knows p') (hthread : c'.thread = (d.locals i).thread ∨ c'.thread = none) :
    PoolSystem.Held (d.set i p' c') := by
  refine ⟨Config.forall_locals (P := fun _ (x : PoolCall) ↦ x.Knows p') hself hothers, ?_⟩
  have hold (j : ι) (k : ℕ) (x : CheckpointThread)
      (hj : ((d.set i p' c').locals j).thread = some (k, x)) :
      (d.locals j).thread = some (k, x) := by
    by_cases hji : j = i
    · subst hji
      rw [Config.set_locals_self] at hj
      rcases hthread with hsame | hnone
      · rwa [← hsame]
      · rw [hnone] at hj
        cases hj
    · rwa [Config.set_locals_ne d p' c' hji] at hj
  exact fun j j' k x y hj hj' ↦ h.one j j' k x y (hold j k x hj) (hold j' k y hj')

/-- Or get one that nobody has. -/
theorem PoolSystem.Held.acquire {d : PoolSystem ι} (h : d.Held) {i : ι} {k : ℕ}
    {x : CheckpointThread} (hfree : ∀ j y, (d.locals j).thread ≠ some (k, y))
    (hthreads : ∀ m, m ≠ k → p'.threads[m]? = d.shared.threads[m]?)
    (hget : p'.threads[k]? = some x) (hthread : c'.thread = some (k, x)) :
    PoolSystem.Held (d.set i p' c') := by
  refine ⟨Config.forall_locals (P := fun _ (x : PoolCall) ↦ x.Knows p') ?_ fun j _ m y hj ↦ ?_, ?_⟩
  · intro m y hm
    obtain ⟨rfl, rfl⟩ := Prod.mk.inj (Option.some.inj (hthread.symm.trans hm))
    exact hget
  · have hm : m ≠ k := by
      rintro rfl
      exact hfree j y hj
    rw [hthreads m hm]
    exact h.knows j m y hj
  · -- the others do not have this thread
    have hcases (j : ι) (m : ℕ) (y : CheckpointThread)
        (hj : ((d.set i p' c').locals j).thread = some (m, y)) :
        j = i ∧ m = k ∨ j ≠ i ∧ m ≠ k ∧ (d.locals j).thread = some (m, y) := by
      by_cases hji : j = i
      · subst hji
        rw [Config.set_locals_self, hthread] at hj
        exact .inl ⟨rfl, (Prod.mk.inj (Option.some.inj hj)).1.symm⟩
      · rw [Config.set_locals_ne d p' c' hji] at hj
        refine .inr ⟨hji, ?_, hj⟩
        rintro rfl
        exact hfree j y hj
    intro j j' m y z hj hj'
    rcases hcases j m y hj with ⟨rfl, rfl⟩ | ⟨-, hm, hj⟩
    · rcases hcases j' m z hj' with ⟨rfl, -⟩ | ⟨-, hm, -⟩
      · rfl
      · exact absurd rfl hm
    · rcases hcases j' m z hj' with ⟨-, rfl⟩ | ⟨-, -, hj'⟩
      · exact absurd rfl hm
      · exact h.one j j' m y z hj hj'

/-- **Every step keeps it.** -/
theorem PoolSystem.Held.step {d : PoolSystem ι} (h : d.Held) {i : ι}
    (hstep : PoolStep interval d.shared (d.locals i) p' c') : PoolSystem.Held (d.set i p' c') := by
  rcases hstep.threads with ⟨hsame, hthread⟩ | ⟨job, hnone, hnew, hthread⟩ |
    ⟨k, job, hnone, hget, hset, hthread⟩ | ⟨k, job, hmark, hthread⟩
  · refine h.release (fun j _ k x hj ↦ hsame ▸ h.knows j k x hj) (fun k x hx ↦ ?_) hthread
    rcases hthread with hold | hnone
    · exact hsame ▸ h.knows i k x (hold ▸ hx)
    · rw [hnone] at hx
      cases hx
  · -- the new thread has a number that no thread had
    refine h.acquire (fun j y hj ↦ ?_) (fun m hm ↦ ?_) ?_ hthread
    · have := List.getElem?_eq_some_iff.mp (h.knows j _ y hj)
      exact absurd this.choose (lt_irrefl _)
    · rw [hnew]
      rcases lt_or_gt_of_ne hm with hlt | hgt
      · exact List.getElem?_append_left hlt
      · rw [List.getElem?_eq_none hgt.le, List.getElem?_eq_none]
        rw [List.length_append, List.length_singleton]
        omega
    · rw [hnew, List.getElem?_concat_length]
  · -- it had been started, and whoever has a thread knows of another state
    obtain ⟨hk, -⟩ := List.getElem?_eq_some_iff.mp hget
    refine h.acquire (fun j y hj ↦ ?_) (fun m hm ↦ ?_) ?_ hthread
    · obtain rfl := Option.some.inj (hget.symm.trans (h.knows j k y hj))
      generalize d.locals j = x at hj
      cases x <;> simp [PoolCall.thread] at hj
    · rw [hset, List.getElem?_set_ne hm.symm]
    · rw [hset, List.getElem?_set_self hk]
  · obtain ⟨x, y, hx, hset⟩ : ∃ x y, (d.locals i).thread = some (k, x) ∧
        p'.threads = d.shared.threads.set k y :=
      hmark.elim (fun h ↦ ⟨_, _, h⟩) fun h ↦ ⟨_, _, h⟩
    refine h.release (fun j hji m z hj ↦ ?_) (by simp [PoolCall.Knows, hthread]) (.inr hthread)
    have hm : m ≠ k := by
      rintro rfl
      exact hji (h.one j i m z x hj hx)
    rw [hset, List.getElem?_set_ne hm.symm]
    exact h.knows j m z hj

theorem PoolSystem.held {st : Store} {c : PoolSystem ι}
    (h : Steps (PoolStep interval) (PoolSystem.init ι st) c) : c.Held := by
  refine h.invariant (fun _ _ _ _ hd hstep ↦ hd.step hstep)
    ⟨fun _ _ _ hx ↦ ?_, fun _ _ _ _ _ hx ↦ ?_⟩
  · cases hx
  · cases hx

/-! ## It is the same process -/

/-- What a thread is doing, as far as the process is concerned. -/
def PoolCall.toProcessCall : PoolCall → ProcessCall
  | .call c => c
  | .starting row _ => .append (.returned row)
  | .compacting _ job c => .compacting job c
  | .startRaised | .joining _ _ _ | .waited _ _ | .waitRaised => .idle

/-- The process without the waiting. -/
def PoolSystem.system (c : PoolSystem ι) : ProcessSystem ι :=
  c.map CheckpointPool.process PoolCall.toProcessCall

/-- The compactions that have yet to begin, before and after thread `k` has changed its state. -/
theorem CheckpointPool.spawned_mark {k : ℕ} {job : CheckpointJob} {x y : ThreadStatus}
    (h : p.threads[k]? = some ⟨job, x⟩) : ∃ jobs jobs' : List CheckpointJob,
      p.process.spawned = jobs ++ (if x.waits then [job] else []) ++ jobs' ∧
      (p.mark k job y).process.spawned = jobs ++ (if y.waits then [job] else []) ++ jobs' := by
  obtain ⟨hk, hget⟩ := List.getElem?_eq_some_iff.mp h
  refine ⟨((p.threads.take k).filter (·.status.waits)).map (·.job),
    ((p.threads.drop (k + 1)).filter (·.status.waits)).map (·.job), ?_, ?_⟩
  · have hsplit : p.threads = p.threads.take k ++ ⟨job, x⟩ :: p.threads.drop (k + 1) := by
      rw [← hget, List.getElem_cons_drop, List.take_append_drop]
    conv_lhs => rw [process, hsplit]
    cases hx : x.waits <;> simp [hx]
  · rw [process, mark, List.set_eq_take_append_cons_drop, if_pos hk]
    cases hy : y.waits <;> simp [hy]

theorem CheckpointPool.spawned_mark_eq {k : ℕ} {job : CheckpointJob} {x y : ThreadStatus}
    (h : p.threads[k]? = some ⟨job, x⟩) (hxy : y.waits = x.waits) :
    (p.mark k job y).process = p.process := by
  obtain ⟨jobs, jobs', hold, hnew⟩ := p.spawned_mark (y := y) h
  have hsame : (p.mark k job y).process.spawned = p.process.spawned := by rw [hnew, hold, hxy]
  exact congrArg (Process.mk p.store p.lastCheckpointVersionCache) hsame

/-- What raises is an append before its commit, or a compaction for which another one has inserted
the row of its version. -/
def PoolCall.Excused (p : CheckpointPool) : PoolCall → PoolCall → Prop
  | .compacting _ _ x, .compacting _ _ .raised => x.Conflicts p.store
  | .call (.append (.committed _)), .call (.append (.raised _)) => False
  | .call (.missed _), .call (.append (.raised _)) => False
  | _, _ => True

/-- A step in which nothing else raises. -/
def SoundStep (interval : ℤ) (p : CheckpointPool) (c : PoolCall) (p' : CheckpointPool)
    (c' : PoolCall) : Prop := PoolStep interval p c p' c' ∧ c.Excused p c'

theorem PoolSystem.pool_steps {c d : PoolSystem ι} (h : Steps (SoundStep interval) c d) :
    Steps (PoolStep interval) c d := h.mono fun _ _ _ _ hstep ↦ hstep.1

/-- **The steps are those of the process**, or nothing that it can see. -/
theorem SoundStep.simulates (h : SoundStep interval p c p' c') (hc : c.Knows p) :
    ProcessStep interval p.process c.toProcessCall p'.process c'.toProcessCall ∨
      p'.process = p.process ∧ c'.toProcessCall = c.toProcessCall := by
  obtain ⟨h, hexcused⟩ := h
  cases h with
  | @other q x x' h hspawned =>
    have hq : (p.withProcess q).process = q := by
      obtain ⟨store, cache, spawned⟩ := q
      exact congrArg (Process.mk store cache) hspawned.symm
    rw [hq]
    exact .inl h
  | @spawn row last h =>
    have hspawned : (p.spawn ⟨row.streamId, row.version⟩).process =
        { p.process with spawned := p.process.spawned ++ [⟨row.streamId, row.version⟩] } := by
      simp [CheckpointPool.process, CheckpointPool.spawn, ThreadStatus.waits]
    rw [hspawned]
    exact .inl (.spawn h)
  | @start row k => exact .inr ⟨p.spawned_mark_eq (hc k _ rfl) rfl, rfl⟩
  | startError => exact .inl (.stop rfl)
  | @run k job h =>
    obtain ⟨jobs, jobs', hold, hnew⟩ := p.spawned_mark (y := .running) h
    have hprocess : (p.mark k job .running).process =
        { p.process with spawned := jobs ++ jobs' } := by
      refine congrArg (Process.mk p.store p.lastCheckpointVersionCache) (hnew.trans ?_)
      simp [ThreadStatus.waits]
    rw [hprocess]
    refine .inl (.run (hold.trans ?_))
    simp [ThreadStatus.waits]
  | compact h =>
    refine .inl (.compact h ?_)
    rintro rfl
    exact hexcused
  | appendError h => rcases h with rfl | rfl <;> exact hexcused.elim
  | @advance k job ck =>
    have hsame := (p.withProcess (p.process.cache job.streamId job.latestVersion)).spawned_mark_eq
      (y := .ended) (hc k _ rfl) rfl
    rw [hsame]
    exact .inl .advance
  | @warn k job =>
    rw [p.spawned_mark_eq (y := .ended) (hc k _ rfl) rfl]
    exact .inl .warn
  | hangUp h => rcases h with rfl | rfl | ⟨taken, timedOut, rfl⟩ <;> exact .inr ⟨rfl, rfl⟩
  | wait | join | timeout | joinError | done => exact .inr ⟨rfl, rfl⟩

theorem PoolSystem.system_steps {st : Store} {c : PoolSystem ι}
    (h : Steps (SoundStep interval) (PoolSystem.init ι st) c) :
    Steps (ProcessStep interval) (ProcessSystem.init ι st) c.system :=
  Steps.map (fun _ _ _ _ ht ↦ ht.1.simulates ht.2)
    (h.strengthen fun _ hd i ↦ (PoolSystem.held (PoolSystem.pool_steps hd)).knows i)

/-! ## Threads that have ended -/

/-- A thread keeps its number and its job, and when it has ended, its state. -/
theorem PoolStep.thread_mono (h : PoolStep interval p c p' c') (hc : c.Knows p) {k : ℕ}
    {x : CheckpointThread} (hk : p.threads[k]? = some x) :
    ∃ y, p'.threads[k]? = some y ∧ y.job = x.job ∧ (x.status = .ended → y = x) := by
  obtain ⟨hlt, -⟩ := List.getElem?_eq_some_iff.mp hk
  -- a thread that is set to another state has not ended
  have hset {m : ℕ} {job : CheckpointJob} {a b : ThreadStatus}
      (hm : p.threads[m]? = some ⟨job, a⟩) (ha : a ≠ .ended)
      (hp' : p'.threads = p.threads.set m ⟨job, b⟩) :
      ∃ y, p'.threads[k]? = some y ∧ y.job = x.job ∧ (x.status = .ended → y = x) := by
    rw [hp']
    by_cases hmk : m = k
    · subst hmk
      obtain rfl := Option.some.inj (hm.symm.trans hk)
      exact ⟨_, List.getElem?_set_self hlt, rfl, fun hended ↦ absurd hended ha⟩
    · exact ⟨x, by rw [List.getElem?_set_ne hmk, hk], rfl, fun _ ↦ rfl⟩
  rcases h.threads with ⟨hsame, -⟩ | ⟨job, -, hnew, -⟩ | ⟨m, job, -, hm, hp', -⟩ |
    ⟨m, job, ⟨hm, hp'⟩ | ⟨hm, hp'⟩, -⟩
  · exact ⟨x, hsame ▸ hk, rfl, fun _ ↦ rfl⟩
  · exact ⟨x, by rw [hnew, List.getElem?_append_left hlt, hk], rfl, fun _ ↦ rfl⟩
  · exact hset hm ThreadStatus.noConfusion hp'
  · exact hset (hc m _ hm) ThreadStatus.noConfusion hp'
  · exact hset (hc m _ hm) ThreadStatus.noConfusion hp'

theorem PoolSystem.thread_mono {st : Store} {c d : PoolSystem ι}
    (hc : Steps (PoolStep interval) (PoolSystem.init ι st) c) (h : Steps (PoolStep interval) c d)
    {k : ℕ} {x : CheckpointThread} (hk : c.shared.threads[k]? = some x) :
    ∃ y, d.shared.threads[k]? = some y ∧ y.job = x.job := by
  induction h with
  | refl => exact ⟨x, hk, rfl⟩
  | @tail d e hcd hde ih =>
    obtain ⟨i, p', c', hstep, rfl⟩ := hde
    obtain ⟨y, hy, hjob⟩ := ih
    have hknows := (PoolSystem.held (Relation.ReflTransGen.trans hc hcd)).knows i
    obtain ⟨z, hz, hjob', -⟩ := hstep.thread_mono hknows hy
    exact ⟨z, hz, hjob'.trans hjob⟩

/-- The thread has ended. -/
def CheckpointPool.Ended (p : CheckpointPool) (k : ℕ) : Prop :=
  ∃ job, p.threads[k]? = some ⟨job, .ended⟩

/-- It stays so. -/
theorem PoolStep.ended_mono (h : PoolStep interval p c p' c') (hc : c.Knows p) {k : ℕ}
    (hk : p.Ended k) : p'.Ended k := by
  obtain ⟨job, hget⟩ := hk
  obtain ⟨y, hy, -, hsame⟩ := h.thread_mono hc hget
  exact ⟨job, hsame rfl ▸ hy⟩

/-- A thread ends when its compaction has returned or raised. -/
theorem PoolStep.ended (h : PoolStep interval p c p' c') (hc : c.toProcessCall.Ok p.store) {k : ℕ}
    {job : CheckpointJob} (hk : p'.threads[k]? = some ⟨job, .ended⟩) :
    p.threads[k]? = some ⟨job, .ended⟩ ∨ p.store.Covers job.streamId job.latestVersion := by
  have hmark {m : ℕ} {job' : CheckpointJob} {x : ThreadStatus}
      (hp' : p'.threads = p.threads.set m ⟨job', x⟩) :
      p.threads[k]? = some ⟨job, .ended⟩ ∨ job' = job ∧ x = .ended := by
    rw [hp', List.getElem?_set] at hk
    split_ifs at hk with hmk hlt
    · exact .inr (CheckpointThread.mk.inj (Option.some.inj hk))
    · exact .inl hk
  cases h with
  | @spawn row last =>
    change (p.threads ++ [_])[k]? = _ at hk
    rw [List.getElem?_append] at hk
    split_ifs at hk with hlt
    · exact .inl hk
    · have hmem := List.mem_of_getElem? hk
      simp at hmem
  | start => exact .inl ((hmark rfl).resolve_right fun h ↦ ThreadStatus.noConfusion h.2)
  | run => exact .inl ((hmark rfl).resolve_right fun h ↦ ThreadStatus.noConfusion h.2)
  | advance | warn =>
    rcases hmark rfl with hsame | ⟨rfl, -⟩
    · exact .inl hsame
    · exact .inr hc
  | _ => exact .inl hk

/-- The store only grows. -/
theorem PoolSystem.grows {st : Store} (hst : st.CheckpointsBounded) {c d : PoolSystem ι}
    (hc : Steps (SoundStep interval) (PoolSystem.init ι st) c)
    (h : Steps (SoundStep interval) c d) : c.shared.store.Grows d.shared.store := by
  refine h.rely (R := fun p p' ↦ p.store.Grows p'.store) (fun _ ↦ .refl _)
    (fun _ _ _ ↦ Store.Grows.trans _ _ _) fun e i p' c' he hstep ↦ ?_
  have hrun := Relation.ReflTransGen.trans hc he
  obtain ⟨hp, hlocals⟩ := ProcessSystem.ok hst (PoolSystem.system_steps hrun)
  rcases hstep.simulates ((PoolSystem.held (PoolSystem.pool_steps hrun)).knows i) with
    hsim | ⟨hsame, -⟩
  · exact (hsim.ok hp (hlocals i)).1
  · rw [show p'.store = e.shared.store from congrArg Process.store hsame]
    exact .refl _

/-- **What a thread that has ended was for is covered.** -/
theorem PoolSystem.covers_of_ended {st : Store} (hst : st.CheckpointsBounded) {c : PoolSystem ι}
    (h : Steps (SoundStep interval) (PoolSystem.init ι st) c) {k : ℕ} {job : CheckpointJob}
    (hk : c.shared.threads[k]? = some ⟨job, .ended⟩) :
    c.shared.store.Covers job.streamId job.latestVersion := by
  induction h generalizing k job with
  | refl => cases hk
  | @tail d e hcd hde ih =>
    obtain ⟨i, p', c', hstep, rfl⟩ := hde
    obtain ⟨-, hlocals⟩ := ProcessSystem.ok hst (PoolSystem.system_steps hcd)
    have hgrows : d.shared.store.Grows p'.store :=
      PoolSystem.grows hst hcd (Steps.thread .refl i hstep)
    rcases hstep.1.ended (hlocals i) hk with hbefore | hcovers
    · exact (ih hbefore).mono hgrows
    · exact hcovers.mono hgrows

/-! ## No thread gets lost -/

/-- A step in which, besides, no wait runs out of time or raises. -/
def PatientStep (interval : ℤ) (p : CheckpointPool) (c : PoolCall) (p' : CheckpointPool)
    (c' : PoolCall) : Prop :=
  SoundStep interval p c p' c' ∧ c' ≠ .waitRaised ∧ ∀ taken left, c' ≠ .joining taken left true

theorem PoolSystem.sound_steps {c d : PoolSystem ι} (h : Steps (PatientStep interval) c d) :
    Steps (SoundStep interval) c d := h.mono fun _ _ _ _ hstep ↦ hstep.1

/-- Thread `k`, if there is one, is in the list or has ended. -/
def CheckpointPool.Settled (k : ℕ) (p : CheckpointPool) : Prop :=
  ∀ x, p.threads[k]? = some x → x.status ≠ .ended → k ∈ p.pending

/-- The call is about to join thread `k`. -/
def PoolCall.Joins (k : ℕ) (c : PoolCall) : Prop :=
  ∃ taken left timedOut, c = .joining taken left timedOut ∧ k ∈ left

/-- **One step does not lose a thread**: who takes it out of the list has it to join. -/
theorem PatientStep.settled (h : PatientStep interval p c p' c') (hc : c.Knows p) {k : ℕ}
    (hk : p.Settled k ∨ c.Joins k) : p'.Settled k ∨ c'.Joins k := by
  obtain ⟨⟨hstep, -⟩, hraised, htimeout⟩ := h
  -- a thread that is set to another state had not ended before
  have hmark {m : ℕ} {x y : CheckpointThread} (hm : p.threads[m]? = some x)
      (hx : x.status ≠ .ended) (hp' : p'.threads = p.threads.set m y)
      (hpending : p'.pending = p.pending) (hold : p.Settled k) : p'.Settled k := by
    intro z hz hstatus
    rw [hpending]
    by_cases hmk : m = k
    · exact hold x (hmk ▸ hm) hx
    · rw [hp', List.getElem?_set_ne hmk] at hz
      exact hold z hz hstatus
  have hold (hne : ∀ taken left timedOut, c ≠ .joining taken left timedOut) : p.Settled k :=
    hk.resolve_right fun ⟨_, _, _, heq, _⟩ ↦ hne _ _ _ heq
  cases hstep with
  | other | compact | appendError | startError => exact .inl (hold nofun)
  | spawn =>
    refine .inl fun x hx hstatus ↦ ?_
    change (p.threads ++ [_])[k]? = some x at hx
    rw [List.getElem?_append] at hx
    split_ifs at hx with hlt
    · exact List.mem_append_left _ (hold nofun x hx hstatus)
    · have hzero := (List.getElem?_eq_some_iff.mp hx).choose
      rw [List.length_singleton] at hzero
      obtain rfl : k = p.threads.length := by omega
      exact List.mem_append_right _ (List.mem_singleton_self _)
  | start => exact .inl (hmark (hc _ _ rfl) ThreadStatus.noConfusion rfl rfl (hold nofun))
  | run hget => exact .inl (hmark hget ThreadStatus.noConfusion rfl rfl (hold nofun))
  | advance => exact .inl (hmark (hc _ _ rfl) ThreadStatus.noConfusion rfl rfl (hold nofun))
  | warn => exact .inl (hmark (hc _ _ rfl) ThreadStatus.noConfusion rfl rfl (hold nofun))
  | wait =>
    by_cases hmem : k ∈ p.pending
    · exact .inr ⟨_, _, _, rfl, hmem⟩
    · exact .inl fun x hx hstatus ↦ absurd (hold nofun x hx hstatus) hmem
  | @join m taken left timedOut job hget =>
    rcases hk with hk | ⟨_, _, _, heq, hmem⟩
    · exact .inl hk
    · obtain ⟨rfl, rfl, rfl⟩ := PoolCall.joining.inj heq
      rcases List.mem_cons.mp hmem with rfl | hmem
      · exact .inl fun x hx hstatus ↦
          absurd (Option.some.inj (hget.symm.trans hx) ▸ rfl) hstatus
      · exact .inr ⟨_, _, _, rfl, hmem⟩
  | timeout => exact absurd rfl (htimeout _ _)
  | joinError => exact absurd rfl hraised
  | done =>
    rcases hk with hk | ⟨_, _, _, heq, hmem⟩
    · exact .inl hk
    · obtain ⟨-, rfl, -⟩ := PoolCall.joining.inj heq
      cases hmem
  | hangUp h =>
    refine .inl (hold ?_)
    rintro taken left timedOut rfl
    simp at h

theorem PoolSystem.settled {st : Store} {c : PoolSystem ι}
    (h : Steps (PatientStep interval) (PoolSystem.init ι st) c) (k : ℕ) :
    Attended (CheckpointPool.Settled k) (PoolCall.Joins k) c := by
  induction h with
  | refl => exact .inl fun x hx ↦ by cases hx
  | @tail d e hcd hde ih =>
    obtain ⟨i, p', c', hstep, rfl⟩ := hde
    have hknows := (PoolSystem.held (PoolSystem.pool_steps (PoolSystem.sound_steps hcd))).knows i
    exact ih.set (hstep.settled hknows)

/-- **A wait that returns has joined all the threads it has taken.** -/
theorem PoolSystem.joined {st : Store} {c d : PoolSystem ι}
    (hc : Steps (PoolStep interval) (PoolSystem.init ι st) c) {i : ι} {taken : List ℕ}
    (hi : c.locals i = .joining taken taken false) (hrun : Steps (PatientStep interval) c d)
    (hd : ∀ left, d.locals i ≠ .joining taken left false) : ∀ k ∈ taken, d.shared.Ended k := by
  have hpool {e : PoolSystem ι} (he : Steps (PatientStep interval) c e) :
      Steps (PoolStep interval) (PoolSystem.init ι st) e :=
    Relation.ReflTransGen.trans hc (PoolSystem.pool_steps (PoolSystem.sound_steps he))
  suffices h : (∃ left, d.locals i = .joining taken left false ∧
      ∀ k ∈ taken, k ∈ left ∨ d.shared.Ended k) ∨ ∀ k ∈ taken, d.shared.Ended k from
    h.resolve_left fun ⟨left, hleft, _⟩ ↦ hd left hleft
  refine hrun.follow (M := fun p x ↦ (∃ left, x = .joining taken left false ∧
    ∀ k ∈ taken, k ∈ left ∨ p.Ended k) ∨ ∀ k ∈ taken, p.Ended k) i ?_ ?_
    (.inl ⟨taken, hi, fun k hk ↦ .inl hk⟩)
  · rintro e p' c' he (⟨left, hleft, hall⟩ | hall) ⟨⟨hstep, -⟩, hraised, htimeout⟩
    · rw [hleft] at hstep
      cases hstep with
      | join hget =>
        refine .inl ⟨_, rfl, fun k hk ↦ (hall k hk).elim (fun hmem ↦ ?_) .inr⟩
        exact (List.mem_cons.mp hmem).elim (fun heq ↦ .inr ⟨_, heq ▸ hget⟩) .inl
      | timeout => exact absurd rfl (htimeout _ _)
      | joinError => exact absurd rfl hraised
      | done => exact .inr fun k hk ↦ (hall k hk).resolve_left List.not_mem_nil
      | hangUp h => simp at h
    · exact .inr fun k hk ↦ hstep.ended_mono ((PoolSystem.held (hpool he)).knows i) (hall k hk)
  · rintro e j p' c' he hall ⟨⟨hstep, -⟩, -⟩
    have hmono {k : ℕ} (hk : e.shared.Ended k) : p'.Ended k :=
      hstep.ended_mono ((PoolSystem.held (hpool he)).knows j) hk
    exact hall.imp (fun ⟨left, hleft, hall⟩ ↦
      ⟨left, hleft, fun k hk ↦ (hall k hk).imp_right hmono⟩) fun hall k hk ↦ hmono (hall k hk)

/-! ## What a wait is for -/

/-- An append to the stream has committed and has yet to see whether a checkpoint is due. -/
def PoolCall.Checks (s : Str) (c : PoolCall) : Prop :=
  ∃ x v, c = .call x ∧ x.job = some ⟨s, v⟩

/-- **What `wait_for_pending_checkpoints` is for.**  Take a run of a process that has started on a
store whose checkpoints did not lag behind, in which no append raises after its commit, no
compaction fails except that another one has inserted the row of its version, and no wait runs out
of time or raises; and in it a wait that begins when no other one is under way.  When it has
returned, the last checkpoint of every stream is at the last multiple of the interval, or beyond it,
that the stream had reached when the wait began, unless an append to the stream had committed by
then but had yet to see whether a checkpoint is due. -/
theorem pending_checkpoints_landed (hinterval : 1 ≤ interval) {st : Store}
    (hst : st.CaughtUp interval) {c d : PoolSystem ι} {i : ι}
    (hc : Steps (PatientStep interval) (PoolSystem.init ι st) c)
    (halone : ∀ j taken left timedOut, c.locals j ≠ .joining taken left timedOut)
    (hi : c.locals i = .call .idle)
    (hrun : Steps (PatientStep interval) (c.set i { c.shared with pending := [] }
      (.joining c.shared.pending c.shared.pending false)) d)
    (hd : ∀ left, d.locals i ≠ .joining c.shared.pending left false) {s : Str}
    (hchecked : ∀ j, ¬(c.locals j).Checks s) :
    interval * ((c.shared.store.maxVersion s).getD 0 / interval) ≤
      loadLastCheckpointVersion d.shared.store s := by
  have hsound := PoolSystem.sound_steps hc
  have hwait : Steps (SoundStep interval) (PoolSystem.init ι st)
      (c.set i { c.shared with pending := [] }
        (.joining c.shared.pending c.shared.pending false)) :=
    hsound.thread i (hi ▸ ⟨.wait, trivial⟩)
  have hend := Relation.ReflTransGen.trans hwait (PoolSystem.sound_steps hrun)
  have hbounded := hst.toCheckpointsBounded
  obtain ⟨hp, -⟩ := ProcessSystem.ok hbounded (PoolSystem.system_steps hsound)
  obtain ⟨hp', -⟩ := ProcessSystem.ok hbounded (PoolSystem.system_steps hend)
  have hmiddle := Relation.ReflTransGen.trans
    (Steps.thread .refl i (hi ▸ ⟨.wait, trivial⟩)) (PoolSystem.sound_steps hrun)
  have hgrows := PoolSystem.grows hbounded hsound hmiddle
  -- whatever has not ended when the wait begins is taken, and has ended when it returns
  have hjob {k : ℕ} {x : CheckpointThread} (hx : c.shared.threads[k]? = some x) :
      d.shared.store.Covers x.job.streamId x.job.latestVersion := by
    by_cases hended : x.status = .ended
    · obtain ⟨job, status⟩ := x
      subst hended
      exact (PoolSystem.covers_of_ended hbounded hsound hx).mono hgrows
    · have hmem : k ∈ c.shared.pending := by
        rcases PoolSystem.settled hc k with hk | ⟨j, taken, left, timedOut, hj, -⟩
        · exact hk x hx hended
        · exact absurd hj (halone j taken left timedOut)
      obtain ⟨job, hget⟩ := PoolSystem.joined (PoolSystem.pool_steps hwait)
        (Config.set_locals_self _ _ _ _) hrun hd k hmem
      obtain ⟨y, hy, hsame⟩ := PoolSystem.thread_mono (PoolSystem.pool_steps hsound)
        (PoolSystem.pool_steps hmiddle) hx
      obtain rfl := Option.some.inj (hget.symm.trans hy)
      exact hsame ▸ PoolSystem.covers_of_ended hbounded hend hget
  have hlen : (c.shared.store.maxVersion s).getD 0 = (c.shared.store.stream s).length :=
    (hp.store.log s).numbered.max?_getD
  refine hp'.store.covers_iff.mp ?_
  have hle : interval * ((c.shared.store.maxVersion s).getD 0 / interval) ≤
      (c.shared.store.stream s).length := by
    rw [hlen]
    exact Int.mul_ediv_self_le (by omega)
  rcases ProcessSystem.attended hinterval hst (PoolSystem.system_steps hsound)
    (Int.mul_emod_right ..) hle with (hcovers | hspawned) | ⟨j, hj⟩
  · exact hcovers.mono hgrows
  · obtain ⟨x, hx, hxjob⟩ := List.mem_map.mp hspawned
    obtain ⟨k, hk⟩ := List.mem_iff_getElem?.mp (List.mem_filter.mp hx).1
    have hcovers := hjob hk
    rwa [hxjob] at hcovers
  · have hknows := (PoolSystem.held (PoolSystem.pool_steps hsound)).knows j
    change (c.locals j).toProcessCall.job = _ at hj
    generalize hcall : c.locals j = x at hj hknows
    cases x with
    | call x => exact absurd ⟨x, _, hcall, hj⟩ (hchecked j)
    | compacting k job x =>
      have hcovers := hjob (hknows k _ rfl)
      rwa [Option.some.inj hj] at hcovers
    | _ => cases hj

/-! ### One checkpoint

One thread appends and then waits, another one makes the checkpoint.
-/

/-- The first append has committed and has found that a checkpoint is due. -/
theorem exists_checking : ∃ (cache : Str → Option ℤ) (locals : Bool → PoolCall),
    Steps (fun p x p' x' ↦ PatientStep 1 p x p' x' ∧ x' ≠ .startRaised)
      (PoolSystem.init Bool raceStart) ⟨⟨raceMiddle, cache, [], []⟩, locals⟩ ∧
      locals false = .call (.checking firstRow.column 0) ∧ locals true = .call .idle := by
  let t := spanTask []
  let smooth (p : CheckpointPool) (x : PoolCall) (p' : CheckpointPool) (x' : PoolCall) : Prop :=
    PatientStep 1 p x p' x' ∧ x' ≠ .startRaised
  have hother {d : PoolSystem Bool} {q : Process} {x x' : ProcessCall}
      (h : Steps smooth (PoolSystem.init Bool raceStart) d) (hd : d.locals false = .call x)
      (ht : ProcessStep 1 d.shared.process x q x')
      (hexcused : PoolCall.Excused d.shared (.call x) (.call x'))
      (hspawned : q.spawned = d.shared.process.spawned)
      (hcompact : ∀ job y, x ≠ .compacting job y) :
      Steps smooth (PoolSystem.init Bool raceStart)
        (d.set false (d.shared.withProcess q) (.call x')) :=
    h.thread false ⟨⟨hd ▸ ⟨.other ht hspawned hcompact, hexcused⟩, nofun, nofun⟩, nofun⟩
  have hmask : AppendStep raceStart (.called (spanArgs [])) raceStart (.ready t 0) :=
    .mask (fun p ↦ .ok (.dict p)) rfl
  have hversion : AppendStep raceStart (.ready t 0) raceStart (.versioned t 0 1) :=
    .readVersion (by decide)
  have hprev : AppendStep raceStart (.versioned t 0 1) raceStart (.linked t 0 1 none) :=
    .readPrev rfl
  have hcommit : AppendStep raceStart (.stamped t 0 1 none noon) raceMiddle
    (.committed firstRow.column) := .commit rfl
  have h0 : Steps smooth (PoolSystem.init Bool raceStart) _ := .refl
  have h1 := hother h0 rfl (.start (spanArgs [])) trivial rfl nofun
  have h2 := hother h1 rfl (.append hmask nofun) trivial rfl nofun
  have h3 := hother h2 rfl (.append hversion nofun) trivial rfl nofun
  have h4 := hother h3 rfl (.append hprev nofun) trivial rfl nofun
  have h5 := hother h4 rfl (.append (.stamp noon) nofun) trivial rfl nofun
  have h6 := hother h5 rfl (.append hcommit nofun) trivial rfl nofun
  have h7 := hother h6 rfl (.miss rfl) trivial rfl nofun
  have h8 := hother h7 rfl .load trivial rfl nofun
  have h9 := hother h8 rfl .fill trivial rfl nofun
  exact ⟨_, _, h9, rfl, rfl⟩

/-- The append returns, and its thread waits for the checkpoint. -/
theorem pending_checkpoints_landed_first : ∃ c d : PoolSystem Bool,
    c.shared.store.checkpoints = [] ∧ c.shared.pending = [0] ∧
      1 ≤ loadLastCheckpointVersion d.shared.store "spans".toList := by
  let spans : Str := "spans".toList
  let path := firstCheckpoint.filePath
  let job : CheckpointJob := ⟨spans, 1⟩
  let writtenStore := raceMiddle.writeFile path [firstRow.column.toStreamRow]
  obtain ⟨cache, locals, h, hfalse, htrue⟩ := exists_checking
  have hlast : (raceMiddle.selectStream spans).getLast? = some firstRow.column := rfl
  have hread : CompactStep raceMiddle (.called spans) raceMiddle
    (.read spans 1 [firstRow.column]) := .read hlast
  have hwrite : CompactStep raceMiddle (.planned spans 1 [firstRow.column]) writtenStore
    (.written spans 1 [firstRow.column] path) := .write .default
  have hinsert : CompactStep writtenStore (.written spans 1 [firstRow.column] path) compactedStore
    (.committed firstCheckpoint) := .insert noon rfl
  have hcompact {d e : PoolSystem Bool} {x x' : CompactCall} {st' : Store}
      (h : Steps (PatientStep 1) d e) (he : e.locals true = .compacting 0 job x)
      (ht : CompactStep e.shared.store x st' x') (hx : x' ≠ .raised) :
      Steps (PatientStep 1) d
        (e.set true { e.shared with store := st' } (.compacting 0 job x')) :=
    h.threadAt true he ⟨⟨.compact ht, by cases x' <;> trivial⟩,
      nofun, nofun⟩
  have hjoin {p : CheckpointPool} (h : p.threads[0]? = some ⟨job, .ended⟩) :
    PoolStep 1 p (.joining [0] [0] false) p (.joining [0] [] false) := .join h
  -- the append
  have h0 := Steps.mono (fun _ _ _ _ h ↦ h.1) h
  have h1 := h0.threadAt false hfalse ⟨⟨.spawn rfl, trivial⟩, nofun, nofun⟩
  have h2 := h1.threadAt false rfl ⟨⟨.start, trivial⟩, nofun, nofun⟩
  have h3 := h2.threadAt false rfl ⟨⟨.other (.stop rfl) rfl nofun, trivial⟩, nofun, nofun⟩
  let pool : CheckpointPool := ⟨raceMiddle, cache, [⟨job, .started⟩], [0]⟩
  obtain ⟨locals, hc, hidle⟩ : ∃ locals : Bool → PoolCall,
      Steps (PatientStep 1) (PoolSystem.init Bool raceStart) ⟨pool, locals⟩ ∧
        ∀ b, locals b = .call .idle := by
    refine ⟨_, h3, fun b ↦ ?_⟩
    cases b with
    | true => exact htrue
    | false => rfl
  -- the wait, and the checkpoint
  have h4 : Steps (PatientStep 1) (Config.set ⟨pool, locals⟩ false { pool with pending := [] }
    (.joining [0] [0] false)) _ := .refl
  have h5 := h4.threadAt true (hidle true) ⟨⟨.run (k := 0) rfl, trivial⟩, nofun, nofun⟩
  have h6 := hcompact h5 rfl hread nofun
  have h7 := hcompact h6 rfl (.plan rfl) nofun
  have h8 := hcompact h7 rfl hwrite nofun
  have h9 := hcompact h8 rfl hinsert nofun
  have h10 := hcompact h9 rfl .finish nofun
  have h11 := h10.threadAt true rfl ⟨⟨.advance, trivial⟩, nofun, nofun⟩
  have h12 := h11.threadAt false rfl ⟨⟨hjoin rfl, trivial⟩, nofun, nofun⟩
  have h13 := h12.threadAt false rfl ⟨⟨.done, trivial⟩, nofun, nofun⟩
  have hlanded := pending_checkpoints_landed (i := false) (s := spans) le_rfl
    (Store.caughtUp_create 1 _) hc (fun b ↦ by simp [hidle b]) (hidle false) h13 nofun
    (fun b ⟨x, v, hx, hjob⟩ ↦ by cases (hidle b).symm.trans hx; cases hjob)
  exact ⟨⟨pool, locals⟩, _, rfl, rfl, hlanded⟩

/-! ## When a wait raises -/

/-- A step in which a thread can be had whenever one is to be started. -/
def SteadyStep (interval : ℤ) (p : CheckpointPool) (c : PoolCall) (p' : CheckpointPool)
    (c' : PoolCall) : Prop := PoolStep interval p c p' c' ∧ c' ≠ .startRaised

/-- Thread `k`, if there is one, was started. -/
def CheckpointPool.Joinable (k : ℕ) (p : CheckpointPool) : Prop :=
  ∀ job, p.threads[k]? ≠ some ⟨job, .created⟩

/-- The call is about to start thread `k`. -/
def PoolCall.Starts (k : ℕ) (c : PoolCall) : Prop := ∃ row, c = .starting row k

/-- **Whoever has created a thread starts it**, unless no thread can be had. -/
theorem PoolStep.joinable (h : PoolStep interval p c p' c') (hraised : c' ≠ .startRaised) {k : ℕ}
    (hk : p.Joinable k ∨ c.Starts k) : p'.Joinable k ∨ c'.Starts k := by
  have hold (hne : ∀ row m, c ≠ .starting row m) : p.Joinable k :=
    hk.resolve_right fun ⟨_, heq⟩ ↦ hne _ _ heq
  have hmark {m : ℕ} {job : CheckpointJob} {x : ThreadStatus} (hx : x ≠ .created)
      (hm : m ≠ k → p.Joinable k) : (p.mark m job x).Joinable k := by
    intro job' hget
    change (p.threads.set m ⟨job, x⟩)[k]? = _ at hget
    rw [List.getElem?_set] at hget
    split_ifs at hget with hmk hlt
    · exact hx (CheckpointThread.mk.inj (Option.some.inj hget)).2
    · exact hm hmk job' hget
  cases h with
  | @spawn row =>
    by_cases hlen : k = p.threads.length
    · exact .inr ⟨row, by rw [hlen]⟩
    · refine .inl fun job hget ↦ ?_
      change (p.threads ++ [_])[k]? = _ at hget
      rcases lt_or_gt_of_ne hlen with hlt | hgt
      · exact hold nofun job ((List.getElem?_append_left hlt).symm.trans hget)
      · rw [List.getElem?_eq_none] at hget
        · cases hget
        · rw [List.length_append, List.length_singleton]
          omega
  | @start row m =>
    refine .inl (hmark ThreadStatus.noConfusion fun hm ↦ hk.resolve_right ?_)
    rintro ⟨row', heq⟩
    exact hm (PoolCall.starting.inj heq).2
  | startError => exact absurd rfl hraised
  | run => exact .inl (hmark ThreadStatus.noConfusion fun _ ↦ hold nofun)
  | advance => exact .inl (hmark ThreadStatus.noConfusion fun _ ↦ hold nofun)
  | warn => exact .inl (hmark ThreadStatus.noConfusion fun _ ↦ hold nofun)
  | hangUp h =>
    refine .inl (hold ?_)
    rintro row m rfl
    simp at h
  | _ => exact .inl (hold nofun)

/-- **When a wait raises.**  In a run in which every thread can be had, `RuntimeError` is raised by
a wait that gets to a thread between the moment when `_spawn_checkpoint` has put it into the list
and the moment when it starts it, and at no other time. -/
theorem join_raises_iff {st : Store} {d : PoolSystem ι}
    (h : Steps (SteadyStep interval) (PoolSystem.init ι st) d) {i : ι} {k : ℕ}
    {taken left : List ℕ} {timedOut : Bool}
    (hi : d.locals i = .joining taken (k :: left) timedOut) :
    (∃ p', PoolStep interval d.shared (d.locals i) p' .waitRaised) ↔
      ∃ j row, d.locals j = .starting row k := by
  have hattended : Attended (CheckpointPool.Joinable k) (PoolCall.Starts k) d := by
    refine h.invariant (I := Attended (CheckpointPool.Joinable k) (PoolCall.Starts k))
      (fun e j p' c' he hstep ↦ he.set (hstep.1.joinable hstep.2)) (.inl fun job hget ↦ ?_)
    cases hget
  constructor
  · rintro ⟨p', hstep⟩
    rw [hi] at hstep
    cases hstep with
    | joinError hget => exact hattended.resolve_left fun hk ↦ hk _ hget
  · rintro ⟨j, row, hj⟩
    have hknows := (PoolSystem.held (Steps.mono (fun _ _ _ _ h ↦ h.1) h)).knows j
    rw [hj] at hknows
    exact ⟨d.shared, by rw [hi]; exact .joinError (hknows k _ rfl)⟩

/-- A wait between the two. -/
theorem join_raises_before_start : ∃ d : PoolSystem Bool,
    d.locals true = .joining [0] [0] false ∧
      ∃ p', PoolStep 1 d.shared (d.locals true) p' .waitRaised := by
  obtain ⟨cache, locals, h, hfalse, htrue⟩ := exists_checking
  have h0 : Steps (SteadyStep 1) (PoolSystem.init Bool raceStart) _ :=
    Steps.mono (fun _ _ _ _ h ↦ ⟨h.1.1.1, h.2⟩) h
  have h1 := h0.threadAt false hfalse ⟨.spawn rfl, nofun⟩
  have h2 := h1.threadAt true htrue ⟨.wait, nofun⟩
  exact ⟨_, rfl, (join_raises_iff h2 rfl).mpr ⟨false, _, rfl⟩⟩

end WiseTraceLoom
