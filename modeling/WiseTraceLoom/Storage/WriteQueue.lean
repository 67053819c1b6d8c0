import WiseTraceLoom.Lib.LazyWorker
import WiseTraceLoom.Residency.Cache
import WiseTraceLoom.Residency.Checkpoints
import WiseTraceLoom.Storage.Contention

/-!
# `enqueue_append` and its worker

`enqueue_append` makes sure that a worker is running, resolves the engine and puts the append into
a bounded queue; if the queue is full, the append is dropped.  The worker takes one item after the
other and calls `append_commit`.  An append that fails is reported in a warning; if the warning
fails as well, the worker's thread ends, and the next caller starts another one.

`WriteStep` is one step of one thread.  Next to the callers and the workers there are threads that
work on any of the stores directly, with whatever calls (`SystemStep`).  Callers share the region
cache with whoever calls `resolve_engine` and `set_region_config` (`RegionStep`), and the tables
behind it may change at any time.

The check in `_ensure_write_worker` is made of two reads of `_write_worker_thread`, which is never
set back to `None`, and a call of `is_alive`.  Each is a step of its own.  The module
`Lib.LazyWorker` is about nothing else, and `WriteStep.role` says that these steps are the
protocol's there.
-/

set_option autoImplicit false

namespace WiseTraceLoom

open Interleaving

/-! ## The queue -/

/-- The arguments of `enqueue_append`. -/
structure EnqueueArgs where
  /-- The stream. -/
  streamId : Str
  /-- The kind of event. -/
  recordType : Str
  /-- The event. -/
  payload : Payload
  /-- The tenant. -/
  tenantId : Option Str

/-- An item of the queue.  The ticket is not in the code: it is the number of the `put_nowait`. -/
structure QueueItem extends EnqueueArgs where
  /-- The engine, given by the path of its file. -/
  engine : Str
  /-- The number of the `put_nowait`. -/
  ticket : ℕ

/-- What the worker calls `append_commit` with. -/
def QueueItem.args (e : QueueItem) : AppendArgs where
  streamId := e.streamId
  recordType := e.recordType
  payload := e.payload
  tenantId := e.tenantId

/-- How the worker's call of `append_commit` has ended. -/
inductive Outcome where
  /-- It has returned this row. -/
  | stored (row : StorageCommit)
  /-- It has raised an exception. -/
  | failed

/-- The bound of `_write_queue`. -/
def writeQueueMaxsize : ℕ := 10000

/-- What the threads share.  The last four fields are not in the code: they record what has become
of every item, and who has written each row. -/
structure WriteQueue where
  /-- The store behind each engine. -/
  stores : Str → Store
  /-- What `resolve_engine` depends on, and the region cache. -/
  regions : RegionCache
  /-- `_write_worker_thread`, `_write_worker_lock`, and what has become of the threads. -/
  worker : LazyWorker.State
  /-- The items of `_write_queue`. -/
  queue : List QueueItem
  /-- Its `unfinished_tasks`. -/
  unfinishedTasks : ℕ
  /-- The items that were put into the queue. -/
  accepted : List QueueItem
  /-- The items that found it full. -/
  refused : List QueueItem
  /-- The items the worker is done with. -/
  settled : List (QueueItem × Outcome)
  /-- The rows of each store, those the worker has written with the tickets of their items. -/
  written : Str → List (StorageCommit × Option ℕ)

namespace WriteQueue

/-- The number of the next `put_nowait`. -/
def nextTicket (w : WriteQueue) : ℕ := w.accepted.length + w.refused.length

/-- `put_nowait` with room in the queue. -/
def put (w : WriteQueue) (e : QueueItem) : WriteQueue :=
  { w with
    queue := w.queue ++ [e]
    unfinishedTasks := w.unfinishedTasks + 1
    accepted := w.accepted ++ [e] }

/-- `put_nowait` without. -/
def refuse (w : WriteQueue) (e : QueueItem) : WriteQueue := { w with refused := w.refused ++ [e] }

/-- `task_done`. -/
def taskDone (w : WriteQueue) (e : QueueItem) (o : Outcome) : WriteQueue :=
  { w with
    unfinishedTasks := w.unfinishedTasks - 1
    settled := w.settled ++ [(e, o)] }

/-- The state after somebody has made a step on the store behind an engine. -/
def after (w : WriteQueue) (engine : Str) (ticket : Option ℕ) (st' : Store) : WriteQueue :=
  { w with
    stores := Fleet.after w.stores engine st'
    written := Function.update w.written engine (w.written engine ++
      (st'.commits.drop (w.stores engine).commits.length).map fun row ↦ (row, ticket)) }

@[simp] theorem after_stores (w : WriteQueue) (engine : Str) (ticket : Option ℕ) (st' : Store) :
    (w.after engine ticket st').stores = Fleet.after w.stores engine st' := rfl

end WriteQueue

/-! ## `enqueue_append` -/

/-- Where a call of `enqueue_append` stands.  `inside` is whether it holds the lock. -/
inductive EnqueueCall where
  /-- Is about to read `_write_worker_thread`. -/
  | looking (a : EnqueueArgs) (inside : Bool)
  /-- It was not `None`. -/
  | seen (a : EnqueueArgs) (inside : Bool)
  /-- Is about to call `is_alive` of this thread. -/
  | loaded (a : EnqueueArgs) (inside : Bool) (k : ℕ)
  /-- Waits for the lock. -/
  | locking (a : EnqueueArgs)
  /-- Has found no live worker although it holds the lock. -/
  | creating (a : EnqueueArgs)
  /-- Has stored the new thread in `_write_worker_thread`. -/
  | assigned (a : EnqueueArgs) (k : ℕ)
  /-- In `thread.start()`. -/
  | starting (a : EnqueueArgs) (k : ℕ)
  /-- Leaves the `with` block, because of an exception or not. -/
  | leaving (a : EnqueueArgs) (exception : Bool)
  /-- After `_ensure_write_worker`. -/
  | ensured (a : EnqueueArgs)
  /-- In `resolve_engine`. -/
  | resolving (a : EnqueueArgs) (c : RegionCall)
  /-- After `resolve_engine`. -/
  | resolved (a : EnqueueArgs) (engine : Str)
  /-- The queue was full. -/
  | full (a : EnqueueArgs)
  | returned
  | raised

namespace EnqueueCall

/-- Where it goes when there is no live worker. -/
def dead (a : EnqueueArgs) : Bool → EnqueueCall
  | true => .creating a
  | false => .locking a

/-- Where it goes when there is one. -/
def alive (a : EnqueueArgs) : Bool → EnqueueCall
  | true => .leaving a false
  | false => .ensured a

/-- Where it goes when it has left the lock. -/
def left (a : EnqueueArgs) : Bool → EnqueueCall
  | true => .raised
  | false => .ensured a

/-- Has the call ended? -/
def ended : EnqueueCall → Bool
  | .returned | .raised => true
  | _ => false

end EnqueueCall

/-- One step of a call of `enqueue_append`. -/
inductive EnqueueStep : WriteQueue → EnqueueCall → WriteQueue → EnqueueCall → Prop
  | lookNone {w : WriteQueue} {a : EnqueueArgs} {inside : Bool} (h : w.worker.handle = none) :
      EnqueueStep w (.looking a inside) w (.dead a inside)
  | lookSome {w : WriteQueue} {a : EnqueueArgs} {inside : Bool} (h : w.worker.handle ≠ none) :
      EnqueueStep w (.looking a inside) w (.seen a inside)
  | load {w : WriteQueue} {a : EnqueueArgs} {inside : Bool} {k : ℕ}
      (h : w.worker.handle = some k) : EnqueueStep w (.seen a inside) w (.loaded a inside k)
  | alive {w : WriteQueue} {a : EnqueueArgs} {inside : Bool} {k : ℕ} (h : w.worker.IsAlive k) :
      EnqueueStep w (.loaded a inside k) w (.alive a inside)
  | dead {w : WriteQueue} {a : EnqueueArgs} {inside : Bool} {k : ℕ} (h : ¬w.worker.IsAlive k) :
      EnqueueStep w (.loaded a inside k) w (.dead a inside)
  | acquire {w : WriteQueue} {a : EnqueueArgs} (h : w.worker.locked = false) :
      EnqueueStep w (.locking a) { w with worker := { w.worker with locked := true } }
        (.looking a true)
  | create {w : WriteQueue} {a : EnqueueArgs} :
      EnqueueStep w (.creating a)
        { w with worker := { w.worker with
            handle := some w.worker.next
            next := w.worker.next + 1 } }
        (.assigned a w.worker.next)
  | launch {w : WriteQueue} {a : EnqueueArgs} {k : ℕ} :
      EnqueueStep w (.assigned a k) { w with worker := w.worker.mark k .launched } (.starting a k)
  /-- `thread.start()` cannot start a thread. -/
  | launchError {w : WriteQueue} {a : EnqueueArgs} {k : ℕ} :
      EnqueueStep w (.assigned a k) w (.leaving a true)
  /-- `thread.start()` returns when the thread runs. -/
  | launched {w : WriteQueue} {a : EnqueueArgs} {k : ℕ} (h : w.worker.status k ≠ .launched) :
      EnqueueStep w (.starting a k) w (.leaving a false)
  | release {w : WriteQueue} {a : EnqueueArgs} {exception : Bool} :
      EnqueueStep w (.leaving a exception) { w with worker := { w.worker with locked := false } }
        (.left a exception)
  | resolve {w : WriteQueue} {a : EnqueueArgs} :
      EnqueueStep w (.ensured a) w (.resolving a (.resolving a.tenantId))
  /-- A step of `resolve_engine`: of the look-up of the region through the cache, or the one of its
  file. -/
  | region {w : WriteQueue} {a : EnqueueArgs} {c c' : RegionCall} {x' : RegionCache}
      (h : RegionStep w.regions c x' c') :
      EnqueueStep w (.resolving a c) { w with regions := x' } (.resolving a c')
  | resolved {w : WriteQueue} {a : EnqueueArgs} {engine : Str} :
      EnqueueStep w (.resolving a (.resolved a.tenantId (.ok engine))) w (.resolved a engine)
  | resolveError {w : WriteQueue} {a : EnqueueArgs} {t : Option Str} {e : UnroutedRegionError} :
      EnqueueStep w (.resolving a (.resolved t (.error e))) w .raised
  /-- The rows could not be read, or the engine not be made. -/
  | resolveFail {w : WriteQueue} {a : EnqueueArgs} {c : RegionCall} :
      EnqueueStep w (.resolving a c) w .raised
  | put {w : WriteQueue} {a : EnqueueArgs} {engine : Str}
      (h : w.queue.length < writeQueueMaxsize) :
      EnqueueStep w (.resolved a engine) (w.put ⟨a, engine, w.nextTicket⟩) .returned
  /-- `queue.Full`. -/
  | full {w : WriteQueue} {a : EnqueueArgs} {engine : Str}
      (h : writeQueueMaxsize ≤ w.queue.length) :
      EnqueueStep w (.resolved a engine) (w.refuse ⟨a, engine, w.nextTicket⟩) (.full a)
  | warn {w : WriteQueue} {a : EnqueueArgs} : EnqueueStep w (.full a) w .returned
  | warnError {w : WriteQueue} {a : EnqueueArgs} : EnqueueStep w (.full a) w .raised

/-! ## `_write_worker_loop` -/

/-- Where the worker stands. -/
inductive WorkerCall where
  /-- In `_write_queue.get()`. -/
  | waiting
  /-- In `append_commit`. -/
  | appending (e : QueueItem) (c : AppendCall)
  /-- In the `except` block. -/
  | reporting (e : QueueItem)
  /-- In the `finally` block, because of an exception or not. -/
  | finishing (e : QueueItem) (o : Outcome) (exception : Bool)
  /-- An exception has left the loop. -/
  | ending

/-- Where the worker goes after the `finally` block. -/
def WorkerCall.finished : Bool → WorkerCall
  | true => .ending
  | false => .waiting

/-- One step of the worker. -/
inductive WorkerStep : WriteQueue → WorkerCall → WriteQueue → WorkerCall → Prop
  | get {w : WriteQueue} {e : QueueItem} {queue : List QueueItem} (h : w.queue = e :: queue) :
      WorkerStep w .waiting { w with queue := queue } (.appending e (.called e.args))
  | append {w : WriteQueue} {e : QueueItem} {c c' : AppendCall} {st' : Store}
      (h : AppendStep (w.stores e.engine) c st' c') :
      WorkerStep w (.appending e c) (w.after e.engine (some e.ticket) st') (.appending e c')
  | appended {w : WriteQueue} {e : QueueItem} {row : StorageCommit} :
      WorkerStep w (.appending e (.returned row)) w (.finishing e (.stored row) false)
  | appendError {w : WriteQueue} {e : QueueItem} {error : AppendError} :
      WorkerStep w (.appending e (.raised error)) w (.reporting e)
  | report {w : WriteQueue} {e : QueueItem} :
      WorkerStep w (.reporting e) w (.finishing e .failed false)
  /-- The warning raises an exception. -/
  | reportError {w : WriteQueue} {e : QueueItem} :
      WorkerStep w (.reporting e) w (.finishing e .failed true)
  | taskDone {w : WriteQueue} {e : QueueItem} {o : Outcome} {exception : Bool}
      (h : 0 < w.unfinishedTasks) :
      WorkerStep w (.finishing e o exception) (w.taskDone e o) (.finished exception)
  /-- `ValueError`: `task_done` was called too often. -/
  | taskDoneError {w : WriteQueue} {e : QueueItem} {o : Outcome} {exception : Bool}
      (h : w.unfinishedTasks = 0) : WorkerStep w (.finishing e o exception) w .ending

/-! ## All threads -/

/-- What a thread is doing. -/
inductive Job where
  /-- Nothing, or it does not run yet. -/
  | idle
  | enqueue (c : EnqueueCall)
  /-- It is the worker with this number. -/
  | worker (k : ℕ) (c : WorkerCall)
  /-- It works on the store behind an engine without the queue. -/
  | direct (engine : Str) (c : Call)
  /-- It calls `resolve_engine` or `set_region_config` itself. -/
  | region (c : RegionCall)

/-- One step of one thread. -/
inductive WriteStep (F : Fernet) : WriteQueue → Job → WriteQueue → Job → Prop
  | call {w : WriteQueue} (a : EnqueueArgs) : WriteStep F w .idle w (.enqueue (.looking a false))
  | enqueue {w w' : WriteQueue} {c c' : EnqueueCall} (h : EnqueueStep w c w' c') :
      WriteStep F w (.enqueue c) w' (.enqueue c')
  | hangUp {w : WriteQueue} {c : EnqueueCall} (h : c.ended = true) :
      WriteStep F w (.enqueue c) w .idle
  /-- A new thread runs. -/
  | begin {w : WriteQueue} {k : ℕ} (h : w.worker.status k = .launched) :
      WriteStep F w .idle { w with worker := w.worker.mark k .started } (.worker k .waiting)
  | worker {w w' : WriteQueue} {k : ℕ} {c c' : WorkerCall} (h : WorkerStep w c w' c') :
      WriteStep F w (.worker k c) w' (.worker k c')
  | die {w : WriteQueue} {k : ℕ} :
      WriteStep F w (.worker k .ending) { w with worker := w.worker.mark k .stopped } .idle
  | connect {w : WriteQueue} (engine : Str) : WriteStep F w .idle w (.direct engine .idle)
  | direct {w : WriteQueue} {engine : Str} {c c' : Call} {st' : Store}
      (h : SystemStep F (w.stores engine) c st' c') :
      WriteStep F w (.direct engine c) (w.after engine none st') (.direct engine c')
  | disconnect {w : WriteQueue} {engine : Str} {c : Call} :
      WriteStep F w (.direct engine c) w .idle
  | startRegion {w : WriteQueue} {c : RegionCall} (h : c.fresh = true) :
      WriteStep F w .idle w (.region c)
  | region {w : WriteQueue} {c c' : RegionCall} {x' : RegionCache}
      (h : RegionStep w.regions c x' c') :
      WriteStep F w (.region c) { w with regions := x' } (.region c')
  | endRegion {w : WriteQueue} {c : RegionCall} : WriteStep F w (.region c) w .idle
  /-- Regions are registered, other processes assign them, or there is another default store, for
  which the cache may have nothing. -/
  | route {w : WriteQueue} (x' : RegionCache)
      (h : ∀ t, x'.entries t = w.regions.entries t ∨ x'.entries t = none) :
      WriteStep F w .idle { w with regions := x' } .idle

variable {ι : Type} [DecidableEq ι] {F : Fernet}

/-- The queue, the stores and all threads. -/
abbrev Writers (ι : Type) := Config ι WriteQueue Job

/-- A new process, on the stores that are there. -/
def Writers.init (ι : Type) (stores : Str → Store) (routing : Routing) : Writers ι where
  shared := {
    stores := stores
    regions := ⟨routing, fun _ ↦ none⟩
    worker := .init
    queue := []
    unfinishedTasks := 0
    accepted := []
    refused := []
    settled := []
    written := fun engine ↦ (stores engine).commits.map fun row ↦ (row, none) }
  locals := fun _ ↦ .idle

/-- The step is not that of an append of the worker that fails after its commit. -/
def Job.FailsClean : Job → Job → Prop
  | .worker _ (.appending _ (.committed _)), .worker _ (.appending _ (.raised _)) => False
  | _, _ => True

/-- One step of one thread, where the worker's appends store a row or fail without storing one. -/
def CleanStep (F : Fernet) (w : WriteQueue) (t : Job) (w' : WriteQueue) (t' : Job) : Prop :=
  WriteStep F w t w' t' ∧ t.FailsClean t'

/-- The states that can be reached on stores that earlier processes may have left behind. -/
def Writers.Reachable (F : Fernet) (c : Writers ι) : Prop :=
  ∃ (old : Fleet ι Str) (site : ι → Str) (routing : Routing),
    Steps (FleetStep F) (Fleet.init id site) old ∧
      Steps (WriteStep F) (Writers.init ι old.shared routing) c

/-- Those that can be reached without an append of the worker that fails after its commit. -/
def Writers.CleanlyReachable (F : Fernet) (c : Writers ι) : Prop :=
  ∃ (old : Fleet ι Str) (site : ι → Str) (routing : Routing),
    Steps (FleetStep F) (Fleet.init id site) old ∧
      Steps (CleanStep F) (Writers.init ι old.shared routing) c

theorem Writers.CleanlyReachable.reachable {c : Writers ι} (h : c.CleanlyReachable F) :
    c.Reachable F := by
  obtain ⟨old, site, routing, hold, hrun⟩ := h
  exact ⟨old, site, routing, hold, hrun.mono fun _ _ _ _ hstep ↦ hstep.1⟩

/-! ## One worker -/

/-- What a caller is doing as far as workers are concerned. -/
def EnqueueCall.role : EnqueueCall → LazyWorker.Role
  | .looking _ true => .looking
  | .seen _ true => .seen
  | .loaded _ true k => .loaded k
  | .creating _ => .creating
  | .assigned _ k => .assigned k
  | .starting _ k => .starting k
  | .leaving _ _ => .leaving
  | _ => .outside

/-- What a thread is doing as far as workers are concerned. -/
def Job.role : Job → LazyWorker.Role
  | .enqueue c => c.role
  | .worker k _ => .worker k
  | _ => .outside

variable {w w' : WriteQueue} {t t' : Job}

theorem EnqueueStep.role {c c' : EnqueueCall} (h : EnqueueStep w c w' c') :
    LazyWorker.Step w.worker c.role w'.worker c'.role ∨
      w'.worker = w.worker ∧ c'.role = c.role := by
  cases h with
  | @lookNone a inside h =>
    cases inside with
    | true => exact Or.inl (.lookNone h)
    | false => exact Or.inr ⟨rfl, rfl⟩
  | @lookSome a inside h =>
    cases inside with
    | true => exact Or.inl .lookSome
    | false => exact Or.inr ⟨rfl, rfl⟩
  | @load a inside k h =>
    cases inside with
    | true => exact Or.inl (.load h)
    | false => exact Or.inr ⟨rfl, rfl⟩
  | @alive a inside k h =>
    cases inside with
    | true => exact Or.inl .alive
    | false => exact Or.inr ⟨rfl, rfl⟩
  | @dead a inside k h =>
    cases inside with
    | true => exact Or.inl (.dead h)
    | false => exact Or.inr ⟨rfl, rfl⟩
  | acquire h => exact Or.inl (.acquire h)
  | create => exact Or.inl .create
  | launch => exact Or.inl .launch
  | launchError => exact Or.inl .launchError
  | launched h => exact Or.inl (.launched h)
  | @release a exception => cases exception <;> exact Or.inl .release
  | resolve | region | resolved | resolveError | resolveFail | put | full | warn | warnError =>
    exact Or.inr ⟨rfl, rfl⟩

theorem WorkerStep.worker_eq {c c' : WorkerCall} (h : WorkerStep w c w' c') :
    w'.worker = w.worker := by
  cases h <;> rfl

/-- **The steps are those of the protocol.** -/
theorem WriteStep.role (h : WriteStep F w t w' t') :
    LazyWorker.Step w.worker t.role w'.worker t'.role ∨
      w'.worker = w.worker ∧ t'.role = t.role := by
  cases h with
  | enqueue h => exact h.role
  | @hangUp c h => cases c <;> first | exact Or.inr ⟨rfl, rfl⟩ | cases h
  | begin h => exact Or.inl (.begin h)
  | worker h => exact Or.inr ⟨h.worker_eq, rfl⟩
  | die => exact Or.inl .stop
  | call | connect | direct | disconnect | startRegion | region | endRegion | route =>
    exact Or.inr ⟨rfl, rfl⟩

/-- The threads and workers as the protocol sees them. -/
def Writers.protocol (c : Writers ι) : Config ι LazyWorker.State LazyWorker.Role :=
  c.map WriteQueue.worker Job.role

/-- **The invariant of the protocol holds.** -/
theorem Writers.lazyWorker_ok {stores : Str → Store} {routing : Routing} {c : Writers ι}
    (h : Steps (WriteStep F) (Writers.init ι stores routing) c) : LazyWorker.Ok c.protocol :=
  LazyWorker.ok_init.steps (h.map fun _ _ _ _ hstep ↦ hstep.role)

/-! ## The logs -/

/-- What a thread knows about the log it is appending to. -/
def Job.AuditOk (w : WriteQueue) : Job → Prop
  | .worker _ (.appending e c) => c.Ok (w.stores e.engine)
  | .direct engine c => c.AuditOk (w.stores engine)
  | _ => True

/-- The logs only grow. -/
def WriteQueue.Grows (w w' : WriteQueue) : Prop :=
  ∀ engine, (w.stores engine).commits <+: (w'.stores engine).commits

theorem Job.AuditOk.mono (ht : t.AuditOk w) (h : w.Grows w') : t.AuditOk w' := by
  match t, ht with
  | .worker _ (.appending e c), ht => exact AppendCall.Ok.mono ht (h e.engine)
  | .direct engine c, ht => exact Call.AuditOk.mono ht (h engine)
  | .idle, _ | .enqueue _, _ | .region _, _ | .worker _ .waiting, _ | .worker _ (.reporting _), _
  | .worker _ (.finishing _ _ _), _ | .worker _ .ending, _ => trivial

theorem WriteQueue.grows_after {engine : Str} {ticket : Option ℕ} {st' : Store}
    (h : (w.stores engine).commits <+: st'.commits) : w.Grows (w.after engine ticket st') := by
  intro engine'
  by_cases he : engine' = engine
  · subst he
    rwa [after_stores, Fleet.after_self]
  · rw [after_stores, Fleet.after_ne _ _ he]

/-- **A step on one of the stores** keeps all logs. -/
theorem WriteQueue.auditOk_after (hw : ∀ engine, (w.stores engine).AuditOk) {engine : Str}
    {c c' : Call} {st' : Store} (h : SystemStep F (w.stores engine) c st' c')
    (hc : c.AuditOk (w.stores engine)) (ticket : Option ℕ) :
    w.Grows (w.after engine ticket st') ∧
      (∀ engine', ((w.after engine ticket st').stores engine').AuditOk) ∧
        c'.AuditOk ((w.after engine ticket st').stores engine) := by
  obtain ⟨hst', hc'⟩ := h.auditOk (hw engine) hc
  refine ⟨w.grows_after h.grows.commits, ?_, ?_⟩
  · exact Fleet.forall_after (fun _ _ hst ↦ hst.of_eq rfl rfl) hw hst'
  · rwa [after_stores, Fleet.after_self]

theorem EnqueueStep.stores_eq {c c' : EnqueueCall} (h : EnqueueStep w c w' c') :
    w'.stores = w.stores := by
  cases h <;> rfl

/-- **The premises of the rely–guarantee rule.** -/
theorem write_relyGuarantee (F : Fernet) :
    RelyGuarantee (ι := ι) (WriteStep F) (fun _ ↦ True) WriteQueue.Grows
      (fun w ↦ ∀ engine, (w.stores engine).AuditOk) Job.AuditOk where
  step := by
    intro c i w' t' _ _ hw ht hstep
    generalize c.shared = w at *
    generalize c.locals i = t at *
    have hsame {w' : WriteQueue} (h : w'.stores = w.stores) :
        w.Grows w' ∧ ∀ engine, (w'.stores engine).AuditOk := by
      rw [WriteQueue.Grows, h]
      exact ⟨fun _ ↦ List.prefix_refl _, hw⟩
    cases hstep with
    | enqueue h => exact ⟨(hsame h.stores_eq).1, (hsame h.stores_eq).2, trivial⟩
    | worker h =>
      cases h with
      | append h => exact WriteQueue.auditOk_after hw (SystemStep.append (F := F) h) ht _
      | @taskDone e o exception h =>
        cases exception <;> exact ⟨(hsame rfl).1, (hsame rfl).2, trivial⟩
      | _ => exact ⟨(hsame rfl).1, (hsame rfl).2, trivial⟩
    | direct h => exact WriteQueue.auditOk_after hw h ht _
    | _ => exact ⟨(hsame rfl).1, (hsame rfl).2, trivial⟩
  stable := fun _ _ _ h ht ↦ ht.mono h

/-- **All logs are as appends leave them.** -/
theorem Writers.Reachable.auditOk {c : Writers ι} (h : c.Reachable F) :
    (∀ engine, (c.shared.stores engine).AuditOk) ∧ ∀ i, (c.locals i).AuditOk c.shared := by
  obtain ⟨old, site, routing, hold, hrun⟩ := h
  have hok : Fleet.Ok old :=
    hold.invariant (fun _ _ _ _ hd hstep ↦ hd.step hstep) (Fleet.ok_init id site)
  exact (write_relyGuarantee F).steps hrun (fun _ _ ↦ trivial) hok.audit fun _ ↦ trivial

end WiseTraceLoom
