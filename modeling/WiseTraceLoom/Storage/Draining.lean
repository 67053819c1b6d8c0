import WiseTraceLoom.Lib.Liveness
import WiseTraceLoom.Storage.Backlog

/-!
# `wait_for_pending_writes`

`_write_queue.join()` returns at a moment when the count of unfinished tasks is zero.  A `Waiters`
is a process some of whose threads are in such a call.

* `pending_writes_landed` — whatever was accepted before the call is stored or has failed after it.
  An item that has failed has no row, or, if its append has raised after its commit, one.
* `accepted_writes_settle` — an accepted item does not wait for ever: the worker, if the scheduler
  is fair to it, gets to every item, or else dies.  `WriteQueue.work` is the rank that its steps
  lower; an append is tried again only so often.
* `wait_hangs` — if the worker has died with items left, nobody gets to them until `enqueue_append`
  is called again, so until then no call of `wait_for_pending_writes` returns.
* `ensured_worker` — a call of `enqueue_append` that has got past `_ensure_write_worker` has met a
  live worker on its way.
-/

set_option autoImplicit false

namespace WiseTraceLoom

open Interleaving

variable {ι : Type} [DecidableEq ι] {F : Fernet} {w w' : WriteQueue} {t t' : Job}

/-! ## The records -/

theorem EnqueueStep.records {x x' : EnqueueCall} (h : EnqueueStep w x w' x') :
    w.accepted <+: w'.accepted ∧ w'.settled = w.settled := by
  cases h with
  | put => exact ⟨List.prefix_append _ _, rfl⟩
  | _ => exact ⟨List.prefix_refl _, rfl⟩

theorem WorkerStep.records {x x' : WorkerCall} (h : WorkerStep w x w' x') :
    w'.accepted = w.accepted ∧ w.settled <+: w'.settled := by
  cases h with
  | taskDone => exact ⟨rfl, List.prefix_append _ _⟩
  | _ => exact ⟨rfl, List.prefix_refl _⟩

/-- The records only grow, and that of what is done only by the worker. -/
theorem WriteStep.records (h : WriteStep F w t w' t') :
    w.accepted <+: w'.accepted ∧ w.settled <+: w'.settled ∧
      ((∀ k x, t ≠ .worker k x) → w'.settled = w.settled) := by
  cases h with
  | enqueue h => exact ⟨h.records.1, h.records.2 ▸ List.prefix_refl _, fun _ ↦ h.records.2⟩
  | @worker _ k x _ h =>
    exact ⟨h.records.1 ▸ List.prefix_refl _, h.records.2, fun hne ↦ absurd rfl (hne k x)⟩
  | _ => exact ⟨List.prefix_refl _, List.prefix_refl _, fun _ ↦ rfl⟩

theorem Writers.Reachable.step {c : Writers ι} (h : c.Reachable F) {i : ι}
    (hstep : WriteStep F c.shared (c.locals i) w' t') : Writers.Reachable F (c.set i w' t') := by
  obtain ⟨old, site, routing, hold, hrun⟩ := h
  exact ⟨old, site, routing, hold, Steps.thread hrun i hstep⟩

theorem Writers.Reachable.trans {c d : Writers ι} (h : c.Reachable F)
    (hrun : Steps (WriteStep F) c d) : d.Reachable F := by
  obtain ⟨old, site, routing, hold, hc⟩ := h
  exact ⟨old, site, routing, hold, Relation.ReflTransGen.trans hc hrun⟩

/-! ## A caller and a worker

One thread calls `enqueue_append`, another one is the worker.
-/

/-- The worker waits, and there are `n` items for it. -/
structure Writers.Queued (c : Writers Bool) (n : ℕ) : Prop where
  idle : c.locals false = .idle
  worker : c.locals true = .worker 0 .waiting
  handle : c.shared.worker.handle = some 0
  isAlive : c.shared.worker.IsAlive 0
  routing : c.shared.regions.routing = ⟨"store.db".toList, [], []⟩
  entries : c.shared.regions.entries none = none ∨ c.shared.regions.entries none = some none
  queue : c.shared.queue.length = n
  accepted : c.shared.accepted = c.shared.queue
  unfinishedTasks : c.shared.unfinishedTasks = n

theorem Writers.Reachable.tail {c : Writers Bool} (h : c.Reachable F) (i : Bool)
    (ht : c.locals i = t) (hstep : WriteStep F c.shared t w' t') :
    Writers.Reachable F (c.set i w' t') := h.step (ht ▸ hstep)

theorem Writers.Reachable.resolveDefault {c : Writers Bool} (h : c.Reachable F) (i : Bool)
    {a : EnqueueArgs} (hi : c.locals i = .enqueue (.ensured a)) (ha : a.tenantId = none)
    (hrow : c.shared.regions.routing.row none = none)
    (hcache : c.shared.regions.entries none = none ∨ c.shared.regions.entries none = some none) :
    Writers.Reachable F (c.set i { c.shared with regions := c.shared.regions.withDefault }
      (.enqueue (.resolved a c.shared.regions.routing.defaultPath))) :=
  h.trans ((Writers.resolveDefault i hi ha hrow hcache).mono fun _ _ _ _ hstep ↦ hstep.1)

/-- A caller that starts the worker and then has no engine. -/
theorem exists_queued_zero (F : Fernet) : ∃ c : Writers Bool, c.Reachable F ∧ c.Queued 0 := by
  let routing : Routing := ⟨"store.db".toList, [], []⟩
  let old : Fleet Bool Str := Fleet.init id fun _ ↦ []
  have h0 : Writers.Reachable F (Writers.init Bool old.shared routing) :=
    ⟨old, _, routing, .refl, .refl⟩
  have h1 := h0.tail false rfl (.call spanEnqueue)
  have h2 := h1.tail false rfl (.enqueue (.lookNone rfl))
  have h3 := h2.tail false rfl (.enqueue (.acquire rfl))
  have h4 := h3.tail false rfl (.enqueue (.lookNone rfl))
  have h5 := h4.tail false rfl (.enqueue .create)
  have h6 := h5.tail false rfl (.enqueue .launch)
  have h7 := h6.tail true rfl (.begin (k := 0) rfl)
  have h8 := h7.tail false rfl (.enqueue (.launched (by decide)))
  have h9 := h8.tail false rfl (.enqueue .release)
  have h10 := h9.tail false rfl (.enqueue .resolve)
  have h11 := h10.tail false rfl (.enqueue .resolveFail)
  have h12 := h11.tail false rfl (.hangUp rfl)
  exact ⟨_, h12, rfl, rfl, rfl, rfl, rfl, .inl rfl, rfl, rfl, rfl⟩

/-- The next caller finds the worker alive. -/
theorem Writers.Queued.succ {c : Writers Bool} {n : ℕ} (h : c.Queued n) (hc : c.Reachable F)
    (hn : n < writeQueueMaxsize) : ∃ d : Writers Bool, d.Reachable F ∧ d.Queued (n + 1) := by
  obtain ⟨⟨stores, ⟨routing, entries⟩, worker, queue, tasks, accepted, refused, settled, written⟩,
    locals⟩ := c
  obtain ⟨hidle, hworker, hhandle, hlive, rfl, hentries, rfl, haccepted, htasks⟩ := h
  dsimp only at haccepted htasks
  subst haccepted htasks
  have h1 := hc.tail false hidle (.call spanEnqueue)
  have hsome : worker.handle ≠ none := fun hnone ↦ Option.some_ne_none 0 (hhandle.symm.trans hnone)
  have h2 := h1.tail false rfl (.enqueue (.lookSome hsome))
  have h3 := h2.tail false rfl (.enqueue (.load hhandle))
  have h4 := h3.tail false rfl (.enqueue (.alive hlive))
  have h5 := h4.resolveDefault false rfl rfl rfl hentries
  have h6 := h5.tail false rfl (.enqueue (.put hn))
  have h7 := h6.tail false rfl (.hangUp rfl)
  exact ⟨_, h7, rfl, hworker, hhandle, hlive, rfl, .inr rfl, List.length_append, rfl, rfl⟩

/-- The queue can be filled. -/
theorem exists_queued (F : Fernet) {n : ℕ} (hn : n ≤ writeQueueMaxsize) :
    ∃ c : Writers Bool, c.Reachable F ∧ c.Queued n := by
  induction n with
  | zero => exact exists_queued_zero F
  | succ n ih =>
    obtain ⟨c, hc, hqueued⟩ := ih (Nat.le_of_succ_le hn)
    exact hqueued.succ hc hn

/-! ## Waiting -/

/-- What a thread is doing if it may also wait. -/
inductive WaitJob where
  | job (t : Job)
  /-- In `_write_queue.join()`. -/
  | joining
  /-- `wait_for_pending_writes` has returned. -/
  | joined

/-- One step of one thread. -/
inductive WaitStep (F : Fernet) : WriteQueue → WaitJob → WriteQueue → WaitJob → Prop
  | job {w w' : WriteQueue} {t t' : Job} (h : WriteStep F w t w' t') :
      WaitStep F w (.job t) w' (.job t')
  | waitForPendingWrites {w : WriteQueue} : WaitStep F w (.job .idle) w .joining
  | join {w : WriteQueue} (h : w.unfinishedTasks = 0) : WaitStep F w .joining w .joined
  | hangUp {w : WriteQueue} : WaitStep F w .joined w (.job .idle)

/-- The queue, the stores and all threads. -/
abbrev Waiters (ι : Type) := Config ι WriteQueue WaitJob

/-- Whoever waits does nothing else. -/
def WaitJob.toJob : WaitJob → Job
  | .job t => t
  | .joining | .joined => .idle

/-- The threads without the waiting. -/
def Waiters.writers (c : Waiters ι) : Writers ι := c.map id WaitJob.toJob

theorem WaitStep.toJob {x x' : WaitJob} (h : WaitStep F w x w' x') :
    WriteStep F w x.toJob w' x'.toJob ∨ w' = w ∧ x'.toJob = x.toJob := by
  cases h with
  | job h => exact .inl h
  | waitForPendingWrites | join | hangUp => exact .inr ⟨rfl, rfl⟩

/-- Waiting changes nothing. -/
theorem Waiters.steps {c d : Waiters ι} (h : Steps (WaitStep F) c d) :
    Steps (WriteStep F) c.writers d.writers :=
  Steps.map (fun _ _ _ _ ht ↦ ht.toJob) h

theorem WaitStep.records {x x' : WaitJob} (h : WaitStep F w x w' x') :
    w.accepted <+: w'.accepted ∧ w.settled <+: w'.settled := by
  rcases h.toJob with hstep | ⟨rfl, -⟩
  · exact ⟨hstep.records.1, hstep.records.2.1⟩
  · exact ⟨List.prefix_refl _, List.prefix_refl _⟩

/-- This row, if any, was written for the item, to the store it was for, and no other one to any
store. -/
structure WriteQueue.RowIs (w : WriteQueue) (e : QueueItem) (row : Option StorageCommit) :
    Prop where
  /-- It is there, and one that the arguments of the item can have produced. -/
  writes : ∀ r ∈ row, e.args.Writes r ∧ r ∈ (w.stores e.engine).commits
  /-- It is the only one. -/
  only : ∀ engine, w.rowsOf e engine = if engine = e.engine then row.toList else []

/-- The item is stored with one row, or has failed with at most one. -/
def WriteQueue.Landed (w : WriteQueue) (e : QueueItem) : Prop :=
  (∃ row, (e, .stored row) ∈ w.settled ∧ w.RowIs e (some row)) ∨
    (e, .failed) ∈ w.settled ∧ ∃ row, w.RowIs e row

/-- A row of the worker's is that of its item. -/
theorem Accounts.rowIs {x : WorkerCall} {rows : List (QueueItem × StorageCommit)}
    (h : Accounts w x rows) {e : QueueItem} {row : StorageCommit} (he : (e, row) ∈ rows) :
    w.RowIs e (some row) where
  writes := by
    rintro r ⟨⟩
    refine ⟨h.writes _ he, ?_⟩
    -- the rows written for the item are among those of its store
    have hrow : row ∈ w.rowsOf e e.engine := by
      rw [h.rowsOf_of_mem he, if_pos rfl]
      exact List.mem_singleton_self row
    rw [← h.mirror]
    exact ((List.filter_sublist (l := w.written e.engine)).map Prod.fst).subset hrow
  only := h.rowsOf_of_mem he

/-- What is settled has landed. -/
theorem Accounts.landed {x : WorkerCall} {rows : List (QueueItem × StorageCommit)}
    (h : Accounts w x rows) {e : QueueItem} (he : e ∈ w.settled.map Prod.fst) : w.Landed e := by
  have haccepted : e ∈ w.accepted := by
    rw [h.split]
    exact List.mem_append_left _ (List.mem_append_left _ he)
  obtain ⟨⟨e', o⟩, hmem, heq⟩ := List.mem_map.mp he
  obtain rfl : e = e' := heq.symm
  cases o with
  | stored row => exact .inl ⟨row, hmem, h.rowIs (h.mem_rows (WriteQueue.mem_stored.mpr hmem))⟩
  | failed =>
    refine .inr ⟨hmem, ?_⟩
    by_cases hrow : ∃ row, (e, row) ∈ rows
    · obtain ⟨row, hrow⟩ := hrow
      exact ⟨some row, h.rowIs hrow⟩
    · refine ⟨none, nofun, fun engine ↦ ?_⟩
      rw [Option.toList_none, ite_self]
      refine h.rowsOf_eq_nil (fun y hy hticket ↦ hrow ⟨y.2, ?_⟩) engine
      rwa [← h.eq_of_ticket (h.sublist.subset (List.mem_map_of_mem hy)) haccepted hticket]

/-- **Whatever was accepted before `wait_for_pending_writes` was called has landed when it has
returned, and stays so.** -/
theorem pending_writes_landed {c d : Waiters ι} (hc : c.writers.Reachable F) {i : ι}
    (hi : c.locals i = .joining) (hrun : Steps (WaitStep F) c d) (hd : d.locals i ≠ .joining) :
    ∀ e ∈ c.shared.accepted, d.shared.Landed e := by
  have hsettled : d.locals i = .joining ∧ c.shared.accepted <+: d.shared.accepted ∨
      c.shared.accepted <+: d.shared.settled.map Prod.fst := by
    refine Steps.follow (M := fun w x ↦ x = .joining ∧ c.shared.accepted <+: w.accepted ∨
      c.shared.accepted <+: w.settled.map Prod.fst) i hrun ?_ ?_ (.inl ⟨hi, List.prefix_refl _⟩)
    · rintro e w' x' he (⟨hx, hpre⟩ | hpre) hstep
      · rw [hx] at hstep
        cases hstep with
        | join h =>
          have hall := (hc.trans (Waiters.steps he)).joined h
          exact .inr (hall ▸ hpre)
      · exact .inr (hpre.trans (hstep.records.2.map Prod.fst))
    · rintro e j w' x' - (⟨hx, hpre⟩ | hpre) hstep
      · exact .inl ⟨hx, hpre.trans hstep.records.1⟩
      · exact .inr (hpre.trans (hstep.records.2.map Prod.fst))
  obtain ⟨-, x, rows, -, hw⟩ := (hc.trans (Waiters.steps hrun)).accounts
  have hpre := hsettled.resolve_left fun h ↦ hd h.1
  exact fun e he ↦ hw.landed (hpre.subset he)

/-- A caller waits for one item, whose append fails. -/
theorem pending_writes_landed_once : ∃ (c d : Waiters Bool) (e : QueueItem),
    c.locals false = .joining ∧ e ∈ c.shared.accepted ∧ d.locals false = .joined ∧
      d.shared.Landed e := by
  let fernet : Fernet := ⟨fun _ _ p ↦ p, fun _ t ↦ some t⟩
  obtain ⟨c, hc, hqueued⟩ := exists_queued fernet (n := 1) (by decide)
  obtain ⟨e, hqueue⟩ := List.length_eq_one_iff.mp hqueued.queue
  let c₀ : Waiters Bool :=
    ⟨c.shared, fun b ↦ bif b then .job (.worker 0 .waiting) else .joining⟩
  have hwriters : c₀.writers = c := by
    obtain ⟨w, locals⟩ := c
    refine congrArg (Config.mk w) (funext fun b ↦ ?_)
    cases b with
    | true => exact hqueued.worker.symm
    | false => exact hqueued.idle.symm
  have hone : c₀.shared.unfinishedTasks = 1 := hqueued.unfinishedTasks
  have hstep {d : Waiters Bool} {t t' : Job} {w' : WriteQueue} (h : Steps (WaitStep fernet) c₀ d)
      (hi : d.locals true = .job t) (ht : WriteStep fernet d.shared t w' t') :
      Steps (WaitStep fernet) c₀ (d.set true w' (.job t')) :=
    h.thread true (by rw [hi]; exact .job ht)
  have h0 : Steps (WaitStep fernet) c₀ c₀ := .refl
  have h1 := hstep h0 rfl (.worker (.get hqueue))
  have h2 := hstep h1 rfl (.worker (.append (.fail .other rfl)))
  have h3 := hstep h2 rfl (.worker .appendError)
  have h4 := hstep h3 rfl (.worker .report)
  have h5 := hstep h4 rfl (.worker (.taskDone (hone ▸ Nat.one_pos)))
  have h6 := h5.thread false (.join (congrArg (· - 1) hone))
  have hmem : e ∈ c₀.shared.accepted := by
    change e ∈ c.shared.accepted
    rw [hqueued.accepted, hqueue]
    exact List.mem_singleton_self e
  have hlanded := pending_writes_landed (i := false) (hwriters ▸ hc) rfl h6 WaitJob.noConfusion
  exact ⟨c₀, _, e, rfl, hmem, rfl, hlanded e hmem⟩

/-! ## The worker gets to every item -/

/-- An attempt is under way only as long as there are attempts left. -/
def AppendCall.Within : AppendCall → Prop
  | .versioned t k _ | .linked t k _ _ | .stamped t k _ _ _ => k < t.maxRetries
  | _ => True

/-- At most as many steps are left of a call. -/
def AppendCall.left : AppendCall → ℕ
  | .called a => 4 * a.maxRetries + 5
  | .ready t k => 4 * (t.maxRetries - k) + 4
  | .versioned t k _ => 4 * (t.maxRetries - k) + 3
  | .linked t k _ _ => 4 * (t.maxRetries - k) + 2
  | .stamped t k _ _ _ => 4 * (t.maxRetries - k) + 1
  | .committed _ => 1
  | .returned _ | .raised _ => 0

variable {st st' : Store} {a a' : AppendCall}

theorem AppendStep.within (h : AppendStep st a st' a') (ha : a.Within) : a'.Within := by
  cases h with
  | readVersion hk => exact hk
  | readPrev | stamp => exact ha
  | _ => trivial

/-- **A step leaves fewer of them.** -/
theorem AppendStep.left_lt (h : AppendStep st a st' a') (ha : a.Within) : a'.left < a.left := by
  cases h with
  | mask callback hprepare =>
    have := (AppendArgs.prepare_eq_ok hprepare).2.2
    simp only [AppendCall.left]
    omega
  | fail e hended =>
    have hpos : 0 < a.left := by
      cases a with
      | returned | raised => cases hended
      | _ => simp only [AppendCall.left]; omega
    exact hpos
  | _ =>
    simp only [AppendCall.Within] at ha
    simp only [AppendCall.left]
    omega

/-- A call that has not ended can go on. -/
theorem AppendCall.exists_step (a : AppendCall) (st : Store) (h : a.ended = false) :
    ∃ st' a', AppendStep st a st' a' := by
  cases a with
  | called args =>
    cases hprepare : args.prepare fun p ↦ .ok (.dict p) with
    | ok t => exact ⟨_, _, .mask _ hprepare⟩
    | error e => exact ⟨_, _, .maskError _ hprepare⟩
  | ready t k =>
    rcases le_or_gt t.maxRetries k with hk | hk
    · exact ⟨_, _, .exhausted hk⟩
    · exact ⟨_, _, .readVersion hk⟩
  | versioned t k v =>
    cases hprev : prevEntryHash st t.streamId v with
    | ok p => exact ⟨_, _, .readPrev hprev⟩
    | error e => exact ⟨_, _, .readPrevError hprev⟩
  | linked t k v p => exact ⟨_, _, .stamp noon⟩
  | stamped t k v p now =>
    cases hins : st.insertCommit (t.commit v p now) with
    | some st' => exact ⟨_, _, .commit hins⟩
    | none => exact ⟨_, _, .integrityError hins⟩
  | committed row => exact ⟨_, _, .finish⟩
  | returned row | raised e => cases h

/-- The append of the worker is within its attempts. -/
def Job.Within : Job → Prop
  | .worker _ (.appending _ a) => a.Within
  | _ => True

theorem WriteStep.within (h : WriteStep F w t w' t') (ht : t.Within) : t'.Within := by
  cases h with
  | worker h =>
    cases h with
    | append h => exact h.within ht
    | @taskDone _ _ exception => cases exception <;> trivial
    | _ => trivial
  | _ => trivial

theorem Writers.Reachable.within {c : Writers ι} (h : c.Reachable F) (i : ι) :
    (c.locals i).Within := by
  obtain ⟨old, site, routing, -, hrun⟩ := h
  refine hrun.invariant (I := fun c ↦ ∀ i, (c.locals i).Within) ?_ (fun _ ↦ trivial) i
  exact fun d i w' t' hd hstep ↦ Config.forall_locals (P := fun _ (t : Job) ↦ t.Within)
    (hstep.within (hd i)) fun j _ ↦ hd j

/-- At most as many steps are left of an item in the worker's hand. -/
def WorkerCall.left : WorkerCall → ℕ
  | .appending _ a => a.left + 3
  | .reporting _ => 2
  | .finishing _ _ _ => 1
  | .waiting | .ending => 0

/-- The steps that are left until the first `n` items are settled: 89 for an item that has yet to
be taken out of the queue, 88 when it has been. -/
def WriteQueue.work (w : WriteQueue) (n : ℕ) (x : WorkerCall) : ℕ :=
  89 * (n - w.settled.length - x.item.toList.length) + x.left

/-- **Every step of the worker is progress**, until the first `n` items are settled. -/
theorem WorkerStep.work_lt {x x' : WorkerCall} (h : WorkerStep w x w' x')
    {rows : List (QueueItem × StorageCommit)} {k : ℕ} (hx : (Job.worker k x).Within)
    (hw : Accounts w x rows) {n : ℕ} (hn : w.settled.length < n) : w'.work n x' < w.work n x := by
  cases h with
  | @get e queue hqueue =>
    have hleft : (WorkerCall.appending e (.called e.args)).left = 88 := rfl
    simp only [WriteQueue.work, hleft, WorkerCall.item, Option.toList_some, Option.toList_none,
      List.length_singleton, List.length_nil]
    omega
  | append h => exact Nat.add_lt_add_left (Nat.add_lt_add_right (h.left_lt hx) 3) _
  | appended | appendError | report | reportError =>
    exact Nat.add_lt_add_left (by simp [WorkerCall.left, AppendCall.left]) _
  | @taskDone e o exception =>
    have hdone : (WorkerCall.finished exception).item = none ∧
        (WorkerCall.finished exception).left = 0 := by
      cases exception <;> exact ⟨rfl, rfl⟩
    have hlength : (w.taskDone e o).settled.length = w.settled.length + 1 := by
      simp [WriteQueue.taskDone]
    have hone : (WorkerCall.finishing e o exception).left = 1 := rfl
    simp only [WriteQueue.work, hdone, hlength, hone, WorkerCall.item, Option.toList_some,
      List.length_singleton]
    omega
  | taskDoneError h =>
    have hcount := hw.unfinished
    rw [h, WorkerCall.item, Option.toList_some, List.length_singleton] at hcount
    omega

/-- The worker can take a step while there is something to do. -/
theorem Accounts.exists_step {x : WorkerCall} {rows : List (QueueItem × StorageCommit)}
    (h : Accounts w x rows) {k : ℕ} (hx : x ≠ .ending)
    (hpending : w.settled.length < w.accepted.length) :
    ∃ w' t', WriteStep F w (.worker k x) w' t' := by
  cases x with
  | waiting =>
    have hqueue : w.queue ≠ [] := by
      rintro hnil
      have hsplit := h.split
      simp only [hnil, WorkerCall.item, Option.toList_none, List.append_nil] at hsplit
      rw [hsplit, List.length_map] at hpending
      exact lt_irrefl _ hpending
    obtain ⟨e, queue, hqueue⟩ := List.exists_cons_of_ne_nil hqueue
    exact ⟨_, _, .worker (.get hqueue)⟩
  | appending e a =>
    cases hended : a.ended with
    | true =>
      cases a with
      | returned row => exact ⟨_, _, .worker .appended⟩
      | raised error => exact ⟨_, _, .worker .appendError⟩
      | _ => cases hended
    | false =>
      obtain ⟨st', a', hstep⟩ := a.exists_step (w.stores e.engine) hended
      exact ⟨_, _, .worker (.append hstep)⟩
  | reporting e => exact ⟨_, _, .worker .report⟩
  | finishing e o exception =>
    have hcount := h.unfinished
    rw [WorkerCall.item, Option.toList_some, List.length_singleton] at hcount
    exact ⟨_, _, .worker (.taskDone (by omega))⟩
  | ending => exact absurd rfl hx

/-- A list of items is settled if there are enough settled items. -/
theorem Accounts.settled_of_le {x : WorkerCall} {rows : List (QueueItem × StorageCommit)}
    (h : Accounts w x rows) {items : List QueueItem} (hitems : items <+: w.accepted)
    (hle : items.length ≤ w.settled.length) : items <+: w.settled.map Prod.fst := by
  refine List.prefix_of_prefix_length_le hitems ?_ (by rwa [List.length_map])
  rw [h.split, List.append_assoc]
  exact List.prefix_append _ _

/-- The steps that are left of a thread's job until the first `n` items are settled. -/
def Job.work (w : WriteQueue) (n : ℕ) : Job → ℕ
  | .worker _ x => w.work n x
  | _ => 0

/-- Thread `i` is the `k`-th worker, with these items to get to. -/
structure Writers.Pursues (F : Fernet) (i : ι) (k : ℕ) (items : List QueueItem) (c : Writers ι) :
    Prop where
  reachable : c.Reachable F
  accepted : items <+: c.shared.accepted
  worker : ∃ x, c.locals i = .worker k x

theorem Writers.Reachable.worker_facts {c : Writers ι} (h : c.Reachable F) {i : ι} {k : ℕ}
    {x : WorkerCall} (hi : c.locals i = .worker k x) :
    LazyWorker.Ok c.protocol ∧ ∃ rows, Accounts c.shared x rows := by
  obtain ⟨hlazy, y, rows, hy, hw⟩ := h.accounts
  obtain rfl := hy.agree i k x hi
  exact ⟨hlazy, rows, hw⟩

variable {i : ι} {k : ℕ} {items : List QueueItem} {c : Writers ι}

/-- The worker can go on while it is not done. -/
theorem Writers.Pursues.enabled (h : c.Pursues F i k items)
    (hlength : c.shared.settled.length < items.length)
    (hending : c.locals i ≠ .worker k .ending) : Enabled (WriteStep F) i c := by
  obtain ⟨hc, hpre, x, hx⟩ := h
  rw [hx] at hending
  rw [Enabled, hx]
  obtain ⟨-, rows, hw⟩ := hc.worker_facts hx
  exact hw.exists_step (fun hx' ↦ hending (congrArg _ hx')) (hlength.trans_le hpre.length_le)

/-- Its own step brings it nearer. -/
theorem Writers.Pursues.step (h : c.Pursues F i k items)
    (hlength : c.shared.settled.length < items.length)
    (hending : c.locals i ≠ .worker k .ending)
    (hstep : WriteStep F c.shared (c.locals i) w' t') :
    Writers.Pursues F i k items (c.set i w' t') ∧
      t'.work w' items.length < (c.locals i).work c.shared items.length := by
  obtain ⟨hc, hpre, x, hx⟩ := h
  have hwithin := hc.within i
  have hc' := hc.step hstep
  have hpre' := hpre.trans hstep.records.1
  obtain ⟨-, rows, hw⟩ := hc.worker_facts hx
  rw [hx] at hstep hwithin hending ⊢
  cases hstep with
  | @worker _ _ _ x' h =>
    exact ⟨⟨hc', hpre', x', Config.set_locals_self c i _ _⟩, h.work_lt hwithin hw hlength⟩
  | die => exact absurd rfl hending

/-- A step of another thread, which is not a worker, takes it no farther away. -/
theorem Writers.Pursues.other_step (h : c.Pursues F i k items) {j : ι} (hji : j ≠ i)
    (hstep : WriteStep F c.shared (c.locals j) w' t') :
    Writers.Pursues F i k items (c.set j w' t') ∧
      (c.locals i).work w' items.length = (c.locals i).work c.shared items.length := by
  obtain ⟨hc, hpre, x, hx⟩ := h
  have hother (m : ℕ) (y : WorkerCall) : c.locals j ≠ .worker m y := fun hj ↦
    hji (Writers.sole (hc.worker_facts hx).1 hj hx)
  refine ⟨⟨hc.step hstep, hpre.trans hstep.records.1, x, ?_⟩, ?_⟩
  · rwa [Config.set_locals_ne c w' t' hji.symm]
  · simp only [hx, Job.work, WriteQueue.work, hstep.records.2.2 hother]

/-- A fair worker settles as many items as there are, or comes to its end. -/
theorem Writers.Pursues.eventually {c : ℕ → Writers ι} (hrun : Forever (WriteStep F) c)
    (hfair : WeakFair (WriteStep F) i c) {n : ℕ} (h : (c n).Pursues F i k items) :
    ∃ m, n ≤ m ∧ (items.length ≤ (c m).shared.settled.length ∨
      (c m).locals i = .worker k .ending) := by
  let Q (d : Writers ι) : Prop :=
    items.length ≤ d.shared.settled.length ∨ d.locals i = .worker k .ending
  refine Forever.eventually (Q := Q) (I := Writers.Pursues F i k items)
    (fun d ↦ (d.locals i).work d.shared items.length) hrun hfair ?_ ?_ ?_ h
  · rintro d hd hQ
    rw [not_or, not_le] at hQ
    exact hd.enabled hQ.1 hQ.2
  · rintro d w' t' hd hQ hstep
    rw [not_or, not_le] at hQ
    have hown := hd.step hQ.1 hQ.2 hstep
    refine .inr ⟨hown.1, ?_⟩
    rw [Config.set_locals_self, Config.set_shared]
    exact hown.2
  · rintro d j w' t' hji hd - hstep
    have hother := hd.other_step hji hstep
    refine .inr ⟨hother.1, le_of_eq ?_⟩
    rw [Config.set_locals_ne d w' t' hji.symm, Config.set_shared]
    exact hother.2

/-- **No accepted write waits for ever.**  Take any run without an end, in which anybody may go on
to put items into the queue, and in which the scheduler is fair to the worker.  Every item that was
accepted by some moment lands, unless the worker's thread is ended by an exception. -/
theorem accepted_writes_settle {c : ℕ → Writers ι} (hc : (c 0).Reachable F)
    (hrun : Forever (WriteStep F) c) {i : ι} (hfair : WeakFair (WriteStep F) i c) {n k : ℕ}
    {x : WorkerCall} (hworker : (c n).locals i = .worker k x) :
    ∃ m, n ≤ m ∧ ((∀ e ∈ (c n).shared.accepted, (c m).shared.Landed e) ∨
      (c m).locals i = .worker k .ending) := by
  have hstart : (c n).Pursues F i k (c n).shared.accepted :=
    ⟨hc.trans (hrun.steps (Nat.zero_le n)), List.prefix_refl _, x, hworker⟩
  obtain ⟨m, hm, hdone⟩ := hstart.eventually hrun hfair
  refine ⟨m, hm, hdone.imp_left fun hle e he ↦ ?_⟩
  obtain ⟨-, y, rows, -, hw⟩ := (hc.trans (hrun.steps (Nat.zero_le m))).accounts
  have hgrown : (c n).shared.accepted <+: (c m).shared.accepted :=
    (hrun.steps hm).rely (R := fun w w' ↦ w.accepted <+: w'.accepted)
      (fun _ ↦ List.prefix_refl _) (fun _ _ _ ↦ List.IsPrefix.trans)
      fun _ _ _ _ _ hstep ↦ hstep.records.1
  exact hw.landed ((hw.settled_of_le hgrown hle).subset he)

/-- The worker takes one item, whose append fails, and then waits for ever. -/
theorem accepted_writes_settle_once : ∃ (c : ℕ → Writers Bool) (e : QueueItem),
    (c 0).shared.queue = [e] ∧
      ∃ m, (∀ e ∈ (c 0).shared.accepted, (c m).shared.Landed e) ∨
        (c m).locals true = .worker 0 .ending := by
  let fernet : Fernet := ⟨fun _ _ p ↦ p, fun _ t ↦ some t⟩
  obtain ⟨c, hc, hqueued⟩ := exists_queued fernet (n := 1) (by decide)
  obtain ⟨e, hqueue⟩ := List.length_eq_one_iff.mp hqueued.queue
  let c₁ := c.set true { c.shared with queue := [] } (.worker 0 (.appending e (.called e.args)))
  let w₂ := c₁.shared.after e.engine (some e.ticket) (c₁.shared.stores e.engine)
  let c₂ := c₁.set true w₂ (.worker 0 (.appending e (.raised .other)))
  let c₃ := c₂.set true w₂ (.worker 0 (.reporting e))
  let c₄ := c₃.set true w₂ (.worker 0 (.finishing e .failed false))
  let c₅ := c₄.set true (w₂.taskDone e .failed) (.worker 0 .waiting)
  let run : ℕ → Writers Bool
    | 0 => c
    | 1 => c₁
    | 2 => c₂
    | 3 => c₃
    | 4 => c₄
    | _ => c₅
  have htasks : 0 < w₂.unfinishedTasks := by
    have hone : w₂.unfinishedTasks = 1 := hqueued.unfinishedTasks
    omega
  have hget : WriteStep fernet c.shared (c.locals true) c₁.shared (c₁.locals true) := by
    rw [hqueued.worker]
    exact .worker (.get hqueue)
  have hrun : Forever (WriteStep fernet) run
    | 0 => .inr ⟨true, _, _, hget, rfl⟩
    | 1 => .inr ⟨true, _, _, .worker (.append (.fail .other rfl)), rfl⟩
    | 2 => .inr ⟨true, _, _, .worker .appendError, rfl⟩
    | 3 => .inr ⟨true, _, _, .worker .report, rfl⟩
    | 4 => .inr ⟨true, _, _, .worker (.taskDone htasks), rfl⟩
    | _ + 5 => .inl rfl
  have hfair : WeakFair (WriteStep fernet) true run := by
    intro n henabled
    -- in the end the worker cannot take a step
    obtain ⟨w', t', hstep⟩ := henabled (n + 5) (by omega)
    cases hstep with
    | worker h =>
      cases h with
      | get h => cases h
  obtain ⟨m, -, hm⟩ := accepted_writes_settle (n := 0) hc hrun hfair hqueued.worker
  exact ⟨run, e, hqueue, m, hm⟩

/-! ## When the worker has died -/

/-- Nobody is going to start a worker: none is alive or about to be, and nobody is in
`enqueue_append`. -/
structure Writers.Stalled (c : Writers ι) : Prop where
  /-- There is no worker. -/
  live : ∀ k, ¬c.shared.worker.Live k
  /-- Whoever has called `enqueue_append` is done. -/
  calls : ∀ i x, c.locals i = .enqueue x → x.ended = true

/-- What is not done stays as it is. -/
structure WriteQueue.Left (w w' : WriteQueue) : Prop where
  queue : w'.queue = w.queue
  unfinishedTasks : w'.unfinishedTasks = w.unfinishedTasks
  accepted : w'.accepted = w.accepted
  settled : w'.settled = w.settled

theorem WriteQueue.Left.refl (w : WriteQueue) : w.Left w := ⟨rfl, rfl, rfl, rfl⟩

theorem WriteQueue.Left.trans {w₁ w₂ w₃ : WriteQueue} (h : w₁.Left w₂) (h' : w₂.Left w₃) :
    w₁.Left w₃ :=
  ⟨h'.queue.trans h.queue, h'.unfinishedTasks.trans h.unfinishedTasks,
    h'.accepted.trans h.accepted, h'.settled.trans h.settled⟩

/-- The step is not the first one of a call of `enqueue_append`. -/
def Job.NoCall (t t' : Job) : Prop := t = .idle → ∀ x, t' ≠ .enqueue x

/-- **Nothing is done about it**, unless `enqueue_append` is called. -/
theorem Writers.Stalled.step {c : Writers ι} (h : c.Stalled) (hc : LazyWorker.Ok c.protocol)
    {i : ι} (hstep : WriteStep F c.shared (c.locals i) w' t') (hcall : (c.locals i).NoCall t') :
    Writers.Stalled (c.set i w' t') ∧ c.shared.Left w' := by
  have hnoWorker (k : ℕ) (x : WorkerCall) : c.locals i ≠ .worker k x := fun hi ↦
    h.live k (.inr (hc.isAlive (i := i) (congrArg Job.role hi)))
  have hnext (hlive : ∀ k, ¬w'.worker.Live k) (hcalls : ∀ x, t' = .enqueue x → x.ended = true) :
      Writers.Stalled (c.set i w' t') :=
    ⟨hlive, Config.forall_locals (P := fun _ (t : Job) ↦ ∀ x, t = .enqueue x → x.ended = true)
      hcalls fun j _ ↦ h.calls j⟩
  generalize hi : c.locals i = t at hstep hcall
  cases hstep with
  | call a => exact absurd rfl (hcall rfl _)
  | @enqueue _ x _ hx =>
    have hended := h.calls i x hi
    cases hx <;> cases hended
  | hangUp | connect | disconnect | startRegion | region | endRegion | route =>
    exact ⟨hnext h.live (by simp), rfl, rfl, rfl, rfl⟩
  | begin hk => exact absurd (.inl hk) (h.live _)
  | @worker _ k x => exact absurd hi (hnoWorker k x)
  | @die k => exact absurd hi (hnoWorker k .ending)
  | direct => exact ⟨hnext h.live (by simp), rfl, rfl, rfl, rfl⟩

theorem Writers.Stalled.steps {c d : Writers ι} (h : c.Stalled) (hc : c.Reachable F)
    (hrun : Steps (fun w t w' t' ↦ WriteStep F w t w' t' ∧ t.NoCall t') c d) :
    c.shared.Left d.shared := by
  suffices hd : d.Reachable F ∧ d.Stalled ∧ c.shared.Left d.shared from hd.2.2
  refine hrun.invariant (I := fun d : Writers ι ↦
    d.Reachable F ∧ d.Stalled ∧ c.shared.Left d.shared) ?_ ⟨hc, h, .refl _⟩
  rintro d i w' t' ⟨hd, hstalled, hleft⟩ ⟨hstep, hcall⟩
  obtain ⟨hstalled', hleft'⟩ := hstalled.step hd.accounts.1 hstep hcall
  exact ⟨hd.step hstep, hstalled', hleft.trans hleft'⟩

/-- A step that does not begin a call of `enqueue_append`. -/
def NoCallStep (F : Fernet) (w : WriteQueue) (x : WaitJob) (w' : WriteQueue) (x' : WaitJob) :
    Prop := WaitStep F w x w' x' ∧ x.toJob.NoCall x'.toJob

/-- **`wait_for_pending_writes` hangs** if the worker has died and has left something behind: until
`enqueue_append` is called again, whatever else happens, nothing of it is stored or reported, and
nobody who waits for it returns. -/
theorem wait_hangs {c d : Waiters ι} (hc : c.writers.Reachable F) (hstalled : c.writers.Stalled)
    (hpending : c.shared.unfinishedTasks ≠ 0) (hrun : Steps (NoCallStep F) c d) :
    c.shared.Left d.shared ∧ ∀ i, c.locals i = .joining → d.locals i = .joining := by
  have hleft {d : Waiters ι} (hrun : Steps (NoCallStep F) c d) : c.shared.Left d.shared := by
    refine hstalled.steps (d := d.writers) hc (Steps.map (fun _ _ _ _ ht ↦ ?_) hrun)
    exact ht.1.toJob.imp_left fun hstep ↦ ⟨hstep, ht.2⟩
  refine ⟨hleft hrun, fun i hi ↦ hrun.follow (M := fun _ (x : WaitJob) ↦ x = .joining) i
    (fun e w' x' he hx hstep ↦ ?_) (fun _ _ _ _ _ hx _ ↦ hx) hi⟩
  have hjoin := hstep.1
  rw [hx] at hjoin
  cases hjoin with
  | join h => exact absurd ((hleft he).unfinishedTasks.symm.trans h) hpending

/-- The worker dies of the first of two items, and the caller waits for the other one. -/
theorem wait_hangs_backlog : ∃ c d : Waiters Bool, c.locals false = .joining ∧
    c.shared.unfinishedTasks = 1 ∧ d.shared.unfinishedTasks = 1 ∧ d.locals false = .joining := by
  let fernet : Fernet := ⟨fun _ _ p ↦ p, fun _ t ↦ some t⟩
  obtain ⟨c, hc, hqueued⟩ := exists_queued fernet (n := 2) (by decide)
  obtain ⟨e, e', hqueue⟩ := List.length_eq_two.mp hqueued.queue
  have htasks : 0 < c.shared.unfinishedTasks := by
    rw [hqueued.unfinishedTasks]
    exact Nat.two_pos
  have h1 := hc.tail true hqueued.worker (.worker (.get hqueue))
  have h2 := h1.tail true rfl (.worker (.append (.fail .other rfl)))
  have h3 := h2.tail true rfl (.worker .appendError)
  have h4 := h3.tail true rfl (.worker .reportError)
  have h5 := h4.tail true rfl (.worker (.taskDone htasks))
  have h6 := h5.tail true rfl .die
  generalize hdead : Config.set _ true _ Job.idle = dead at h6
  have hidle (b : Bool) : dead.locals b = .idle := by
    subst hdead
    cases b with
    | true => rfl
    | false => exact hqueued.idle
  have hone : dead.shared.unfinishedTasks = 1 := by
    subst hdead
    exact congrArg (· - 1) hqueued.unfinishedTasks
  have hhandle : dead.shared.worker.handle = some 0 := by
    subst hdead
    exact hqueued.handle
  have hstopped : dead.shared.worker.status 0 = .stopped := by
    subst hdead
    exact LazyWorker.State.mark_status_self _ _ _
  have hstalled : Writers.Stalled dead := by
    refine ⟨fun k hk ↦ ?_, fun b x hx ↦ absurd (hx.symm.trans (hidle b)) Job.noConfusion⟩
    obtain rfl := Option.some.inj (hhandle.symm.trans (h6.accounts.1.live k hk))
    simp [LazyWorker.State.Live, hstopped] at hk
  let c₀ : Waiters Bool := ⟨dead.shared, fun b ↦ bif b then .job .idle else .joining⟩
  have hwriters : c₀.writers = dead := by
    obtain ⟨w, locals⟩ := dead
    refine congrArg (Config.mk w) (funext fun b ↦ ?_)
    cases b with
    | true => exact (hidle true).symm
    | false => exact (hidle false).symm
  have hroute : NoCallStep fernet c₀.shared (.job .idle) _ (.job .idle) :=
    ⟨.job (.route ⟨⟨"eu.db".toList, [], []⟩, fun _ ↦ none⟩ fun _ ↦ .inr rfl),
      fun _ _ ↦ Job.noConfusion⟩
  have hrun : Steps (NoCallStep fernet) c₀ _ := Steps.thread .refl true hroute
  obtain ⟨hleft, hjoining⟩ := wait_hangs (c := c₀) (hwriters ▸ h6) (hwriters ▸ hstalled)
    (hone.trans_ne Nat.one_ne_zero) hrun
  exact ⟨c₀, _, rfl, hone, hleft.unfinishedTasks.trans hone, hjoining false rfl⟩

/-! ## What `_ensure_write_worker` ensures -/

/-- The call has started a worker or come past `_ensure_write_worker`. -/
def EnqueueCall.Ensured : EnqueueCall → Prop
  | .starting _ _ | .leaving _ false | .ensured _ | .resolving _ _ | .resolved _ _ | .full _
  | .returned => True
  | _ => False

/-- A call comes there by a live worker, or has been there. -/
theorem EnqueueStep.ensured {x x' : EnqueueCall} (h : EnqueueStep w x w' x') (hx' : x'.Ensured) :
    x.Ensured ∨ (∃ k, w.worker.Live k) ∨ ∃ k, w'.worker.Live k := by
  cases h with
  | @lookNone a inside => cases inside <;> cases hx'
  | @dead a inside => cases inside <;> cases hx'
  | alive h => exact .inr (.inl ⟨_, .inr h⟩)
  | launch => exact .inr (.inr ⟨_, .inl (LazyWorker.State.mark_status_self _ _ _)⟩)
  | @release a exception =>
    cases exception with
    | true => cases hx'
    | false => exact .inl trivial
  | launched | resolve | region | resolved | put | full | warn => exact .inl trivial
  | _ => cases hx'

/-- The thread is in a call of `enqueue_append`. -/
def Job.Enqueuing (t : Job) : Prop := ∃ x, t = .enqueue x

/-- **A call of `enqueue_append` that returns has met a live worker**, one that it has found or
started: at some moment of the call there was one. -/
theorem ensured_worker {c d : Writers ι} {i : ι} {args : EnqueueArgs}
    (hi : c.locals i = .enqueue (.looking args false))
    (hrun : StepsWhile (WriteStep F) i Job.Enqueuing c d) {x : EnqueueCall}
    (hd : d.locals i = .enqueue x) (hx : x.Ensured) :
    Passed (WriteStep F) i Job.Enqueuing (fun w ↦ ∃ k, w.worker.Live k) c d := by
  induction hrun generalizing x with
  | refl =>
    obtain rfl := Job.enqueue.inj (hi.symm.trans hd)
    cases hx
  | @tail d e hcd hde ih =>
    obtain ⟨⟨j, w', t', hstep, rfl⟩, y, hy⟩ := id hde
    by_cases hji : j = i
    · subst hji
      rw [Config.set_locals_self] at hd
      subst hd
      generalize ht : d.locals j = t at hstep
      cases hstep with
      | call a => cases hx
      | enqueue h =>
        rcases h.ensured hx with hbefore | hlive | hlive
        · exact (ih ht hbefore).tail hde
        · exact (Passed.now hcd hlive).tail hde
        · exact .now (hcd.tail hde) hlive
    · rw [Config.set_locals_ne d w' t' (Ne.symm hji)] at hd
      exact (ih hd hx).tail hde

/-- A caller finds the worker that another one has started. -/
theorem ensured_worker_found : ∃ c d : Writers Bool,
    d.locals false = .enqueue (.ensured spanEnqueue) ∧
      Passed (WriteStep ⟨fun _ _ p ↦ p, fun _ t ↦ some t⟩) false Job.Enqueuing
        (fun w ↦ ∃ k, w.worker.Live k) c d := by
  obtain ⟨c, hc, hqueued⟩ := exists_queued_zero ⟨fun _ _ p ↦ p, fun _ t ↦ some t⟩
  have hhandle := hqueued.handle
  let c₀ := c.set false c.shared (.enqueue (.looking spanEnqueue false))
  have hsome : c₀.shared.worker.handle ≠ none := fun hnone ↦
    Option.some_ne_none 0 (hhandle.symm.trans hnone)
  have h0 : StepsWhile (WriteStep ⟨fun _ _ p ↦ p, fun _ t ↦ some t⟩) false Job.Enqueuing c₀ c₀ :=
    .refl
  have h1 := h0.thread (.enqueue (.lookSome hsome)) ⟨_, rfl⟩
  have h2 := h1.thread (.enqueue (.load hhandle)) ⟨_, rfl⟩
  have h3 := h2.thread (.enqueue (.alive hqueued.isAlive)) ⟨_, rfl⟩
  exact ⟨c₀, _, rfl, ensured_worker (c := c₀) rfl h3 rfl trivial⟩

end WiseTraceLoom
