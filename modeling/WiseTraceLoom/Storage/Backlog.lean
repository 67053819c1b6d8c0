import WiseTraceLoom.Storage.WriteQueue

/-!
# What becomes of the items of the queue

`Accounts` is the invariant of the queue, of its records and of the stores, given what the one
worker is doing and which rows the workers have written for which items: the items that were
accepted are, in this order, those the worker is done with, the one it has in hand and those in the
queue; and the rows are, in this order, those of some of the items it was done with or has in hand,
with all that were stored among them.  That there is never a second worker is known from the
protocol (`Writers.lazyWorker_ok`), so that the steps of `enqueue_append`, those of the worker and
those of everybody else can be looked at one after the other, as if there were one caller, one
worker and one other thread.

An append may raise an exception after its commit; then its item has failed and has a row all the
same.  Where this does not happen (`CleanStep`) the rows are those of the stored items, and
`write_queue_accounts` reads from this what a caller may rely on.
-/

set_option autoImplicit false

namespace WiseTraceLoom

open Interleaving NumberedLog

variable {ι : Type} [DecidableEq ι] {F : Fernet} {st st' : Store} {w w' : WriteQueue} {t t' : Job}

/-! ## The invariant -/

/-- The row of an item that was stored. -/
def Outcome.row? : Outcome → Option StorageCommit
  | .stored row => some row
  | .failed => none

/-- The item the worker has in hand. -/
def WorkerCall.item : WorkerCall → Option QueueItem
  | .appending e _ | .reporting e | .finishing e _ _ => some e
  | .waiting | .ending => none

/-- The item whose append may have been committed. -/
def WorkerCall.tried : WorkerCall → Option QueueItem
  | .appending e (.committed _) => some e
  | .appending e c => if c.ended then some e else none
  | .reporting e | .finishing e _ _ => some e
  | .waiting | .ending => none

/-- The row it has written for it. -/
def WorkerCall.wrote : WorkerCall → Option (QueueItem × StorageCommit)
  | .appending e c => c.row?.map (e, ·)
  | .finishing e o _ => o.row?.map (e, ·)
  | .waiting | .reporting _ | .ending => none

/-- The items that were stored, with their rows. -/
def WriteQueue.stored (w : WriteQueue) : List (QueueItem × StorageCommit) :=
  w.settled.filterMap fun x ↦ x.2.row?.map (x.1, ·)

/-- The rows the worker has written to a store, with their tickets. -/
def WriteQueue.tagged (w : WriteQueue) (engine : Str) : List (StorageCommit × ℕ) :=
  (w.written engine).filterMap fun x ↦ x.2.map (x.1, ·)

/-- The tickets of these items are different numbers below `n`. -/
structure Ticketed (items : List QueueItem) (n : ℕ) : Prop where
  /-- They differ. -/
  nodup : (items.map QueueItem.ticket).Nodup
  /-- They are below `n`. -/
  lt : ∀ e ∈ items, e.ticket < n

/-- The next one gets the number `n`. -/
theorem Ticketed.insert {items items' : List QueueItem} {n : ℕ} (h : Ticketed items n)
    {e : QueueItem} (he : e.ticket = n) (hperm : items'.Perm (e :: items)) :
    Ticketed items' (n + 1) where
  nodup := by
    rw [(hperm.map QueueItem.ticket).nodup_iff, List.map_cons, List.nodup_cons]
    refine ⟨fun hmem ↦ ?_, h.nodup⟩
    obtain ⟨e', he', hticket⟩ := List.mem_map.mp hmem
    have := h.lt e' he'
    omega
  lt := by
    intro e' he'
    rcases List.mem_cons.mp (hperm.mem_iff.mp he') with rfl | he'
    · omega
    · exact (h.lt e' he').trans (Nat.lt_succ_self n)

/-- The invariant, where `x` is what the worker is doing (waiting, if there is none), and `rows` are
the rows that the workers have written. -/
structure Accounts (w : WriteQueue) (x : WorkerCall) (rows : List (QueueItem × StorageCommit)) :
    Prop where
  /-- The queue is bounded. -/
  bounded : w.queue.length ≤ writeQueueMaxsize
  /-- The items that were accepted: what is done, what is in hand, what waits. -/
  split : w.accepted = w.settled.map Prod.fst ++ x.item.toList ++ w.queue
  /-- What is not done is counted. -/
  unfinished : w.unfinishedTasks = x.item.toList.length + w.queue.length
  /-- Every `put_nowait` has its own number. -/
  tickets : Ticketed (w.accepted ++ w.refused) w.nextTicket
  /-- The records are about the rows that are there. -/
  mirror : ∀ engine, (w.written engine).map Prod.fst = (w.stores engine).commits
  /-- The rows are on record in the stores of their items, in this order. -/
  tagged : ∀ engine, w.tagged engine =
    (rows.filter fun y ↦ y.1.engine = engine).map fun y ↦ (y.2, y.1.ticket)
  /-- The worker has written at most one row for each item it has tried to store, in this order. -/
  once : (rows.map Prod.fst).Sublist (w.settled.map Prod.fst ++ x.tried.toList)
  /-- It has written those of the items that were stored. -/
  stored : (w.stored ++ x.wrote.toList).Sublist rows
  /-- The append in hand is that of the item in hand. -/
  of : ∀ e c, x = .appending e c → (∀ error, c ≠ .raised error) → c.Of e.args
  /-- The rows are those of their items. -/
  writes : ∀ y ∈ rows, y.1.args.Writes y.2

/-- No row was written but for the items that were stored. -/
def WriteQueue.Tidy (w : WriteQueue) (x : WorkerCall) (rows : List (QueueItem × StorageCommit)) :
    Prop := rows = w.stored ++ x.wrote.toList

omit [DecidableEq ι] in
theorem accounts_init (stores : Str → Store) (routing : Routing) :
    Accounts (Writers.init ι stores routing).shared .waiting [] where
  bounded := Nat.zero_le _
  split := rfl
  unfinished := rfl
  tickets := ⟨List.nodup_nil, by simp [Writers.init]⟩
  mirror := fun engine ↦ by
    rw [Writers.init, List.map_map]
    exact List.map_id _
  tagged := by simp [Writers.init, WriteQueue.tagged]
  once := List.nil_sublist _
  stored := List.Sublist.refl _
  of := by simp
  writes := by simp

variable {x x' : WorkerCall} {rows : List (QueueItem × StorageCommit)}

theorem WorkerCall.tried_sublist (x : WorkerCall) : x.tried.toList.Sublist x.item.toList := by
  cases x with
  | appending e c =>
    cases c <;> simp [WorkerCall.tried, WorkerCall.item, AppendCall.ended]
  | _ => exact List.Sublist.refl _

/-- The routing, the lock and the threads are not what the accounts are about. -/
theorem Accounts.frame (h : Accounts w x rows) (regions : RegionCache)
    (worker : LazyWorker.State) :
    Accounts { w with regions := regions, worker := worker } x rows :=
  ⟨h.bounded, h.split, h.unfinished, h.tickets, h.mirror, h.tagged, h.once, h.stored, h.of,
    h.writes⟩

/-- Nor is anything but the item in hand and its row. -/
theorem Accounts.of_eq (h : Accounts w x rows) (hitem : x'.item = x.item)
    (htried : x'.tried = x.tried) (hwrote : x'.wrote = x.wrote) (hof : ∀ e c, x' ≠ .appending e c) :
    Accounts w x' rows where
  bounded := h.bounded
  split := hitem ▸ h.split
  unfinished := hitem ▸ h.unfinished
  tickets := h.tickets
  mirror := h.mirror
  tagged := h.tagged
  once := htried ▸ h.once
  stored := hwrote ▸ h.stored
  of := fun e c hx ↦ absurd hx (hof e c)
  writes := h.writes

/-! ## Callers -/

/-- **An item is put into the queue.** -/
theorem Accounts.put (h : Accounts w x rows) (hroom : w.queue.length < writeQueueMaxsize)
    {e : QueueItem} (he : e.ticket = w.nextTicket) : Accounts (w.put e) x rows where
  bounded := by
    rw [WriteQueue.put, List.length_append, List.length_singleton]
    exact hroom
  split := by
    simp only [WriteQueue.put, h.split, List.append_assoc]
  unfinished := by
    simp only [WriteQueue.put, List.length_append, List.length_singleton]
    have := h.unfinished
    omega
  tickets := by
    have hperm : ((w.put e).accepted ++ w.refused).Perm (e :: (w.accepted ++ w.refused)) := by
      rw [WriteQueue.put, List.append_assoc]
      exact List.perm_middle
    have hnext : (w.put e).nextTicket = w.nextTicket + 1 := by
      simp only [WriteQueue.nextTicket, WriteQueue.put, List.length_append, List.length_singleton]
      omega
    rw [hnext]
    exact h.tickets.insert he hperm
  mirror := h.mirror
  tagged := h.tagged
  once := h.once
  stored := h.stored
  of := h.of
  writes := h.writes

/-- **An item finds the queue full.** -/
theorem Accounts.refuse (h : Accounts w x rows) {e : QueueItem} (he : e.ticket = w.nextTicket) :
    Accounts (w.refuse e) x rows where
  bounded := h.bounded
  split := h.split
  unfinished := h.unfinished
  tickets := by
    have hperm : (w.accepted ++ (w.refuse e).refused).Perm (e :: (w.accepted ++ w.refused)) := by
      rw [WriteQueue.refuse, ← List.append_assoc]
      exact List.perm_append_singleton e _
    have hnext : (w.refuse e).nextTicket = w.nextTicket + 1 := by
      simp only [WriteQueue.nextTicket, WriteQueue.refuse, List.length_append,
        List.length_singleton]
      omega
    rw [hnext]
    exact h.tickets.insert he hperm
  mirror := h.mirror
  tagged := h.tagged
  once := h.once
  stored := h.stored
  of := h.of
  writes := h.writes

/-- **A step of a caller.** -/
theorem EnqueueStep.accounts {c c' : EnqueueCall} (h : EnqueueStep w c w' c')
    (hw : Accounts w x rows) : Accounts w' x rows := by
  cases h with
  | put h => exact hw.put h rfl
  | full h => exact hw.refuse rfl
  | acquire h => exact hw.frame _ _
  | create => exact hw.frame _ _
  | launch => exact hw.frame _ _
  | release => exact hw.frame _ _
  | region => exact hw.frame _ _
  | _ => exact hw

/-! ## Stores -/

theorem WriteQueue.written_after_self {engine : Str} {ticket : Option ℕ} {rows : List StorageCommit}
    (h : st'.commits = (w.stores engine).commits ++ rows) :
    (w.after engine ticket st').written engine =
      w.written engine ++ rows.map fun row ↦ (row, ticket) := by
  rw [WriteQueue.after]
  simp only [Function.update_self, h, List.drop_left]

theorem WriteQueue.written_after_ne {engine engine' : Str} {ticket : Option ℕ}
    (h : engine' ≠ engine) : (w.after engine ticket st').written engine' = w.written engine' :=
  Function.update_of_ne h _ _

/-- The records keep up with the rows. -/
theorem WriteQueue.mirror_after
    (hw : ∀ engine, (w.written engine).map Prod.fst = (w.stores engine).commits)
    {engine : Str} {ticket : Option ℕ} (h : (w.stores engine).commits <+: st'.commits)
    (engine' : Str) : ((w.after engine ticket st').written engine').map Prod.fst =
      ((w.after engine ticket st').stores engine').commits := by
  by_cases he : engine' = engine
  · subst he
    obtain ⟨rows, hrows⟩ := h
    rw [written_after_self hrows.symm, List.map_append, hw, after_stores, Fleet.after_self,
      List.map_map, ← hrows]
    congr 1
    exact List.map_id _
  · rw [written_after_ne he, after_stores, Fleet.after_ne _ _ he]
    exact hw engine'

/-- **What others write to a store** is not the worker's. -/
theorem Accounts.direct (hw : Accounts w x rows) {engine : Str}
    (h : (w.stores engine).commits <+: st'.commits) :
    Accounts (w.after engine none st') x rows where
  bounded := hw.bounded
  split := hw.split
  unfinished := hw.unfinished
  tickets := hw.tickets
  mirror := WriteQueue.mirror_after hw.mirror h
  tagged := by
    intro engine'
    refine Eq.trans ?_ (hw.tagged engine')
    rw [WriteQueue.tagged, WriteQueue.tagged]
    by_cases he : engine' = engine
    · subst he
      obtain ⟨rows, hrows⟩ := h
      rw [WriteQueue.written_after_self hrows.symm, List.filterMap_append]
      simp
    · rw [WriteQueue.written_after_ne he]
  once := hw.once
  stored := hw.stored
  of := hw.of
  writes := hw.writes

/-! ## The worker -/

/-- **An item is taken from the queue.** -/
theorem Accounts.get (hw : Accounts w .waiting rows) {e : QueueItem} {queue : List QueueItem}
    (h : w.queue = e :: queue) :
    Accounts { w with queue := queue } (.appending e (.called e.args)) rows where
  bounded := by
    have := hw.bounded
    rw [h, List.length_cons] at this
    exact (Nat.le_succ _).trans this
  split := by
    have := hw.split
    rw [h] at this
    simpa [WorkerCall.item] using this
  unfinished := by
    have := hw.unfinished
    rw [h, List.length_cons] at this
    simp only [WorkerCall.item, Option.toList_none, Option.toList_some, List.length_nil,
      List.length_singleton] at this ⊢
    omega
  tickets := hw.tickets
  mirror := hw.mirror
  tagged := hw.tagged
  once := hw.once
  stored := hw.stored
  of := by
    rintro e' c ⟨⟩ -
    exact rfl
  writes := hw.writes

/-- Whatever was tried stays so. -/
theorem AppendStep.tried_sublist {e : QueueItem} {c c' : AppendCall} (h : AppendStep st c st' c') :
    (WorkerCall.appending e c).tried.toList.Sublist (WorkerCall.appending e c').tried.toList := by
  cases h with
  | fail error hended => exact (WorkerCall.tried_sublist _).trans (List.Sublist.refl _)
  | _ => simp [WorkerCall.tried, AppendCall.ended]

/-- **A step of the append in hand.** -/
theorem Accounts.append {e : QueueItem} {c c' : AppendCall}
    (hw : Accounts w (.appending e c) rows) (h : AppendStep (w.stores e.engine) c st' c') :
    ∃ rows', Accounts (w.after e.engine (some e.ticket) st') (.appending e c') rows' ∧
      ((∀ row error, c = .committed row → c' ≠ .raised error) → w.Tidy (.appending e c) rows →
        w.Tidy (.appending e c') rows') := by
  have hof : ∀ e' a, WorkerCall.appending e c' = .appending e' a → (∀ error, a ≠ .raised error) →
      a.Of e'.args := by
    rintro e' a ⟨⟩ hne
    refine h.of (hw.of e c rfl ?_) hne
    rintro error rfl
    cases h with
    | fail _ hended => cases hended
  have hprefix := h.grows.commits
  rcases h.row?_or with ⟨hsame, hrow⟩ | ⟨row, hnone, rfl, hnew⟩
  · -- nothing is written
    have hwrote : (WorkerCall.appending e c').wrote.toList.Sublist
        (WorkerCall.appending e c).wrote.toList := by
      rcases hrow with hrow | ⟨row, error, rfl, rfl⟩
      · rw [WorkerCall.wrote, WorkerCall.wrote, hrow]
      · exact List.nil_sublist _
    refine ⟨rows, ⟨hw.bounded, hw.split, hw.unfinished, hw.tickets, WriteQueue.mirror_after
      hw.mirror hprefix, fun engine ↦ ?_, hw.once.trans (h.tried_sublist.append_left _),
      (hwrote.append_left _).trans hw.stored, hof, hw.writes⟩, fun hclean htidy ↦ ?_⟩
    · refine Eq.trans ?_ (hw.tagged engine)
      rw [WriteQueue.tagged, WriteQueue.tagged]
      by_cases he : engine = e.engine
      · subst he
        rw [WriteQueue.written_after_self
          (show st'.commits = _ ++ [] by rw [hsame, List.append_nil]), List.map_nil,
          List.append_nil]
      · rw [WriteQueue.written_after_ne he]
    · rcases hrow with hrow | ⟨row, error, hc, hc'⟩
      · rw [WriteQueue.Tidy, WorkerCall.wrote] at htidy ⊢
        rwa [hrow]
      · exact absurd hc' (hclean row error hc)
  · -- the row is written
    have htried : (WorkerCall.appending e c).tried = none := by
      cases h
      rfl
    have hbefore : (WorkerCall.appending e c).wrote = none := by
      rw [WorkerCall.wrote, hnone]
      rfl
    have honce := hw.once
    rw [htried, Option.toList_none, List.append_nil] at honce
    have hstored := hw.stored
    rw [hbefore, Option.toList_none, List.append_nil] at hstored
    refine ⟨rows ++ [(e, row)], ⟨hw.bounded, hw.split, hw.unfinished, hw.tickets,
      WriteQueue.mirror_after hw.mirror hprefix, fun engine ↦ ?_, ?_,
      hstored.append (List.Sublist.refl _), hof, fun y hy ↦ ?_⟩, fun _ htidy ↦ ?_⟩
    · rw [List.filter_append, List.map_append]
      refine Eq.trans ?_ (congrArg (· ++ _) (hw.tagged engine))
      rw [WriteQueue.tagged, WriteQueue.tagged]
      by_cases he : engine = e.engine
      · subst he
        rw [WriteQueue.written_after_self hnew, List.filterMap_append]
        simp
      · rw [WriteQueue.written_after_ne he]
        simp [Ne.symm he]
    · rw [List.map_append]
      exact honce.append (List.Sublist.refl _)
    · rcases List.mem_append.mp hy with hy | hy
      · exact hw.writes y hy
      · rw [List.mem_singleton.mp hy]
        exact hof e (.committed row) rfl (by simp)
    · rw [WriteQueue.Tidy, hbefore, Option.toList_none, List.append_nil] at htidy
      rw [WriteQueue.Tidy, htidy]
      rfl

/-- **The worker is done with an item.** -/
theorem Accounts.taskDone {e : QueueItem} {o : Outcome} {exception : Bool}
    (hw : Accounts w (.finishing e o exception) rows) :
    Accounts (w.taskDone e o) (.finished exception) rows ∧
      (w.Tidy (.finishing e o exception) rows →
        (w.taskDone e o).Tidy (.finished exception) rows) := by
  have hempty : (WorkerCall.finished exception).item = none ∧
      (WorkerCall.finished exception).tried = none ∧
        (WorkerCall.finished exception).wrote = none := by
    cases exception <;> exact ⟨rfl, rfl, rfl⟩
  have hstored : (w.taskDone e o).stored = w.stored ++ (o.row?.map (e, ·)).toList := by
    rw [WriteQueue.stored, WriteQueue.taskDone, List.filterMap_append]
    cases o <;> rfl
  have hsum : (w.taskDone e o).stored ++ (WorkerCall.finished exception).wrote.toList =
      w.stored ++ (WorkerCall.finishing e o exception).wrote.toList := by
    rw [hempty.2.2, hstored, Option.toList_none, List.append_nil]
    rfl
  refine ⟨⟨hw.bounded, ?_, ?_, hw.tickets, hw.mirror, hw.tagged, ?_, hsum ▸ hw.stored, ?_,
    hw.writes⟩, fun htidy ↦ ?_⟩
  · rw [hempty.1, WriteQueue.taskDone]
    simpa [WorkerCall.item] using hw.split
  · have := hw.unfinished
    rw [hempty.1]
    simp only [WriteQueue.taskDone, WorkerCall.item, Option.toList_none, Option.toList_some,
      List.length_nil, List.length_singleton] at this ⊢
    omega
  · rw [hempty.2.1, WriteQueue.taskDone]
    simpa [WorkerCall.tried] using hw.once
  · cases exception <;> simp [WorkerCall.finished]
  · rwa [WriteQueue.Tidy, hsum]

/-- **A step of the worker.** -/
theorem WorkerStep.accounts (h : WorkerStep w x w' x') (hw : Accounts w x rows) (k : ℕ) :
    ∃ rows', Accounts w' x' rows' ∧ ((Job.worker k x).FailsClean (.worker k x') →
      w.Tidy x rows → w'.Tidy x' rows') := by
  cases h with
  | get h => exact ⟨rows, hw.get h, fun _ htidy ↦ htidy⟩
  | append h =>
    obtain ⟨rows', hw', htidy⟩ := hw.append h
    refine ⟨rows', hw', fun hclean ↦ htidy ?_⟩
    rintro row error rfl rfl
    exact hclean
  | appended => exact ⟨rows, hw.of_eq rfl rfl rfl (by simp), fun _ htidy ↦ htidy⟩
  | appendError => exact ⟨rows, hw.of_eq rfl rfl rfl (by simp), fun _ htidy ↦ htidy⟩
  | report => exact ⟨rows, hw.of_eq rfl rfl rfl (by simp), fun _ htidy ↦ htidy⟩
  | reportError => exact ⟨rows, hw.of_eq rfl rfl rfl (by simp), fun _ htidy ↦ htidy⟩
  | taskDone h => exact ⟨rows, hw.taskDone.1, fun _ ↦ hw.taskDone.2⟩
  | taskDoneError h =>
    have hcount := hw.unfinished
    rw [h, WorkerCall.item, Option.toList_some, List.length_singleton] at hcount
    omega

/-! ## All threads -/

/-- The one worker, if there is one, is doing `x`; if there is none, `x` is to wait. -/
structure Writers.Working (c : Writers ι) (x : WorkerCall) : Prop where
  /-- Every worker is doing `x`. -/
  agree : ∀ i k y, c.locals i = .worker k y → y = x
  /-- There is one. -/
  exists_or : x = .waiting ∨ ∃ i k, c.locals i = .worker k x

omit [DecidableEq ι] in
/-- **There is at most one worker.** -/
theorem Writers.sole {c : Writers ι} (hc : LazyWorker.Ok c.protocol) {i j : ι} {k m : ℕ}
    {y z : WorkerCall} (hi : c.locals i = .worker k y) (hj : c.locals j = .worker m z) :
    i = j := by
  have hrole (j : ι) (m : ℕ) (z : WorkerCall) (hj : c.locals j = .worker m z) :
      c.protocol.locals j = .worker m := congrArg Job.role hj
  exact hc.sole (hrole i k y hi) (hrole j m z hj)

omit [DecidableEq ι] in
theorem Writers.Working.of_locals {c : Writers ι} (hc : LazyWorker.Ok c.protocol) {i : ι} {k : ℕ}
    (hi : c.locals i = .worker k x) : c.Working x := by
  refine ⟨fun j m y hj ↦ ?_, Or.inr ⟨i, k, hi⟩⟩
  have hij := Writers.sole hc hi hj
  subst hij
  exact (Job.worker.inj (hj.symm.trans hi)).2

/-- A step of a thread that is not the worker. -/
theorem Writers.Working.other {c : Writers ι} (h : c.Working x) {i : ι}
    (ht : ∀ k y, c.locals i ≠ .worker k y) (ht' : ∀ k y, t' ≠ .worker k y) :
    Writers.Working (c.set i w' t') x := by
  refine ⟨fun j k y hj ↦ ?_, h.exists_or.imp_right ?_⟩
  · by_cases hji : j = i
    · subst hji
      rw [Config.set_locals_self] at hj
      exact absurd hj (ht' k y)
    · rw [Config.set_locals_ne c w' t' hji] at hj
      exact h.agree j k y hj
  · rintro ⟨j, k, hj⟩
    refine ⟨j, k, ?_⟩
    rwa [Config.set_locals_ne c w' t' (by rintro rfl; exact ht k x hj)]

/-- **Every step keeps the accounts**, and writes rows for stored items only if it is clean. -/
theorem Writers.Working.step {c : Writers ι} (h : c.Working x) {i : ι}
    (hc : LazyWorker.Ok c.protocol) (hc' : LazyWorker.Ok (Writers.protocol (c.set i w' t')))
    (hw : Accounts c.shared x rows) (hstep : WriteStep F c.shared (c.locals i) w' t') :
    ∃ x' rows', Writers.Working (c.set i w' t') x' ∧ Accounts w' x' rows' ∧
      ((c.locals i).FailsClean t' → c.shared.Tidy x rows → w'.Tidy x' rows') := by
  generalize ht : c.locals i = t at hstep
  have hother (hi : ∀ k y, t ≠ .worker k y) (hi' : ∀ k y, t' ≠ .worker k y)
      (hw' : Accounts w' x rows) (hsettled : w'.settled = c.shared.settled) :
      ∃ x' rows', Writers.Working (c.set i w' t') x' ∧ Accounts w' x' rows' ∧
        (t.FailsClean t' → c.shared.Tidy x rows → w'.Tidy x' rows') := by
    refine ⟨x, rows, h.other (ht ▸ hi) hi', hw', fun _ htidy ↦ ?_⟩
    rwa [WriteQueue.Tidy, WriteQueue.stored, hsettled]
  cases hstep with
  | call a => exact hother (by simp) (by simp) hw rfl
  | enqueue hcall =>
    refine hother (by simp) (by simp) (hcall.accounts hw) ?_
    cases hcall <;> rfl
  | hangUp => exact hother (by simp) (by simp) hw rfl
  | @begin k hk =>
    -- nobody was a worker before
    have hwaiting : x = .waiting := by
      refine h.exists_or.resolve_right ?_
      rintro ⟨j, m, hj⟩
      have hji : j ≠ i := by
        rintro rfl
        simp [ht] at hj
      refine hji (Writers.sole hc' (k := m) (y := x) ?_ (Config.set_locals_self c i _ _))
      rw [Config.set_locals_ne c _ _ hji]
      exact hj
    subst hwaiting
    exact ⟨_, rows, .of_locals hc' (Config.set_locals_self c i _ _), hw.frame _ _,
      fun _ htidy ↦ htidy⟩
  | @worker _ k y y' hcall =>
    obtain rfl := h.agree i k y ht
    obtain ⟨rows', hw', htidy⟩ := hcall.accounts hw k
    exact ⟨_, rows', .of_locals hc' (Config.set_locals_self c i _ _), hw', htidy⟩
  | @die k =>
    obtain rfl := h.agree i k _ ht
    refine ⟨.waiting, rows, ⟨fun j m y hj ↦ ?_, Or.inl rfl⟩,
      (hw.frame _ _).of_eq rfl rfl rfl (by simp), fun _ htidy ↦ htidy⟩
    by_cases hji : j = i
    · subst hji
      simp [Config.set_locals_self] at hj
    · rw [Config.set_locals_ne c _ _ hji] at hj
      exact absurd (Writers.sole hc hj ht) hji
  | connect => exact hother (by simp) (by simp) hw rfl
  | direct hcall => exact hother (by simp) (by simp) (hw.direct hcall.grows.commits) rfl
  | disconnect => exact hother (by simp) (by simp) hw rfl
  | startRegion => exact hother (by simp) (by simp) hw rfl
  | region => exact hother (by simp) (by simp) (hw.frame _ _) rfl
  | endRegion => exact hother (by simp) (by simp) hw rfl
  | route => exact hother (by simp) (by simp) (hw.frame _ _) rfl

/-- **The invariant holds after every run.** -/
theorem Writers.Reachable.accounts {c : Writers ι} (h : c.Reachable F) :
    LazyWorker.Ok c.protocol ∧ ∃ x rows, c.Working x ∧ Accounts c.shared x rows := by
  obtain ⟨old, site, routing, -, hrun⟩ := h
  refine ⟨Writers.lazyWorker_ok hrun, ?_⟩
  induction hrun with
  | refl => exact ⟨.waiting, [], ⟨by simp [Writers.init], Or.inl rfl⟩, accounts_init (ι := ι) _ _⟩
  | @tail d e hd hde ih =>
    have hd' := Writers.lazyWorker_ok hd
    have he' := Writers.lazyWorker_ok (hd.tail hde)
    obtain ⟨i, w', t', hstep, rfl⟩ := hde
    obtain ⟨x, rows, hx, hw⟩ := ih
    obtain ⟨x', rows', hx', hw', -⟩ := hx.step hd' he' hw hstep
    exact ⟨x', rows', hx', hw'⟩

/-- **After a run of clean steps** all rows are those of stored items. -/
theorem Writers.CleanlyReachable.accounts {c : Writers ι} (h : c.CleanlyReachable F) :
    LazyWorker.Ok c.protocol ∧
      ∃ x rows, c.Working x ∧ Accounts c.shared x rows ∧ c.shared.Tidy x rows := by
  obtain ⟨old, site, routing, -, hrun⟩ := h
  have hwrite {d e : Writers ι} (h : Steps (CleanStep F) d e) : Steps (WriteStep F) d e :=
    h.mono fun _ _ _ _ hstep ↦ hstep.1
  refine ⟨Writers.lazyWorker_ok (hwrite hrun), ?_⟩
  induction hrun with
  | refl =>
    exact ⟨.waiting, [], ⟨by simp [Writers.init], Or.inl rfl⟩, accounts_init (ι := ι) _ _, rfl⟩
  | @tail d e hd hde ih =>
    have hd' := Writers.lazyWorker_ok (hwrite hd)
    have he' := Writers.lazyWorker_ok (hwrite (hd.tail hde))
    obtain ⟨i, w', t', ⟨hstep, hclean⟩, rfl⟩ := hde
    obtain ⟨x, rows, hx, hw, htidy⟩ := ih
    obtain ⟨x', rows', hx', hw', htidy'⟩ := hx.step hd' he' hw hstep
    exact ⟨x', rows', hx', hw', htidy' hclean htidy⟩

/-! ## What follows -/

theorem Accounts.nodup (h : Accounts w x rows) :
    ((w.settled.map Prod.fst ++ x.item.toList ++ w.queue).map QueueItem.ticket).Nodup := by
  have := h.tickets.nodup
  rw [List.map_append] at this
  rw [← h.split]
  exact (List.nodup_append.mp this).1

theorem WriteQueue.mem_stored {e : QueueItem} {row : StorageCommit} :
    (e, row) ∈ w.stored ↔ (e, .stored row) ∈ w.settled := by
  rw [WriteQueue.stored, List.mem_filterMap]
  constructor
  · rintro ⟨⟨e', o⟩, hmem, ho⟩
    cases o with
    | stored row' =>
      obtain ⟨rfl, rfl⟩ := Prod.mk.inj (Option.some_inj.mp ho)
      exact hmem
    | failed => cases ho
  · exact fun hmem ↦ ⟨_, hmem, rfl⟩

theorem WorkerCall.wrote_sublist (x : WorkerCall) :
    (x.wrote.toList.map Prod.fst).Sublist x.item.toList := by
  cases x with
  | appending e c =>
    rw [WorkerCall.wrote, WorkerCall.item]
    cases c.row? <;> simp
  | finishing e o exception =>
    rw [WorkerCall.wrote, WorkerCall.item]
    cases o.row? <;> simp
  | waiting | reporting e | ending => simp [WorkerCall.wrote]

/-- The rows of the worker come in the order in which their items were accepted. -/
theorem Accounts.sublist (h : Accounts w x rows) : (rows.map Prod.fst).Sublist w.accepted := by
  rw [h.split]
  exact (h.once.trans (x.tried_sublist.append_left _)).trans (List.sublist_append_left _ _)

/-- The rows of a store that were written for an item. -/
def WriteQueue.rowsOf (w : WriteQueue) (e : QueueItem) (engine : Str) : List StorageCommit :=
  ((w.written engine).filter fun x ↦ x.2 = some e.ticket).map Prod.fst

theorem WriteQueue.rowsOf_eq (w : WriteQueue) (e : QueueItem) (engine : Str) :
    w.rowsOf e engine = ((w.tagged engine).filter fun x ↦ x.2 = e.ticket).map Prod.fst := by
  rw [WriteQueue.rowsOf, WriteQueue.tagged]
  induction w.written engine with
  | nil => rfl
  | cons y l ih =>
    obtain ⟨row, ticket⟩ := y
    cases ticket with
    | none => simpa using ih
    | some n => by_cases hn : n = e.ticket <;> simp [hn, ih]

/-- The rows written for an item are those of the worker's with its ticket. -/
theorem Accounts.rowsOf_eq (h : Accounts w x rows) (e : QueueItem) (engine : Str) :
    w.rowsOf e engine = ((rows.filter fun y ↦ y.1.ticket = e.ticket).filter
      fun y ↦ y.1.engine = engine).map Prod.snd := by
  rw [WriteQueue.rowsOf_eq, h.tagged, List.filter_map, List.map_map, List.filter_filter,
    List.filter_filter]
  simp only [Function.comp_def, Bool.and_comm]

/-- No row was written for an item whose ticket is not among those of the worker's rows. -/
theorem Accounts.rowsOf_eq_nil (h : Accounts w x rows) {e : QueueItem}
    (he : ∀ y ∈ rows, y.1.ticket ≠ e.ticket) (engine : Str) : w.rowsOf e engine = [] := by
  have hnone : rows.filter (fun y ↦ y.1.ticket = e.ticket) = [] :=
    List.filter_eq_nil_iff.mpr fun y hy ↦ by simpa using he y hy
  rw [h.rowsOf_eq, hnone]
  rfl

/-- Items are known by their tickets. -/
theorem Accounts.eq_of_ticket (h : Accounts w x rows) {e e' : QueueItem}
    (he : e ∈ w.accepted) (he' : e' ∈ w.accepted) (hticket : e.ticket = e'.ticket) : e = e' := by
  have := h.nodup
  rw [← h.split] at this
  exact List.inj_on_of_nodup_map this he he' hticket

theorem filter_eq_singleton {α β : Type} [DecidableEq β] {f : α → β} {l : List α}
    (h : (l.map f).Nodup) {a : α} (ha : a ∈ l) : l.filter (fun b ↦ f b = f a) = [a] := by
  have hnodup : (l.filter fun b ↦ f b = f a).Nodup := (List.Nodup.of_map f h).filter _
  have hmem (b : α) : b ∈ l.filter (fun b ↦ f b = f a) ↔ b ∈ [a] := by
    rw [List.mem_filter, List.mem_singleton, decide_eq_true_eq]
    refine ⟨fun hb ↦ List.inj_on_of_nodup_map h hb.1 ha hb.2, ?_⟩
    rintro rfl
    exact ⟨ha, rfl⟩
  exact List.perm_singleton.mp
    ((List.perm_ext_iff_of_nodup hnodup (List.nodup_singleton a)).mpr hmem)

/-- **One row was written for an item that has one**, to its own store. -/
theorem Accounts.rowsOf_of_mem (h : Accounts w x rows) {e : QueueItem} {row : StorageCommit}
    (he : (e, row) ∈ rows) (engine : Str) :
    w.rowsOf e engine = if engine = e.engine then [row] else [] := by
  have hnodup : (rows.map fun y ↦ y.1.ticket).Nodup := by
    have hsub := h.sublist.map QueueItem.ticket
    rw [List.map_map] at hsub
    refine hsub.nodup ?_
    rw [h.split]
    exact h.nodup
  have hone : rows.filter (fun y ↦ y.1.ticket = e.ticket) = [(e, row)] :=
    filter_eq_singleton hnodup he
  rw [h.rowsOf_eq, hone]
  by_cases hengine : engine = e.engine
  · simp [hengine]
  · simp [hengine, Ne.symm hengine]

/-- The row of an item that was stored is one of the worker's. -/
theorem Accounts.mem_rows (h : Accounts w x rows) {y : QueueItem × StorageCommit}
    (hy : y ∈ w.stored) : y ∈ rows := h.stored.subset (List.mem_append_left _ hy)

/-- **Rows of one stream are in order.** -/
theorem Accounts.ordered (h : Accounts w x rows) (hlog : ∀ engine, (w.stores engine).LogOk)
    {y z : QueueItem × StorageCommit} (hyz : [y, z].Sublist w.stored)
    (hengine : y.1.engine = z.1.engine) (hstream : y.2.streamId = z.2.streamId) :
    y.2.version < z.2.version := by
  -- the two rows, in this order, among those of the store
  have hcommits : [y.2, z.2].Sublist (w.stores z.1.engine).commits := by
    have hstored := ((hyz.trans (List.sublist_append_left _ _)).trans h.stored).filter
      fun y ↦ y.1.engine = z.1.engine
    have hpair : [y, z].filter (fun y ↦ y.1.engine = z.1.engine) = [y, z] := by
      simp [hengine]
    rw [hpair] at hstored
    have hrows := hstored.map fun y ↦ (y.2, y.1.ticket)
    rw [← h.tagged] at hrows
    have htagged : ((w.tagged z.1.engine).map Prod.fst).Sublist
        (w.stores z.1.engine).commits := by
      rw [← h.mirror, WriteQueue.tagged]
      induction w.written z.1.engine with
      | nil => exact .slnil
      | cons r l ih =>
        obtain ⟨row, ticket⟩ := r
        cases ticket with
        | none => exact ih.cons row
        | some n => exact ih.cons_cons row
    exact (hrows.map Prod.fst).trans htagged
  have hsame : [y.2, z.2].Sublist ((w.stores z.1.engine).stream z.2.streamId) := by
    have hfilter := hcommits.filter fun row ↦ row.streamId = z.2.streamId
    have hpair : [y.2, z.2].filter (fun row ↦ row.streamId = z.2.streamId) = [y.2, z.2] := by
      simp [hstream]
    rwa [hpair] at hfilter
  exact List.pairwise_iff_forall_sublist.mp (hlog z.1.engine z.2.streamId).numbered.pairwise hsame

/-- What may have become of an item. -/
inductive Fate where
  | queued
  | inProcess
  | stored (row : StorageCommit)
  | failed

/-- The item has met this fate. -/
def Writers.Met (c : Writers ι) (e : QueueItem) : Fate → Prop
  | .queued => e ∈ c.shared.queue
  | .inProcess => ∃ i k x, c.locals i = .worker k x ∧ x.item = some e
  | .stored row => (e, .stored row) ∈ c.shared.settled
  | .failed => (e, .failed) ∈ c.shared.settled

/-- What holds of the queue, its workers and its items. -/
structure Writers.Accounted (c : Writers ι) : Prop where
  /-- No two threads are workers. -/
  oneWorker : ∀ i j k m x y, c.locals i = .worker k x → c.locals j = .worker m y → i = j
  /-- No two workers are alive. -/
  oneAlive : ∀ k m, c.shared.worker.IsAlive k → c.shared.worker.IsAlive m → k = m
  /-- The queue holds at most its capacity. -/
  bounded : c.shared.queue.length ≤ writeQueueMaxsize
  /-- It is on record for each row of each store who has written it. -/
  recorded : ∀ engine, (c.shared.written engine).map Prod.fst = (c.shared.stores engine).commits
  /-- No two items have the same ticket. -/
  tickets : ((c.shared.accepted ++ c.shared.refused).map QueueItem.ticket).Nodup
  /-- An item that was accepted is queued, in process, stored or failed, and only one of these. -/
  exactlyOne : ∀ e ∈ c.shared.accepted, ∃! fate, c.Met e fate
  /-- A stored item has one row, and one row only in all stores together. -/
  storedOnce : ∀ e row, c.Met e (.stored row) → e.args.Writes row ∧
    ∀ engine, c.shared.rowsOf e engine = if engine = e.engine then [row] else []
  /-- An item that is queued or has failed has none. -/
  notStored : ∀ e, c.Met e .queued ∨ c.Met e .failed → ∀ engine, c.shared.rowsOf e engine = []
  /-- Nor has one that was refused. -/
  refused : ∀ e ∈ c.shared.refused, e ∉ c.shared.accepted ∧
    ∀ engine, c.shared.rowsOf e engine = []
  /-- The stored items are listed in the order in which they were accepted. -/
  stored : (c.shared.stored.map Prod.fst).Sublist c.shared.accepted ∧
    ∀ e row, (e, row) ∈ c.shared.stored ↔ c.Met e (.stored row)
  /-- Their versions on a stream of a store come in the same order. -/
  ordered : c.shared.stored.Pairwise fun y z ↦ y.1.engine = z.1.engine →
    y.1.streamId = z.1.streamId → y.2.version < z.2.version

omit [DecidableEq ι] in
/-- The item in process is the one in the worker's hand. -/
theorem Writers.Working.inProcess {c : Writers ι} (h : c.Working x) (e : QueueItem) :
    c.Met e .inProcess ↔ x.item = some e := by
  constructor
  · rintro ⟨i, k, y, hi, hy⟩
    rwa [← h.agree i k y hi]
  · intro hx
    rcases h.exists_or with rfl | ⟨i, k, hi⟩
    · cases hx
    · exact ⟨i, k, x, hi, hx⟩

/-- The items the worker is done with, the one in its hand and those in the queue are different
ones. -/
theorem Accounts.disjoint (h : Accounts w x rows) :
    (w.settled.map Prod.fst).Nodup ∧ (∀ e ∈ w.settled.map Prod.fst, x.item ≠ some e) ∧
      ∀ e ∈ w.queue, e ∉ w.settled.map Prod.fst ∧ x.item ≠ some e := by
  have hnodup := List.Nodup.of_map _ h.nodup
  rw [List.nodup_append, List.nodup_append] at hnodup
  obtain ⟨⟨hsettled, -, hhand⟩, -, hqueue⟩ := hnodup
  refine ⟨hsettled, fun e he hx ↦ ?_, fun e he ↦ ⟨fun hmem ↦ ?_, fun hx ↦ ?_⟩⟩
  · exact hhand e he e (by simp [hx]) rfl
  · exact hqueue e (List.mem_append_left _ hmem) e he rfl
  · exact hqueue e (List.mem_append_right _ (by simp [hx])) e he rfl

omit [DecidableEq ι] in
/-- An item that is settled meets the fate it was settled with, and no other. -/
theorem Accounts.met_settled {c : Writers ι} (hx : c.Working x) (hw : Accounts c.shared x rows)
    {e : QueueItem} {o : Outcome} (he : (e, o) ∈ c.shared.settled) {fate : Fate}
    (hfate : c.Met e fate) :
    (∃ row, o = .stored row ∧ fate = .stored row) ∨ o = .failed ∧ fate = .failed := by
  obtain ⟨hnodup, hhand, hqueue⟩ := hw.disjoint
  have hmem : e ∈ c.shared.settled.map Prod.fst := List.mem_map_of_mem he
  have hsame {o' : Outcome} (he' : (e, o') ∈ c.shared.settled) : o = o' :=
    (Prod.mk.inj (List.inj_on_of_nodup_map hnodup he he' rfl)).2
  cases fate with
  | queued => exact absurd hmem (hqueue e hfate).1
  | inProcess => exact absurd ((hx.inProcess e).mp hfate) (hhand e hmem)
  | stored row => exact Or.inl ⟨row, hsame hfate, rfl⟩
  | failed => exact Or.inr ⟨hsame hfate, rfl⟩

omit [DecidableEq ι] in
/-- **Every item that was accepted meets one fate.** -/
theorem Accounts.exactlyOne {c : Writers ι} (hx : c.Working x) (hw : Accounts c.shared x rows)
    {e : QueueItem} (he : e ∈ c.shared.accepted) : ∃! fate, c.Met e fate := by
  obtain ⟨-, hhand, hqueue⟩ := hw.disjoint
  rw [hw.split, List.mem_append, List.mem_append, Option.mem_toList] at he
  rcases he with (he | he) | he
  · obtain ⟨⟨e, o⟩, hmem, rfl⟩ := List.mem_map.mp he
    cases o with
    | stored row =>
      refine ⟨.stored row, hmem, fun fate hfate ↦ ?_⟩
      rcases hw.met_settled hx hmem hfate with ⟨row', hrow, rfl⟩ | ⟨hrow, -⟩
      · rw [Outcome.stored.inj hrow]
      · cases hrow
    | failed =>
      refine ⟨.failed, hmem, fun fate hfate ↦ ?_⟩
      rcases hw.met_settled hx hmem hfate with ⟨row', hrow, -⟩ | ⟨-, rfl⟩
      · cases hrow
      · rfl
  · refine ⟨.inProcess, (hx.inProcess e).mpr he, fun fate hfate ↦ ?_⟩
    cases fate with
    | queued => exact absurd he (hqueue e hfate).2
    | inProcess => rfl
    | stored row => exact absurd he (hhand e (List.mem_map_of_mem hfate))
    | failed => exact absurd he (hhand e (List.mem_map_of_mem hfate))
  · refine ⟨.queued, he, fun fate hfate ↦ ?_⟩
    cases fate with
    | queued => rfl
    | inProcess => exact absurd ((hx.inProcess e).mp hfate) (hqueue e he).2
    | stored row => exact absurd (List.mem_map_of_mem hfate) (hqueue e he).1
    | failed => exact absurd (List.mem_map_of_mem hfate) (hqueue e he).1

omit [DecidableEq ι] in
/-- An item that is queued or has failed has no row. -/
theorem Accounts.notStored {c : Writers ι} (hx : c.Working x) (hw : Accounts c.shared x rows)
    (htidy : c.shared.Tidy x rows) {e : QueueItem} (he : c.Met e .queued ∨ c.Met e .failed)
    (engine : Str) : c.shared.rowsOf e engine = [] := by
  obtain ⟨-, hhand, hqueue⟩ := hw.disjoint
  have haccepted : e ∈ c.shared.accepted := by
    rw [hw.split]
    rcases he with he | he
    · exact List.mem_append_right _ he
    · exact List.mem_append_left _ (List.mem_append_left _ (List.mem_map_of_mem he))
  refine hw.rowsOf_eq_nil (fun y hy hticket ↦ ?_) engine
  have hy' : y.1 ∈ c.shared.accepted := hw.sublist.subset (List.mem_map_of_mem hy)
  obtain rfl := hw.eq_of_ticket hy' haccepted hticket
  rw [htidy] at hy
  rcases List.mem_append.mp hy with hy | hy
  · -- a row of an item that was stored
    have hstored : c.Met y.1 (.stored y.2) := WriteQueue.mem_stored.mp hy
    rcases he with he | he
    · exact (hqueue y.1 he).1 (List.mem_map_of_mem hstored)
    · rcases hw.met_settled hx he hstored with ⟨row, hrow, -⟩ | ⟨-, hfate⟩
      · cases hrow
      · cases hfate
  · -- the row of the item in hand
    have hitem : x.item = some y.1 :=
      Option.mem_toList.mp (x.wrote_sublist.subset (List.mem_map_of_mem hy))
    rcases he with he | he
    · exact (hqueue y.1 he).2 hitem
    · exact hhand y.1 (List.mem_map_of_mem he) hitem

/-- An item that was refused has no row either. -/
theorem Accounts.refused (h : Accounts w x rows) {e : QueueItem} (he : e ∈ w.refused) :
    e ∉ w.accepted ∧ ∀ engine, w.rowsOf e engine = [] := by
  have hnodup := h.tickets.nodup
  rw [List.map_append, List.nodup_append] at hnodup
  have hne (e' : QueueItem) (he' : e' ∈ w.accepted) : e'.ticket ≠ e.ticket :=
    hnodup.2.2 _ (List.mem_map_of_mem he') _ (List.mem_map_of_mem he)
  refine ⟨fun hmem ↦ hne e hmem rfl, h.rowsOf_eq_nil fun y hy ↦ hne y.1 ?_⟩
  exact h.sublist.subset (List.mem_map_of_mem hy)

/-- **The accounts of the background writer.**  Take any run of any number of threads that call
`enqueue_append`, of the workers these start, and of threads that work on the stores directly, in
which the appends of the workers store a row or fail without storing one.  In the state reached at
most one worker is alive; the queue holds at most its capacity; every item that was accepted is
queued, in process, stored with one row, or has failed, and only one of these; an item that was
refused has no row in any store; and the versions of the stored items on each stream of each store
come in the order in which the items were accepted. -/
theorem write_queue_accounts {c : Writers ι} (h : c.CleanlyReachable F) : c.Accounted := by
  obtain ⟨hc, x, rows, hx, hw, htidy⟩ := h.accounts
  exact {
    oneWorker := fun i j k m y z hi hj ↦ Writers.sole hc hi hj
    oneAlive := fun k m hk hm ↦ hc.subsingleton hk hm
    bounded := hw.bounded
    recorded := hw.mirror
    tickets := hw.tickets.nodup
    exactlyOne := fun e he ↦ hw.exactlyOne hx he
    storedOnce := fun e row he ↦
      have hmem := hw.mem_rows (WriteQueue.mem_stored.mpr he)
      ⟨hw.writes (e, row) hmem, hw.rowsOf_of_mem hmem⟩
    notStored := fun e he ↦ hw.notStored hx htidy he
    refused := fun e he ↦ hw.refused he
    stored := ⟨(((List.sublist_append_left _ _).trans hw.stored).map Prod.fst).trans hw.sublist,
      fun e row ↦ WriteQueue.mem_stored⟩
    ordered := List.pairwise_iff_forall_sublist.mpr fun {y z} hyz hengine hstream ↦ by
      have hrow (v : QueueItem × StorageCommit) (hv : v ∈ c.shared.stored) :
          v.2.streamId = v.1.streamId := (hw.writes v (hw.mem_rows hv)).streamId
      refine hw.ordered (fun engine ↦ (h.reachable.auditOk.1 engine).log) hyz hengine ?_
      rw [hrow y (hyz.subset (by simp)), hrow z (hyz.subset (by simp)), hstream] }

/-! ### Two workers

The append of the first item fails and so does the warning about it, which ends the worker.  The
second caller starts another worker, which stores the second item.
-/

/-- The arguments of both callers. -/
def spanEnqueue : EnqueueArgs := ⟨"spans".toList, "span".toList, [], none⟩

/-- The cache when it has an entry for the global row, which is not there. -/
def RegionCache.withDefault (x : RegionCache) : RegionCache :=
  { x with entries := Function.update x.entries none (some none) }

/-- Without any assignments the default store is found, through the cache or not. -/
theorem resolveDefault_solo {w : WriteQueue} {a : EnqueueArgs} (ha : a.tenantId = none)
    (hrow : w.regions.routing.row none = none)
    (hcache : w.regions.entries none = none ∨ w.regions.entries none = some none) :
    Solo EnqueueStep (w, .ensured a)
      ({ w with regions := w.regions.withDefault },
        .resolved a w.regions.routing.defaultPath) := by
  have hresolve : Solo EnqueueStep (w, .ensured a) (w, .resolving a (.resolving none)) :=
    ha ▸ Solo.step .refl .resolve
  have hgot : Solo EnqueueStep (w, .ensured a)
      ({ w with regions := w.regions.withDefault }, .resolving a (.got none none)) := by
    rcases hcache with hmiss | hhit
    · have hread : RegionStep w.regions (.missed none) w.regions (.read none none) :=
        hrow ▸ .readGlobalOnly
      exact ((hresolve.step (.region (.miss hmiss))).step (.region hread)).step (.region .store)
    · have hsame : w.regions.withDefault = w.regions := by
        rw [RegionCache.withDefault, ← hhit, Function.update_eq_self]
      rw [hsame]
      exact hresolve.step (.region (.hit hhit))
  exact (hgot.step (.region .resolve)).step (ha ▸ .resolved)

theorem Writers.resolveDefault {c : Writers ι} (i : ι) {a : EnqueueArgs}
    (hi : c.locals i = .enqueue (.ensured a)) (ha : a.tenantId = none)
    (hrow : c.shared.regions.routing.row none = none)
    (hcache : c.shared.regions.entries none = none ∨ c.shared.regions.entries none = some none) :
    Steps (CleanStep F) c (c.set i { c.shared with regions := c.shared.regions.withDefault }
      (.enqueue (.resolved a c.shared.regions.routing.defaultPath))) := by
  have hsolo := resolveDefault_solo ha hrow hcache
  exact hsolo.lift (fun h ↦ ⟨WriteStep.enqueue h, trivial⟩) i rfl hi

/-- A run with two workers, the second of which is waiting in the end. -/
theorem two_workers (F : Fernet) : ∃ c : Writers Bool, c.CleanlyReachable F ∧
    c.shared.settled = [(⟨spanEnqueue, "store.db".toList, 0⟩, .failed),
      (⟨spanEnqueue, "store.db".toList, 1⟩, .stored firstRow.column)] ∧
    c.locals true = .worker 1 .waiting := by
  let routing : Routing := ⟨"store.db".toList, [], []⟩
  let old : Fleet Bool Str := Fleet.init id fun _ ↦ []
  let t := spanTask []
  have hmask : AppendStep raceStart (.called (spanArgs [])) raceStart (.ready t 0) :=
    .mask (fun p ↦ .ok (.dict p)) rfl
  have hversion : AppendStep raceStart (.ready t 0) raceStart (.versioned t 0 1) :=
    .readVersion (by decide)
  have hprev : AppendStep raceStart (.versioned t 0 1) raceStart (.linked t 0 1 none) :=
    .readPrev rfl
  have hcommit : AppendStep raceStart (.stamped t 0 1 none noon) raceMiddle
    (.committed firstRow.column) := .commit rfl
  have hstep {c d : Writers Bool} (h : Steps (CleanStep F) c d) (i : Bool) {w' : WriteQueue}
      {t' : Job} (ht : WriteStep F d.shared (d.locals i) w' t')
      (hclean : (d.locals i).FailsClean t') : Steps (CleanStep F) c (d.set i w' t') :=
    Steps.thread h i ⟨ht, hclean⟩
  have h0 : Steps (CleanStep F) (Writers.init Bool old.shared routing) _ := .refl
  have h1 := hstep h0 false (.call spanEnqueue) trivial
  have h2 := hstep h1 false (.enqueue (.lookNone rfl)) trivial
  have h3 := hstep h2 false (.enqueue (.acquire rfl)) trivial
  have h4 := hstep h3 false (.enqueue (.lookNone rfl)) trivial
  have h5 := hstep h4 false (.enqueue .create) trivial
  have h6 := hstep h5 false (.enqueue .launch) trivial
  have h7 := hstep h6 true (.begin (k := 0) rfl) trivial
  have h8 := hstep h7 false (.enqueue (.launched (by decide))) trivial
  have h9 := hstep h8 false (.enqueue .release) trivial
  have h10 := h9.trans (Writers.resolveDefault false rfl rfl rfl (.inl rfl))
  have h11 := hstep h10 false (.enqueue (.put (by decide))) trivial
  have h12 := hstep h11 false (.hangUp rfl) trivial
  have h13 := hstep h12 true (.worker (.get rfl)) trivial
  have h14 := hstep h13 true (.worker (.append (.fail .other rfl))) trivial
  have h15 := hstep h14 true (.worker .appendError) trivial
  have h16 := hstep h15 true (.worker .reportError) trivial
  have h17 := hstep h16 true (.worker (.taskDone (by decide))) trivial
  have h18 := hstep h17 true .die trivial
  have h19 := hstep h18 false (.call spanEnqueue) trivial
  have h20 := hstep h19 false (.enqueue (.lookSome (by decide))) trivial
  have h21 := hstep h20 false (.enqueue (.load rfl)) trivial
  have h22 := hstep h21 false (.enqueue (.dead (by decide))) trivial
  have h23 := hstep h22 false (.enqueue (.acquire rfl)) trivial
  have h24 := hstep h23 false (.enqueue (.lookSome (by decide))) trivial
  have h25 := hstep h24 false (.enqueue (.load rfl)) trivial
  have h26 := hstep h25 false (.enqueue (.dead (by decide))) trivial
  have h27 := hstep h26 false (.enqueue .create) trivial
  have h28 := hstep h27 false (.enqueue .launch) trivial
  have h29 := hstep h28 true (.begin (k := 1) rfl) trivial
  have h30 := hstep h29 false (.enqueue (.launched (by decide))) trivial
  have h31 := hstep h30 false (.enqueue .release) trivial
  have h32 := h31.trans (Writers.resolveDefault false rfl rfl rfl (.inr rfl))
  have h33 := hstep h32 false (.enqueue (.put (by decide))) trivial
  have h34 := hstep h33 true (.worker (.get rfl)) trivial
  have h35 := hstep h34 true (.worker (.append hmask)) trivial
  have h36 := hstep h35 true (.worker (.append hversion)) trivial
  have h37 := hstep h36 true (.worker (.append hprev)) trivial
  have h38 := hstep h37 true (.worker (.append (.stamp noon))) trivial
  have h39 := hstep h38 true (.worker (.append hcommit)) trivial
  have h40 := hstep h39 true (.worker (.append .finish)) trivial
  have h41 := hstep h40 true (.worker .appended) trivial
  have h42 := hstep h41 true (.worker (.taskDone (by decide))) trivial
  exact ⟨_, ⟨old, _, routing, .refl, h42⟩, rfl, rfl⟩

/-- They have kept their accounts. -/
theorem two_workers_accounts : ∃ c : Writers Bool, c.Accounted ∧
    c.shared.stored = [(⟨spanEnqueue, "store.db".toList, 1⟩, firstRow.column)] := by
  obtain ⟨c, hc, hsettled, -⟩ := two_workers ⟨fun _ _ p ↦ p, fun _ t ↦ some t⟩
  refine ⟨c, write_queue_accounts hc, ?_⟩
  rw [WriteQueue.stored, hsettled]
  rfl

/-- When nothing is unfinished, which is what `wait_for_pending_writes` waits for, every item that
was accepted is stored or has failed. -/
theorem Writers.Reachable.joined {c : Writers ι} (h : c.Reachable F)
    (hc : c.shared.unfinishedTasks = 0) : c.shared.accepted = c.shared.settled.map Prod.fst := by
  obtain ⟨-, x, rows, -, hw⟩ := h.accounts
  have hcount := hw.unfinished
  rw [hc] at hcount
  have hqueue : c.shared.queue = [] := List.length_eq_zero_iff.mp (by omega)
  have hitem : x.item.toList = [] := List.length_eq_zero_iff.mp (by omega)
  rw [hw.split, hqueue, hitem, List.append_nil, List.append_nil]

end WiseTraceLoom
