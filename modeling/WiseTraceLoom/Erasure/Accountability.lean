import WiseTraceLoom.Erasure.Workflow

/-!
# Every confirmed erasure on record

The erasure log has to name every confirmed request once and no other (`Stores.Accountable`), or
there is no evidence of the erasure.  The request is confirmed in one transaction and the fact is
appended in another, and a request that is confirmed is not confirmed again, so a failure between
the two leaves a confirmed request without a fact for good (`unrouted_erasure`).

`ConfirmEnv.Records` is when no such failure happens, and `erasure_accountable` says that a run in
which all confirmations are of this kind is accountable at every point.
-/

set_option autoImplicit false

namespace WiseTraceLoom

open NumberedLog

/-! ## Facts -/

/-- The request that a commit names. -/
def StorageCommit.erasureRequestId (row : StorageCommit) : Option ℤ :=
  match Json.loads row.payload with
  | some (.obj members) =>
    match Json.get? "erasure_request_id".toList members with
    | some (.int id) => some id
    | _ => none
  | _ => none

/-- The facts in the erasure log of a store. -/
def Store.erasureFacts (st : Store) : List StorageCommit :=
  (st.stream "erasure_log".toList).filter fun row ↦ row.recordType = "erasure_fact".toList

/-- Those in the store at a path that name a request. -/
def Stores.factsOf (w : Stores) (id : ℤ) (path : Str) : List StorageCommit :=
  (w.store path).erasureFacts.filter fun row ↦ row.erasureRequestId = some id

/-- The erasure log is right. -/
structure Stores.Accountable (w : Stores) : Prop where
  /-- A confirmed request has exactly one fact, in one of the stores. -/
  recorded : ∀ r ∈ w.default.erasureRequests, r.status = .confirmed →
    ∃ path row, w.factsOf r.id path = [row] ∧ ∀ path', path' ≠ path → w.factsOf r.id path' = []
  /-- A fact names a confirmed request. -/
  named : ∀ path, ∀ row ∈ (w.store path).erasureFacts, ∃ r ∈ w.default.erasureRequests,
    r.status = .confirmed ∧ row.erasureRequestId = some r.id

/-- The append of a fact that names a request. -/
structure StorageCommit.Names (row : StorageCommit) (id : ℤ) : Prop where
  /-- It is in the erasure log. -/
  streamId : row.streamId = "erasure_log".toList
  /-- It is a fact. -/
  recordType : row.recordType = "erasure_fact".toList
  /-- It names the request. -/
  request : row.erasureRequestId = some id

/-- What is read from a payload is what was written to it. -/
theorem StorageCommit.erasureRequestId_eq {row : StorageCommit} {masked : Payload} {id : ℤ}
    (hrow : row.payload = Json.dumps (.obj masked))
    (hid : Json.get? "erasure_request_id".toList masked = some (.int id)) :
    row.erasureRequestId = some id := by
  obtain ⟨members, hloads, hmembers⟩ := Json.loads_dumps_obj masked
  have hmember := hmembers "erasure_request_id".toList
  rw [hid] at hmember
  rw [StorageCommit.erasureRequestId, hrow, hloads]
  simp only [hmember, Option.map_some, Json.sortKeys]

theorem Store.erasureFacts_concat {st : Store} {row : StorageCommit} {id : ℤ} (h : row.Names id) :
    ({ st with commits := st.commits ++ [row] } : Store).erasureFacts =
      st.erasureFacts ++ [row] := by
  rw [Store.erasureFacts, Store.stream_concat, if_pos h.streamId, List.filter_append,
    ← Store.erasureFacts, List.filter_cons_of_pos (by simp [h.recordType]), List.filter_nil]

theorem Store.erasureFacts_of_commits {st st' : Store} (h : st'.commits = st.commits) :
    st'.erasureFacts = st.erasureFacts := by
  rw [Store.erasureFacts, Store.stream, h]
  rfl

/-! ## What a call has to keep -/

/-- What holds between the calls of a run. -/
structure Stores.Ok (w : Stores) : Prop where
  /-- The logs are in order. -/
  log : ∀ path, (w.store path).LogOk
  /-- Requests are told apart by their primary keys. -/
  ids : (w.default.erasureRequests.map ErasureRequest.id).Nodup
  /-- The erasure log is right. -/
  accountable : w.Accountable

variable {w : Stores}

theorem Stores.init_ok (defaultPath : Str) : (Stores.init defaultPath).Ok where
  log := fun _ _ ↦ streamOk_nil
  ids := List.nodup_nil
  accountable :=
    ⟨fun _ hr ↦ absurd hr List.not_mem_nil, fun _ _ hrow ↦ absurd hrow List.not_mem_nil⟩

/-- A request is found by its primary key. -/
theorem Stores.Ok.eq_of_id (h : w.Ok) {r r' : ErasureRequest} (hr : r ∈ w.default.erasureRequests)
    (hr' : r' ∈ w.default.erasureRequests) (hid : r.id = r'.id) : r = r' :=
  List.inj_on_of_nodup_map h.ids hr hr' hid

/-- The default store replaced by one with the same log. -/
theorem Stores.factsOf_set {st : Store} (hcommits : st.commits = w.default.commits) (id : ℤ)
    (path : Str) : (w.set w.defaultPath st).factsOf id path = w.factsOf id path ∧
      ((w.set w.defaultPath st).store path).erasureFacts = (w.store path).erasureFacts := by
  have hfacts : ((w.set w.defaultPath st).store path).erasureFacts =
      (w.store path).erasureFacts := by
    rw [Stores.set_store]
    split_ifs with hpath
    · rw [hpath]
      exact Store.erasureFacts_of_commits hcommits
    · rfl
  exact ⟨by rw [Stores.factsOf, hfacts, Stores.factsOf], hfacts⟩

theorem Stores.Ok.log_set (h : w.Ok) {st : Store} (hcommits : st.commits = w.default.commits)
    (path : Str) : ((w.set w.defaultPath st).store path).LogOk := by
  rw [Stores.set_store]
  split_ifs with hpath
  · exact (h.log w.defaultPath).of_commits_eq hcommits
  · exact h.log path

/-- A call that leaves logs and requests alone. -/
theorem Stores.Ok.frame (h : w.Ok) {st : Store} (hcommits : st.commits = w.default.commits)
    (hrequests : st.erasureRequests = w.default.erasureRequests) :
    (w.set w.defaultPath st).Ok where
  log := h.log_set hcommits
  ids := by
    rw [Stores.set_default, hrequests]
    exact h.ids
  accountable := by
    refine ⟨fun r hr hconfirmed ↦ ?_, fun path row hrow ↦ ?_⟩
    · rw [Stores.set_default, hrequests] at hr
      obtain ⟨path, row, hone, hnone⟩ := h.accountable.recorded r hr hconfirmed
      exact ⟨path, row, by rwa [(Stores.factsOf_set hcommits r.id path).1],
        fun path' hpath' ↦ by rw [(Stores.factsOf_set hcommits r.id path').1, hnone path' hpath']⟩
    · rw [(Stores.factsOf_set hcommits 0 path).2] at hrow
      rw [Stores.set_default, hrequests]
      exact h.accountable.named path row hrow

/-! ## Requesting -/

theorem Stores.Ok.request (h : w.Ok) (s : Str) (tenantId requestedBy scope : Option Str)
    (now : Timestamp) :
    (w.set w.defaultPath (requestErasure s tenantId requestedBy scope now w.default).2).Ok where
  log := h.log_set rfl
  ids := by
    rw [Stores.set_default, requestErasure, Store.insertErasureRequest, List.map_append,
      List.nodup_append]
    refine ⟨h.ids, List.nodup_singleton _, fun a ha b hb ↦ ?_⟩
    rw [List.mem_singleton.mp hb]
    exact (lt_nextId ha).ne
  accountable := by
    have hcommits : (requestErasure s tenantId requestedBy scope now w.default).2.commits =
        w.default.commits := rfl
    refine ⟨fun r hr hconfirmed ↦ ?_, fun path row hrow ↦ ?_⟩
    · rw [Stores.set_default, requestErasure, Store.insertErasureRequest, List.mem_append] at hr
      rcases hr with hr | hr
      · obtain ⟨path, row, hone, hnone⟩ := h.accountable.recorded r hr hconfirmed
        exact ⟨path, row, by rwa [(Stores.factsOf_set hcommits r.id path).1],
          fun path' hpath' ↦ by rw [(Stores.factsOf_set hcommits r.id path').1, hnone path' hpath']⟩
      · -- the new request is not confirmed
        rw [List.mem_singleton.mp hr] at hconfirmed
        cases hconfirmed
    · rw [(Stores.factsOf_set hcommits 0 path).2] at hrow
      obtain ⟨r, hr, hnamed⟩ := h.accountable.named path row hrow
      refine ⟨r, ?_, hnamed⟩
      rw [Stores.set_default]
      exact List.mem_append_left _ hr

/-! ## Confirming -/

/-- The stores after a fact was appended to the store at a path. -/
def Stores.record (w : Stores) (path : Str) (row : StorageCommit) : Stores :=
  w.set path { w.store path with commits := (w.store path).commits ++ [row] }

theorem Stores.record_requests (path : Str) (row : StorageCommit) :
    (w.record path row).default.erasureRequests = w.default.erasureRequests := by
  rw [Stores.record, Stores.default, Stores.set_defaultPath, Stores.set_store]
  split_ifs with hpath
  · rw [← hpath]
    rfl
  · rfl

theorem Stores.record_facts {row : StorageCommit} {id : ℤ} (h : row.Names id) (path path' : Str) :
    ((w.record path row).store path').erasureFacts =
      (w.store path').erasureFacts ++ if path' = path then [row] else [] := by
  rw [Stores.record, Stores.set_store]
  split_ifs with hpath
  · rw [Store.erasureFacts_concat h, hpath]
  · rw [List.append_nil]

theorem Stores.record_factsOf {row : StorageCommit} {id : ℤ} (h : row.Names id) (path path' : Str)
    (id' : ℤ) : (w.record path row).factsOf id' path' =
      w.factsOf id' path' ++ if path' = path ∧ id' = id then [row] else [] := by
  rw [Stores.factsOf, Stores.record_facts h, List.filter_append, ← Stores.factsOf]
  by_cases hpath : path' = path <;> by_cases hid : id' = id <;>
    simp [hpath, hid, h.request, Ne.symm, eq_comm]

/-- A request that is not confirmed is named by no fact. -/
theorem Stores.Ok.unnamed (h : w.Ok) {r : ErasureRequest} (hr : r ∈ w.default.erasureRequests)
    (hrequested : r.status = .requested) (path : Str) : w.factsOf r.id path = [] := by
  refine List.filter_eq_nil_iff.mpr fun row hrow hnames ↦ ?_
  obtain ⟨r', hr', hconfirmed, hnamed⟩ := h.accountable.named path row hrow
  have hid : r.id = r'.id := by
    rw [of_decide_eq_true hnames] at hnamed
    exact Option.some.inj hnamed
  rw [← h.eq_of_id hr hr' hid, hrequested] at hconfirmed
  cases hconfirmed

section Confirm

variable {st : Store} {r r' : ErasureRequest} {keys : List SubjectKey} {now : Timestamp}

theorem Store.confirm_ids : (st.confirm r.id keys now).erasureRequests.map ErasureRequest.id =
    st.erasureRequests.map ErasureRequest.id := by
  rw [Store.confirm, List.map_map]
  refine List.map_congr_left fun r' _ ↦ ?_
  simp only [Function.comp_apply]
  split_ifs <;> rfl

theorem Store.mem_confirm_self (hr : r ∈ st.erasureRequests) :
    r.confirm now ∈ (st.confirm r.id keys now).erasureRequests :=
  List.mem_map.mpr ⟨r, hr, if_pos rfl⟩

theorem Store.mem_confirm_of_ne (hr : r' ∈ st.erasureRequests) (hid : r'.id ≠ r.id) :
    r' ∈ (st.confirm r.id keys now).erasureRequests :=
  List.mem_map.mpr ⟨r', hr, if_neg hid⟩

/-- After a confirmation, a request is the confirmed one or an old one. -/
theorem Store.mem_confirm (hr' : r' ∈ (st.confirm r.id keys now).erasureRequests) :
    r'.id = r.id ∨ r' ∈ st.erasureRequests ∧ r'.id ≠ r.id := by
  obtain ⟨r₀, hr₀, rfl⟩ := List.mem_map.mp hr'
  by_cases hid : r₀.id = r.id
  · rw [if_pos hid]
    exact Or.inl hid
  · rw [if_neg hid]
    exact Or.inr ⟨hr₀, hid⟩

/-- The facts after a confirmation and the append of its fact. -/
theorem Stores.confirm_factsOf {row : StorageCommit} (hrow : row.Names r.id) (id : ℤ)
    (path path' : Str) :
    ((w.set w.defaultPath (w.default.confirm r.id keys now)).record path row).factsOf id path' =
      w.factsOf id path' ++ if path' = path ∧ id = r.id then [row] else [] := by
  have hcommits : (w.default.confirm r.id keys now).commits = w.default.commits := rfl
  rw [Stores.record_factsOf hrow, (Stores.factsOf_set hcommits id path').1]

/-- The requests after it. -/
theorem Stores.confirm_requests (path : Str) (row : StorageCommit) :
    ((w.set w.defaultPath (w.default.confirm r.id keys now)).record path
      row).default.erasureRequests = (w.default.confirm r.id keys now).erasureRequests := by
  rw [Stores.record_requests, Stores.set_default]

/-- **The erasure log stays right** when a request is confirmed and its fact is appended.  Nothing
named the request before, as it was not confirmed yet. -/
theorem Stores.Ok.accountable_confirm (h : w.Ok) (hr : r ∈ w.default.erasureRequests)
    (hrequested : r.status = .requested) {path : Str} {row : StorageCommit}
    (hrow : row.Names r.id) :
    ((w.set w.defaultPath (w.default.confirm r.id keys now)).record path row).Accountable where
  recorded := by
    intro r' hr' hconfirmed
    rw [Stores.confirm_requests] at hr'
    rcases Store.mem_confirm hr' with hid | ⟨hr', hid⟩
    · refine ⟨path, row, ?_, fun path' hpath' ↦ ?_⟩
      · rw [Stores.confirm_factsOf hrow, hid, h.unnamed hr hrequested, if_pos ⟨rfl, rfl⟩,
          List.nil_append]
      · rw [Stores.confirm_factsOf hrow, hid, h.unnamed hr hrequested, if_neg (by simp [hpath']),
          List.nil_append]
    · obtain ⟨path₀, row₀, hone, hnone⟩ := h.accountable.recorded r' hr' hconfirmed
      refine ⟨path₀, row₀, ?_, fun path' hpath' ↦ ?_⟩
      · rw [Stores.confirm_factsOf hrow, if_neg (by simp [hid]), List.append_nil, hone]
      · rw [Stores.confirm_factsOf hrow, if_neg (by simp [hid]), List.append_nil,
          hnone path' hpath']
  named := by
    intro path' row' hrow'
    have hcommits : (w.default.confirm r.id keys now).commits = w.default.commits := rfl
    rw [Stores.record_facts hrow, (Stores.factsOf_set hcommits 0 path').2,
      List.mem_append] at hrow'
    rw [Stores.confirm_requests]
    rcases hrow' with hrow' | hrow'
    · obtain ⟨r₀, hr₀, hconfirmed, hnamed⟩ := h.accountable.named path' row' hrow'
      have hid : r₀.id ≠ r.id := by
        intro hid
        rw [h.eq_of_id hr₀ hr hid, hrequested] at hconfirmed
        cases hconfirmed
      exact ⟨r₀, Store.mem_confirm_of_ne hr₀ hid, hconfirmed, hnamed⟩
    · have hsame : row' = row := by
        split_ifs at hrow' with hpath
        · exact List.mem_singleton.mp hrow'
        · exact absurd hrow' List.not_mem_nil
      exact ⟨r.confirm now, Store.mem_confirm_self hr, rfl, hsame ▸ hrow.request⟩

/-- **A confirmation whose fact is recorded.** -/
theorem Stores.Ok.confirm (h : w.Ok) (hr : r ∈ w.default.erasureRequests)
    (hrequested : r.status = .requested) {path : Str} {row : StorageCommit}
    (hrow : row.Names r.id)
    (hlog : (((w.set w.defaultPath (w.default.confirm r.id keys now)).record path row).store
      path).LogOk) :
    ((w.set w.defaultPath (w.default.confirm r.id keys now)).record path row).Ok where
  log := by
    have hcommits : (w.default.confirm r.id keys now).commits = w.default.commits := rfl
    intro path'
    by_cases hpath : path' = path
    · rw [hpath]
      exact hlog
    · rw [Stores.record, Stores.set_store, if_neg hpath]
      exact h.log_set hcommits path'
  ids := by
    rw [Stores.confirm_requests, Store.confirm_ids]
    exact h.ids
  accountable := h.accountable_confirm hr hrequested hrow

end Confirm

/-- What the append of a fact needs: a store to go to, a masking callback that leaves the request's
primary key in the payload, and an attempt at which the database is not locked. -/
structure ConfirmEnv.Appends (env : ConfirmEnv) (defaultPath : Str) (request : ErasureRequest)
    (fact : Payload) : Prop where
  /-- The request is read back. -/
  refresh : env.refreshFails = false
  /-- The tenant has no region, or one with a file. -/
  routed : ∃ path, (env.routing defaultPath).resolveEngine request.tenantId = .ok path
  /-- The callback returns a `dict` that still names the request. -/
  masked : ∃ masked, env.callback fact = .ok (.dict masked) ∧
    Json.get? "erasure_request_id".toList masked = some (.int request.id)
  /-- One of the attempts gets through. -/
  free : ∃ k < 20, (env.append.attempt k).locked = false

/-- **Then the fact is recorded.** -/
theorem recordErasure_writes {env : ConfirmEnv} {request : ErasureRequest} {n : ℕ} {fact : Payload}
    (hlog : ∀ path, (w.store path).LogOk)
    (hget : w.default.erasureRequest request.id = some request)
    (hfact : erasureFact request n = some fact)
    (happends : env.Appends w.defaultPath request fact) :
    ∃ path row, row.Names request.id ∧ (recordErasure env request.id n w).2 = w.record path row ∧
      ((w.record path row).store path).LogOk := by
  obtain ⟨path, hpath⟩ := happends.routed
  obtain ⟨masked, hmasked, hid⟩ := happends.masked
  obtain ⟨k, hk, hfree⟩ := happends.free
  let task : AppendTask :=
    ⟨"erasure_log".toList, "erasure_fact".toList, request.tenantId, 20, masked⟩
  have hprepare : (erasureAppend request fact).prepare env.callback = .ok task := by
    rw [AppendArgs.prepare, show (erasureAppend request fact).payload = fact from rfl,
      applyMasking_eq_ok.mpr hmasked]
    rfl
  obtain ⟨row, hwrites, hstream, htype, hpayload, hok⟩ :=
    appendLoop_writes env.append task (hlog path) 20 0 ⟨k, by omega, by omega, hfree⟩
  have happend : (WiseTraceLoom.appendCommit env.callback env.append (erasureAppend request fact)
      (w.store path)).2 =
      { w.store path with commits := (w.store path).commits ++ [row] } := by
    rw [appendCommit, hprepare]
    exact hwrites
  refine ⟨path, row, ⟨hstream, htype, StorageCommit.erasureRequestId_eq hpayload hid⟩, ?_, ?_⟩
  · rw [recordErasure, if_neg (by simp [happends.refresh]), hget]
    simp only [hfact, Stores.appendCommit, show (erasureAppend request fact).tenantId =
      request.tenantId from rfl, hpath, happend, Stores.record]
    split <;> rfl
  · rw [Stores.record, Stores.set_store, if_pos rfl, ← hwrites]
    exact hok

/-- The confirmations that put their request on record if they confirm it. -/
def ConfirmEnv.Records (env : ConfirmEnv) (id : ℤ) (w : Stores) : Prop :=
  ∀ r fact, w.default.erasureRequest id = some r → r.status = .requested →
    env.commitFails = false →
    erasureFact (r.confirm env.now) (w.default.liveKeys r.subjectId).length = some fact →
    env.Appends w.defaultPath (r.confirm env.now) fact

theorem Store.erasureRequest_id {st : Store} {id : ℤ} {r : ErasureRequest}
    (h : st.erasureRequest id = some r) : r.id = id := by
  simpa using List.find?_some h

/-- A confirmation changes the request it confirms and no other. -/
theorem Store.confirm_erasureRequest (st : Store) (id id' : ℤ) (keys : List SubjectKey)
    (now : Timestamp) : (st.confirm id keys now).erasureRequest id' =
      (st.erasureRequest id').map fun r ↦ if r.id = id then r.confirm now else r := by
  rw [Store.erasureRequest, Store.confirm, List.find?_map]
  have hsame : ((fun r : ErasureRequest ↦ decide (r.id = id')) ∘
      fun r ↦ if r.id = id then r.confirm now else r) = fun r ↦ decide (r.id = id') := by
    funext r
    simp only [Function.comp_apply]
    split_ifs <;> rfl
  rw [hsame]
  rfl

/-- The confirmed request is found by its primary key. -/
theorem Store.erasureRequest_confirm {st : Store} {id : ℤ} {r : ErasureRequest}
    (h : st.erasureRequest id = some r) (keys : List SubjectKey) (now : Timestamp) :
    (st.confirm r.id keys now).erasureRequest r.id = some (r.confirm now) := by
  rw [Store.confirm_erasureRequest, Store.erasureRequest_id h, h, Option.map_some,
    if_pos (Store.erasureRequest_id h)]

/-- **One confirmation.** -/
theorem Stores.Ok.confirmErasure (h : w.Ok) (env : ConfirmEnv) (id : ℤ)
    (hrecords : env.Records id w) : (confirmErasure env id w).2.Ok := by
  rw [WiseTraceLoom.confirmErasure]
  cases hget : w.default.erasureRequest id with
  | none => exact h
  | some r =>
    by_cases hr : r.status = .requested
    · simp only [hr, ne_eq, not_true_eq_false, if_false]
      split_ifs with hcommit
      · exact h
      · obtain ⟨fact, hfact⟩ : ∃ fact, erasureFact (r.confirm env.now)
            (w.default.liveKeys r.subjectId).length = some fact := ⟨_, rfl⟩
        have happends := hrecords r fact hget hr (by simpa using hcommit) hfact
        have hcommits : (w.default.confirm r.id (w.default.liveKeys r.subjectId) env.now).commits =
            w.default.commits := rfl
        have hconfirmed :=
          Store.erasureRequest_confirm hget (w.default.liveKeys r.subjectId) env.now
        rw [← Stores.set_default w (w.default.confirm r.id _ env.now)] at hconfirmed
        obtain ⟨path, row, hrow, hrecord, hlog⟩ :=
          recordErasure_writes (h.log_set hcommits) hconfirmed hfact happends
        rw [show (r.confirm env.now).id = r.id from rfl] at hrow hrecord
        rw [hrecord]
        exact h.confirm (List.mem_of_find?_eq_some hget) hr hrow hlog
    · simp only [ne_eq, hr, not_false_eq_true, if_true]
      exact h

/-- The payload of a fact names its request. -/
theorem erasureFact_names {r : ErasureRequest} {n : ℕ} {fact : Payload}
    (h : erasureFact r n = some fact) :
    Json.get? "erasure_request_id".toList fact = some (.int r.id) := by
  rw [erasureFact, Option.map_eq_some_iff] at h
  obtain ⟨confirmedAt, -, rfl⟩ := h
  rfl

/-- A confirmation in which nothing fails and nothing is masked records its request. -/
theorem ConfirmEnv.records_of_smooth {env : ConfirmEnv} (hrefresh : env.refreshFails = false)
    (hrouted : ∀ defaultPath tenantId, ∃ path,
      (env.routing defaultPath).resolveEngine tenantId = .ok path)
    (hmasked : ∀ fact, env.callback fact = .ok (.dict fact))
    (hfree : (env.append.attempt 0).locked = false) (id : ℤ) (w : Stores) : env.Records id w :=
  fun _ fact _ _ _ hfact ↦
    ⟨hrefresh, hrouted _ _, ⟨fact, hmasked fact, erasureFact_names hfact⟩, 0, by decide, hfree⟩

/-! ## Runs -/

/-- One call after the other on new stores, with what the confirmations returned or raised.
`allowed` says which confirmations may be among them. -/
inductive ErasureRun (F : Fernet) (allowed : ConfirmEnv → ℤ → Stores → Prop) (defaultPath : Str) :
    List (ℤ × Except ConfirmError ErasureRequest) → Stores → Prop
  | start : ErasureRun F allowed defaultPath [] (Stores.init defaultPath)
  | request {results : List (ℤ × Except ConfirmError ErasureRequest)} {w : Stores}
      (h : ErasureRun F allowed defaultPath results w) (s : Str)
      (tenantId requestedBy scope : Option Str) (now : Timestamp) :
      ErasureRun F allowed defaultPath results
        (w.set w.defaultPath (requestErasure s tenantId requestedBy scope now w.default).2)
  | encrypt {results : List (ℤ × Except ConfirmError ErasureRequest)} {w : Stores}
      (h : ErasureRun F allowed defaultPath results w) (env : EncryptEnv) (s p : Str)
      (tenantId : Option Str) :
      ErasureRun F allowed defaultPath results
        (w.set w.defaultPath (encryptForSubject F env s p tenantId w.default).2)
  | confirm {results : List (ℤ × Except ConfirmError ErasureRequest)} {w : Stores}
      (h : ErasureRun F allowed defaultPath results w) (env : ConfirmEnv) (id : ℤ)
      (hallowed : allowed env id w) :
      ErasureRun F allowed defaultPath (results ++ [(id, (confirmErasure env id w).1)])
        (confirmErasure env id w).2

/-- A confirmation that is not tried again: it returned or raised an `ErasureRequestError`. -/
def concluded : Except ConfirmError ErasureRequest → Bool
  | .ok _ => true
  | .error e => e.message.isSome

/-- Every confirmation that raised was tried again, until it was concluded. -/
def Settled (results : List (ℤ × Except ConfirmError ErasureRequest)) : Prop :=
  ∀ x ∈ results, ∃ y, (results.filter fun z ↦ z.1 = x.1).getLast? = some y ∧ concluded y.2

/-- An encryption only writes to the table of keys. -/
theorem encryptForSubject_effect (F : Fernet) (env : EncryptEnv) (s p : Str) (tenantId : Option Str)
    (st : Store) : (encryptForSubject F env s p tenantId st).2.commits = st.commits ∧
      (encryptForSubject F env s p tenantId st).2.erasureRequests = st.erasureRequests := by
  rw [encryptForSubject]
  cases st.activeSubjectKey s with
  | some key => exact ⟨rfl, rfl⟩
  | none =>
    cases hins : st.insertSubjectKey
        (st.newSubjectKey s tenantId (st.nextGeneration s) env.keyMaterial env.now) with
    | none => simp only [hins, and_self]
    | some st' =>
      simp only [hins, (Store.insertSubjectKey_eq_some hins).2, and_self]

theorem ErasureRun.ok {F : Fernet} {defaultPath : Str}
    {results : List (ℤ × Except ConfirmError ErasureRequest)}
    (h : ErasureRun F ConfirmEnv.Records defaultPath results w) : w.Ok := by
  induction h with
  | start => exact Stores.init_ok defaultPath
  | request _ s tenantId requestedBy scope now ih =>
    exact ih.request s tenantId requestedBy scope now
  | encrypt _ env s p tenantId ih =>
    obtain ⟨hcommits, hrequests⟩ := encryptForSubject_effect F env s p tenantId _
    exact ih.frame hcommits hrequests
  | confirm _ env id hrecords ih => exact ih.confirmErasure env id hrecords

/-! ### A region with a file, and one without -/

/-- A confirmation for a tenant whose region has a file. -/
def routedEnv : ConfirmEnv where
  now := noon
  commitFails := false
  refreshFails := false
  regionConfigs := [⟨some "acme".toList, "in".toList⟩]
  regionDbPaths := [("in".toList, "in.db".toList)]
  callback := fun payload ↦ .ok (.dict payload)
  append := ⟨fun _ ↦ ⟨noon, false⟩, none⟩

/-- The same before the region is registered. -/
def unroutedEnv : ConfirmEnv := { routedEnv with regionDbPaths := [] }

/-- The stores after Bob has asked for the erasure of his data. -/
def bobStores : Stores :=
  (Stores.init "store.db".toList).set "store.db".toList
    (requestErasure "bob".toList (some "acme".toList) none none noon
      (Store.create "store.db".toList)).2

theorem bob_requests (F : Fernet) (allowed : ConfirmEnv → ℤ → Stores → Prop) :
    ErasureRun F allowed "store.db".toList [] bobStores :=
  .request .start "bob".toList (some "acme".toList) none none noon

theorem routedEnv_routed (defaultPath : Str) (tenantId : Option Str) :
    ∃ path, (routedEnv.routing defaultPath).resolveEngine tenantId = .ok path := by
  have hrows : (routedEnv.routing defaultPath).regionConfigs =
      [⟨some "acme".toList, "in".toList⟩] := rfl
  by_cases hacme : tenantId = some "acme".toList
  · subst hacme
    exact ⟨"in.db".toList, rfl⟩
  · have hnone : (routedEnv.routing defaultPath).getRegionConfig tenantId = none := by
      cases tenantId with
      | none => rfl
      | some t =>
        have hother : decide (some "acme".toList = some t) = false :=
          decide_eq_false (Ne.symm hacme)
        simp only [Routing.getRegionConfig, hrows, Option.bind_some, List.find?_cons, hother]
        rfl
    exact ⟨defaultPath, by rw [Routing.resolveEngine, Routing.resolveRegion, hnone]; rfl⟩

/-- **The erasure log is right** at every point of a run whose confirmations record what they
confirm. -/
theorem erasure_accountable {F : Fernet} {defaultPath : Str}
    {results : List (ℤ × Except ConfirmError ErasureRequest)}
    (h : ErasureRun F ConfirmEnv.Records defaultPath results w) : w.Accountable := h.ok.accountable

/-- Bob's request is confirmed and on record. -/
theorem erasure_accountable_bob : ∃ w : Stores,
    (∃ r ∈ w.default.erasureRequests, r.status = .confirmed) ∧ w.Accountable := by
  let F : Fernet := ⟨fun _ _ p ↦ p, fun _ t ↦ some t⟩
  have hrun : ErasureRun F ConfirmEnv.Records "store.db".toList _
      (confirmErasure routedEnv 1 bobStores).2 :=
    .confirm (bob_requests F ConfirmEnv.Records) routedEnv 1
      (ConfirmEnv.records_of_smooth rfl routedEnv_routed (fun _ ↦ rfl) rfl 1 bobStores)
  have hconfirmed : ((confirmErasure routedEnv 1 bobStores).2.default.erasureRequests.map
      ErasureRequest.status) = [.confirmed] := rfl
  obtain ⟨r, hr, hstatus⟩ := List.mem_map.mp (hconfirmed ▸ List.mem_singleton_self _)
  exact ⟨_, ⟨r, hr, hstatus⟩, erasure_accountable hrun⟩

/-- What Bob's confirmation raises, and what it raises when it is tried again. -/
def unroutedResults : List (ℤ × Except ConfirmError ErasureRequest) :=
  [(1, .error (.append (.unrouted ⟨some "acme".toList, "in".toList⟩))),
    (1, .error (.resolved 1 .confirmed))]

/-- The stores after that. -/
def unrecordedStores : Stores :=
  bobStores.set "store.db".toList (bobStores.default.confirm 1 [] noon)

/-- **A confirmed erasure that is on no record.**  The region of the tenant has no file yet, so the
append raises; when it is tried again, the request is confirmed already. -/
theorem unrouted_erasure : ∃ (F : Fernet) (w : Stores),
    ErasureRun F (fun _ _ _ ↦ True) "store.db".toList unroutedResults w ∧ Settled unroutedResults ∧
      ¬ w.Accountable := by
  let F : Fernet := ⟨fun _ _ p ↦ p, fun _ t ↦ some t⟩
  have hfirst : confirmErasure unroutedEnv 1 bobStores =
      (.error (.append (.unrouted ⟨some "acme".toList, "in".toList⟩)), unrecordedStores) := rfl
  have hretry : confirmErasure routedEnv 1 unrecordedStores =
      (.error (.resolved 1 .confirmed), unrecordedStores) := rfl
  have h1 := ErasureRun.confirm (bob_requests F fun _ _ _ ↦ True) unroutedEnv 1 trivial
  rw [hfirst] at h1
  have h2 := ErasureRun.confirm h1 routedEnv 1 trivial
  rw [hretry] at h2
  refine ⟨F, unrecordedStores, h2, fun x hx ↦ ?_, fun haccountable ↦ ?_⟩
  · simp only [unroutedResults, List.mem_cons, List.not_mem_nil, or_false] at hx
    rcases hx with rfl | rfl <;> exact ⟨_, rfl, rfl⟩
  · have hfacts (path : Str) : (unrecordedStores.store path).erasureFacts = [] := by
      rw [unrecordedStores, Stores.set_store, bobStores, Stores.set_store]
      split_ifs <;> rfl
    obtain ⟨r, hr, hid, hstatus⟩ : ∃ r ∈ unrecordedStores.default.erasureRequests,
        r.id = 1 ∧ r.status = .confirmed := ⟨_, List.mem_cons_self, rfl, rfl⟩
    obtain ⟨path, row, hone, -⟩ := haccountable.recorded r hr hstatus
    rw [Stores.factsOf, hfacts] at hone
    cases hone

end WiseTraceLoom
