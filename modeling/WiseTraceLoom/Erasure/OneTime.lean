import WiseTraceLoom.Erasure.Accountability

/-!
# One confirmation per request

Any number of calls to `confirm_erasure` run at the same time.  Each looks at the status of its
request, reads the live keys, commits, and appends the fact to the store its tenant is routed to,
which may be another one: `RoutedStep`.

The commit does not look at the status again, so two calls that have both found the request waiting
both confirm it and both append a fact (`confirm_race`).  Where a call commits only while its
request is still waiting, and nothing else goes wrong (`OnceStep`), confirming is a one-time
transition: `one_time_confirmation`.
-/

set_option autoImplicit false

namespace WiseTraceLoom

open Interleaving

variable {ι : Type} {st st' : Store} {w w' : Stores} {id : ℤ}

/-! ## Calls on several stores -/

/-- Is the fact being appended? -/
def ConfirmCall.isAppending : ConfirmCall → Bool
  | .appending _ _ => true
  | _ => false

/-- A call to `confirm_erasure`, and the store its fact goes to. -/
structure RoutedCall where
  /-- Where the call stands. -/
  call : ConfirmCall
  /-- The store its tenant is routed to, once the fact is being appended. -/
  path : Str

/-- One step of a call: on the default store, or on the one the fact is appended to. -/
inductive RoutedStep : Stores → RoutedCall → Stores → RoutedCall → Prop
  /-- The routing is that of the moment in which the append begins. -/
  | confirm {w : Stores} {st' : Store} {c c' : ConfirmCall} {path : Str} (path' : Str)
      (hc : c.isAppending = false) (h : ConfirmStep w.default c st' c')
      (hstay : ∀ r n r', c = .committed r n → c' ≠ .returned r') :
      RoutedStep w ⟨c, path⟩ (w.set w.defaultPath st') ⟨c', path'⟩
  | append {w : Stores} {st' : Store} {c c' : ConfirmCall} {path : Str}
      (hc : c.isAppending = true) (h : ConfirmStep (w.store path) c st' c') :
      RoutedStep w ⟨c, path⟩ (w.set path st') ⟨c', path⟩

/-- Any number of calls on the stores of a process. -/
abbrev Confirmations (ι : Type) := Config ι Stores RoutedCall

/-- Every call is about to start, each for a request of its own or of others. -/
def Confirmations.init (w : Stores) (ids : ι → ℤ) : Confirmations ι :=
  ⟨w, fun i ↦ ⟨.called (ids i), w.defaultPath⟩⟩

/-- What the look at the request raises. -/
def Store.refuses (st : Store) (id : ℤ) : Option ConfirmError :=
  match st.erasureRequest id with
  | none => some (.unknown id)
  | some r => if r.status = .requested then none else some (.resolved id r.status)

/-- A step in which a call commits only while its request is waiting, nothing but the look at the
request raises, and the masking callback leaves the request's primary key in the fact. -/
structure OnceStep (w : Stores) (x : RoutedCall) (w' : Stores) (x' : RoutedCall) : Prop where
  /-- It is a step. -/
  step : RoutedStep w x w' x'
  /-- A call commits while its request is waiting. -/
  commits : ∀ r keys n, x.call = .keyed r keys → x'.call = .committed r n →
    ∃ r', w.default.erasureRequest r.id = some r' ∧ r'.status = .requested
  /-- Nothing else raises. -/
  raises : ∀ e, x'.call = .raised e → ∃ id, x.call = .called id ∧ w.default.refuses id = some e
  /-- The callback leaves the primary key alone. -/
  masks : ∀ r a t, x.call = .appending r (.called a) → x'.call = .appending r (.ready t 0) →
    Json.get? "erasure_request_id".toList t.masked =
      Json.get? "erasure_request_id".toList a.payload

/-! ## What a call is about -/

/-- What is appended is a fact that names the request. -/
structure IsFact (streamId recordType : Str) (payload : Payload) (id : ℤ) : Prop where
  /-- It goes to the erasure log. -/
  streamId : streamId = "erasure_log".toList
  /-- It is a fact. -/
  recordType : recordType = "erasure_fact".toList
  /-- It names the request. -/
  request : Json.get? "erasure_request_id".toList payload = some (.int id)

/-- The append is one of a fact that names the request. -/
def AppendCall.Records (id : ℤ) : AppendCall → Prop
  | .called a => IsFact a.streamId a.recordType a.payload id
  | .ready t _ | .versioned t _ _ | .linked t _ _ _ | .stamped t _ _ _ _ =>
    IsFact t.streamId t.recordType t.masked id
  | _ => True

/-- Is an append past its attempts? -/
def AppendCall.past : AppendCall → Bool
  | .committed _ => true
  | c => c.ended

/-- The call is one for this request. -/
def ConfirmCall.For (id : ℤ) : ConfirmCall → Prop
  | .called id' => id' = id
  | .checked r | .keyed r _ | .committed r _ | .returned r => r.id = id
  | .appending r c => r.id = id ∧ c.Records id
  | .raised e => e = .unknown id ∨ ∃ status, e = .resolved id status

/-- Has the call committed? -/
def ConfirmCall.owns : ConfirmCall → Bool
  | .committed _ _ | .appending _ _ | .returned _ => true
  | _ => false

/-- May the call have appended its fact? -/
def ConfirmCall.recorded : ConfirmCall → Bool
  | .appending _ c => c.past
  | .returned _ => true
  | _ => false

theorem IsFact.names {t : AppendTask} (h : IsFact t.streamId t.recordType t.masked id) (v : ℤ)
    (p : Option Str) (now : Timestamp) : (t.commit v p now).column.Names id where
  streamId := h.streamId
  recordType := h.recordType
  request := StorageCommit.erasureRequestId_eq rfl h.request

/-- **One step of the append of a fact**: it stays the append of this fact, and it writes nothing,
or a row that names the request, once. -/
theorem AppendStep.records {c c' : AppendCall} (h : AppendStep st c st' c') (hc : c.Records id)
    (hmask : ∀ a t, c = .called a → c' = .ready t 0 →
      Json.get? "erasure_request_id".toList t.masked =
        Json.get? "erasure_request_id".toList a.payload) :
    c'.Records id ∧ ((st' = st ∧ (c.past = true → c'.past = true)) ∨
      ∃ row, row.Names id ∧ st' = { st with commits := st.commits ++ [row] } ∧
        c.past = false ∧ c'.past = true) := by
  cases h with
  | @mask a t callback h =>
    refine ⟨?_, Or.inl ⟨rfl, fun hpast ↦ hpast⟩⟩
    have hsame := hmask a t rfl rfl
    obtain ⟨masked, -, rfl⟩ := AppendArgs.prepare_eq_ok_iff.mp h
    exact ⟨hc.streamId, hc.recordType, hsame.trans hc.request⟩
  | readVersion => exact ⟨hc, Or.inl ⟨rfl, fun hpast ↦ hpast⟩⟩
  | readPrev => exact ⟨hc, Or.inl ⟨rfl, fun hpast ↦ hpast⟩⟩
  | stamp => exact ⟨hc, Or.inl ⟨rfl, fun hpast ↦ hpast⟩⟩
  | commit hins =>
    exact ⟨trivial, Or.inr ⟨_, hc.names .., (Store.insertCommit_eq_some hins).2, rfl, rfl⟩⟩
  | integrityError => exact ⟨hc, Or.inl ⟨rfl, fun hpast ↦ hpast⟩⟩
  | operationalError => exact ⟨hc, Or.inl ⟨rfl, fun hpast ↦ hpast⟩⟩
  | _ => exact ⟨trivial, Or.inl ⟨rfl, fun _ ↦ rfl⟩⟩

/-! ## The invariant -/

/-- At most one call for each request has committed, and appended its fact. -/
structure Confirmations.Once (w : Stores) (ids : ι → ℤ) (c : Confirmations ι) : Prop where
  /-- Every call is about its own request. -/
  calls : ∀ i, (c.locals i).call.For (ids i)
  /-- Two calls that have committed are calls for different requests. -/
  unique : ∀ i j, (c.locals i).call.owns = true → (c.locals j).call.owns = true →
    ids i = ids j → i = j
  /-- A request is not waiting any more once a call has committed. -/
  confirmed : ∀ i, (c.locals i).call.owns = true → ∀ r,
    c.shared.default.erasureRequest (ids i) = some r → r.status ≠ .requested
  /-- A new fact was appended by a call that has committed, and to the store it was routed to. -/
  facts : ∀ id path, (c.shared.factsOf id path).length ≤ (w.factsOf id path).length ∨
    (c.shared.factsOf id path).length ≤ (w.factsOf id path).length + 1 ∧
      ∃ i, ids i = id ∧ (c.locals i).call.recorded = true ∧ (c.locals i).path = path

theorem ConfirmCall.owns_of_recorded {c : ConfirmCall} (h : c.recorded = true) :
    c.owns = true := by
  cases c <;> simp_all [ConfirmCall.recorded, ConfirmCall.owns]

theorem Confirmations.once_init (w : Stores) (ids : ι → ℤ) :
    (Confirmations.init w ids).Once w ids where
  calls := fun _ ↦ rfl
  unique := by
    rintro i j ⟨⟩
  confirmed := by
    rintro i ⟨⟩
  facts := fun _ _ ↦ Or.inl le_rfl

variable [DecidableEq ι] {ids : ι → ℤ} {c : Confirmations ι}

/-- A step in which no call commits. -/
theorem Confirmations.Once.frame (h : c.Once w ids) {i : ι} {x' : RoutedCall}
    (hfor : x'.call.For (ids i)) (howns : x'.call.owns = true → (c.locals i).call.owns = true)
    (hrecorded : (c.locals i).call.recorded = true →
      x'.call.recorded = true ∧ x'.path = (c.locals i).path)
    (hrequests : ∀ id, w'.default.erasureRequest id = c.shared.default.erasureRequest id)
    (hfacts : ∀ id path, (w'.factsOf id path).length ≤ (c.shared.factsOf id path).length ∨
      (ids i = id ∧ x'.path = path ∧ (c.locals i).call.owns = true ∧
        (c.locals i).call.recorded = false ∧ x'.call.recorded = true) ∧
        (w'.factsOf id path).length ≤ (c.shared.factsOf id path).length + 1) :
    Confirmations.Once w ids (c.set i w' x') := by
  have hlocal (j : ι) (hj : ((c.set i w' x').locals j).call.owns = true) :
      (c.locals j).call.owns = true :=
    Config.forall_locals
      (P := fun j (x : RoutedCall) ↦ x.call.owns = true → (c.locals j).call.owns = true)
      howns (fun _ _ h ↦ h) j hj
  constructor
  · exact Config.forall_locals (P := fun j (x : RoutedCall) ↦ x.call.For (ids j))
      hfor fun j _ ↦ h.calls j
  · intro j k hj hk
    exact h.unique j k (hlocal j hj) (hlocal k hk)
  · intro j hj r hr
    rw [Config.set_shared, hrequests] at hr
    exact h.confirmed j (hlocal j hj) r hr
  · intro id path
    rw [Config.set_shared]
    -- whoever had appended a fact still has
    have hkept : (∃ j, ids j = id ∧ (c.locals j).call.recorded = true ∧ (c.locals j).path = path) →
        ∃ j, ids j = id ∧ ((c.set i w' x').locals j).call.recorded = true ∧
          ((c.set i w' x').locals j).path = path := by
      rintro ⟨j, hid, hrec, hpath⟩
      refine ⟨j, hid, ?_⟩
      by_cases hji : j = i
      · subst hji
        rw [Config.set_locals_self, ← hpath]
        exact hrecorded hrec
      · rw [Config.set_locals_ne c w' x' hji]
        exact ⟨hrec, hpath⟩
    rcases hfacts id path with hle | ⟨⟨hid, hpath, hown, hnot, hnow⟩, hle⟩
    · rcases h.facts id path with hold | ⟨hold, hwho⟩
      · exact Or.inl (hle.trans hold)
      · exact Or.inr ⟨hle.trans hold, hkept hwho⟩
    · rcases h.facts id path with hold | ⟨-, j, hj, hrec, -⟩
      · refine Or.inr ⟨by omega, i, hid, ?_, ?_⟩
        all_goals rw [Config.set_locals_self]
        · exact hnow
        · exact hpath
      · -- it would be this call that has appended one before
        rw [h.unique j i (ConfirmCall.owns_of_recorded hrec) hown (hj.trans hid.symm), hnot] at hrec
        cases hrec

/-- **The commit**: the request was waiting, so no other call for it has committed. -/
theorem Confirmations.Once.commit (h : c.Once w ids) {i : ι} {r r' : ErasureRequest}
    {keys : List SubjectKey} {n : ℕ} {now : Timestamp} {path : Str} (hr : r.id = ids i)
    (hwaiting : c.shared.default.erasureRequest r.id = some r') (hstatus : r'.status = .requested) :
    Confirmations.Once w ids (c.set i
      (c.shared.set c.shared.defaultPath (c.shared.default.confirm r.id keys now))
      ⟨.committed r n, path⟩) := by
  have hnone (j : ι) (hj : (c.locals j).call.owns = true) : ids j ≠ ids i := by
    intro hid
    refine h.confirmed j hj r' ?_ hstatus
    rw [hid, ← hr]
    exact hwaiting
  have hothers {j : ι} (hj : ((c.set i (c.shared.set c.shared.defaultPath
      (c.shared.default.confirm r.id keys now)) ⟨.committed r n, path⟩).locals j).call.owns = true)
      (hji : j ≠ i) : (c.locals j).call.owns = true := by
    rwa [Config.set_locals_ne c _ _ hji] at hj
  constructor
  · exact Config.forall_locals (P := fun j (x : RoutedCall) ↦ x.call.For (ids j))
      hr fun j _ ↦ h.calls j
  · intro j k hj hk hid
    by_cases hji : j = i
    · by_cases hki : k = i
      · rw [hji, hki]
      · exact absurd (hid.symm.trans (congrArg ids hji)) (hnone k (hothers hk hki))
    · by_cases hki : k = i
      · exact absurd (hid.trans (congrArg ids hki)) (hnone j (hothers hj hji))
      · exact h.unique j k (hothers hj hji) (hothers hk hki) hid
  · intro j hj r₀ hr₀
    rw [Config.set_shared, Stores.set_default, Store.confirm_erasureRequest,
      Option.map_eq_some_iff] at hr₀
    obtain ⟨r₁, hr₁, rfl⟩ := hr₀
    split_ifs with hid
    · simp [ErasureRequest.confirm]
    · have hji : j ≠ i := by
        rintro rfl
        exact hid ((Store.erasureRequest_id hr₁).trans hr.symm)
      exact h.confirmed j (hothers hj hji) r₁ hr₁
  · intro id path'
    have hcommits : (c.shared.default.confirm r.id keys now).commits = c.shared.default.commits :=
      rfl
    rw [Config.set_shared, (Stores.factsOf_set hcommits id path').1]
    refine (h.facts id path').imp_right ?_
    rintro ⟨hle, j, hid, hrec, hpath⟩
    refine ⟨hle, j, hid, ?_⟩
    have hji : j ≠ i := by
      rintro rfl
      exact hnone j (ConfirmCall.owns_of_recorded hrec) rfl
    rw [Config.set_locals_ne c _ _ hji]
    exact ⟨hrec, hpath⟩

/-- A step that writes nothing, and is no commit. -/
theorem Confirmations.Once.local (h : c.Once w ids) {i : ι} {x' : RoutedCall}
    (hfor : x'.call.For (ids i)) (howns : x'.call.owns = true → (c.locals i).call.owns = true)
    (hrecorded : (c.locals i).call.recorded = true →
      x'.call.recorded = true ∧ x'.path = (c.locals i).path) :
    Confirmations.Once w ids (c.set i c.shared x') :=
  h.frame hfor howns hrecorded (fun _ ↦ rfl) fun _ _ ↦ Or.inl le_rfl

theorem Stores.set_self (w : Stores) (path : Str) : w.set path (w.store path) = w := by
  rw [Stores.set, Function.update_eq_self]

theorem Store.For_of_refuses {e : ConfirmError} (h : st.refuses id = some e) :
    (ConfirmCall.raised e).For id := by
  rw [Store.refuses] at h
  cases hr : st.erasureRequest id with
  | none =>
    rw [hr] at h
    exact Or.inl (Option.some.inj h).symm
  | some r =>
    rw [hr] at h
    simp only at h
    split_ifs at h
    exact Or.inr ⟨r.status, (Option.some.inj h).symm⟩

/-- The append of a fact to a store leaves all requests alone. -/
theorem Stores.record_erasureRequest (w : Stores) (path : Str) (row : StorageCommit) (id : ℤ) :
    (w.record path row).default.erasureRequest id = w.default.erasureRequest id := by
  rw [Store.erasureRequest, Stores.record_requests, Store.erasureRequest]

/-- **One step on the default store.** -/
theorem Confirmations.Once.confirm (h : c.Once w ids) {i : ι} {a a' : ConfirmCall}
    {path path' : Str} (hi : c.locals i = ⟨a, path⟩) (ha : a.isAppending = false)
    (hstep : ConfirmStep c.shared.default a st' a')
    (hstay : ∀ r n r', a = .committed r n → a' ≠ .returned r')
    (hcommits : ∀ r keys n, a = .keyed r keys → a' = .committed r n →
      ∃ r', c.shared.default.erasureRequest r.id = some r' ∧ r'.status = .requested)
    (hraises : ∀ e, a' = .raised e →
      ∃ id, a = .called id ∧ c.shared.default.refuses id = some e) :
    Confirmations.Once w ids (c.set i (c.shared.set c.shared.defaultPath st') ⟨a', path'⟩) := by
  have hfor : a.For (ids i) := by
    have := h.calls i
    rwa [hi] at this
  have hquiet : st' = c.shared.default → a'.For (ids i) → (a'.owns = true → a.owns = true) →
      (a.recorded = true → False) →
      Confirmations.Once w ids (c.set i (c.shared.set c.shared.defaultPath st') ⟨a', path'⟩) := by
    intro hst hfor' howns hrecorded
    rw [hst, Stores.default, Stores.set_self]
    refine h.local hfor' ?_ ?_
    · rwa [hi]
    · rw [hi]
      exact fun hrec ↦ (hrecorded hrec).elim
  cases hstep with
  | check hr =>
    exact hquiet rfl ((Store.erasureRequest_id hr).trans hfor) (by rintro ⟨⟩) (by rintro ⟨⟩)
  | readKeys => exact hquiet rfl hfor (by rintro ⟨⟩) (by rintro ⟨⟩)
  | @commit r keys now =>
    obtain ⟨r', hwaiting, hstatus⟩ := hcommits r keys _ rfl rfl
    exact h.commit hfor hwaiting hstatus
  | @append r r' n fact hr hfact =>
    have hid : r'.id = ids i := (Store.erasureRequest_id hr).trans hfor
    refine hquiet rfl ⟨hid, rfl, rfl, ?_⟩ (fun _ ↦ rfl) (by rintro ⟨⟩)
    rw [← hid]
    exact erasureFact_names hfact
  | elsewhere hr => exact absurd rfl (hstay _ _ _ rfl)
  | appendStep | finish | appendError => cases ha
  | _ =>
    -- whatever raises, the look at the request does
    obtain ⟨id, hcall, hrefused⟩ := hraises _ rfl
    rw [hcall] at hfor
    have hid : id = ids i := hfor
    refine hquiet rfl (hid ▸ Store.For_of_refuses hrefused) ?_ ?_
    all_goals rw [hcall]
    · rintro ⟨⟩
    · rintro ⟨⟩

/-- **One step on the store the fact is appended to.** -/
theorem Confirmations.Once.append (h : c.Once w ids) {i : ι} {a a' : ConfirmCall} {path : Str}
    (hi : c.locals i = ⟨a, path⟩) (ha : a.isAppending = true)
    (hstep : ConfirmStep (c.shared.store path) a st' a')
    (hraises : ∀ e, a' = .raised e →
      ∃ id, a = .called id ∧ c.shared.default.refuses id = some e)
    (hmasks : ∀ r b t, a = .appending r (.called b) → a' = .appending r (.ready t 0) →
      Json.get? "erasure_request_id".toList t.masked =
        Json.get? "erasure_request_id".toList b.payload) :
    Confirmations.Once w ids (c.set i (c.shared.set path st') ⟨a', path⟩) := by
  have hfor := h.calls i
  rw [hi] at hfor
  have hraised (e : ConfirmError) : a' ≠ .raised e := by
    intro he
    obtain ⟨id, rfl, -⟩ := hraises e he
    cases ha
  cases hstep with
  | @appendStep _ r b b' hstep =>
    obtain ⟨hid, hrecords⟩ := hfor
    obtain ⟨hrecords', ⟨rfl, hpast⟩ | ⟨row, hnames, rfl, hbefore, hafter⟩⟩ :=
      hstep.records hrecords fun d t hd ht ↦ hmasks r d t (hd ▸ rfl) (ht ▸ rfl)
    · rw [Stores.set_self]
      refine h.local ⟨hid, hrecords'⟩ ?_ ?_
      all_goals rw [hi]
      · exact fun _ ↦ rfl
      · exact fun hrec ↦ ⟨hpast hrec, rfl⟩
    · have hrecord : c.shared.set path { c.shared.store path with
          commits := (c.shared.store path).commits ++ [row] } = c.shared.record path row := rfl
      rw [hrecord]
      refine h.frame ⟨hid, hrecords'⟩ ?_ ?_ (Stores.record_erasureRequest c.shared path row) ?_
      · rw [hi]
        exact fun _ ↦ rfl
      · rw [hi]
        intro hrec
        exact absurd (hbefore.symm.trans hrec) (by simp)
      · intro id path'
        rw [Stores.record_factsOf hnames, List.length_append]
        by_cases hhere : path' = path ∧ id = ids i
        · rw [if_pos hhere, hi]
          exact Or.inr ⟨⟨hhere.2.symm, hhere.1.symm, rfl, hbefore, hafter⟩, le_rfl⟩
        · rw [if_neg hhere]
          exact Or.inl le_rfl
  | @finish r row =>
    rw [Stores.set_self]
    refine h.local hfor.1 ?_ ?_
    all_goals rw [hi]
    · exact fun _ ↦ rfl
    · exact fun _ ↦ ⟨rfl, rfl⟩
  | appendError => exact absurd rfl (hraised _)
  | fail e => exact absurd rfl (hraised e)
  | _ => cases ha

/-- **One step** keeps the invariant. -/
theorem OnceStep.once {i : ι} {x' : RoutedCall} (h : c.Once w ids)
    (hstep : OnceStep c.shared (c.locals i) w' x') :
    Confirmations.Once w ids (c.set i w' x') := by
  obtain ⟨hstep, hcommits, hraises, hmasks⟩ := hstep
  generalize hx : c.locals i = x at *
  cases hstep with
  | confirm path' hc hstep hstay => exact h.confirm hx hc hstep hstay hcommits hraises
  | append hc hstep => exact h.append hx hc hstep hraises hmasks

/-- **A request is confirmed once**, as long as calls commit only while their request is waiting,
nothing else raises and the masking callback leaves the request's primary key alone.  In every run
of such steps, of any number of calls and in any order: at most one call for a request has returned,
every other one that has ended has raised an `ErasureRequestError`, and at most one fact that names
the request was appended, to one of the stores. -/
theorem one_time_confirmation {w : Stores} {ids : ι → ℤ} {d : Confirmations ι}
    (h : Steps OnceStep (Confirmations.init w ids) d) (id : ℤ) :
    (∀ i j r r', ids i = id → ids j = id → (d.locals i).call = .returned r →
      (d.locals j).call = .returned r' → i = j) ∧
    (∀ i e, ids i = id → (d.locals i).call = .raised e →
      e = .unknown id ∨ ∃ status, e = .resolved id status) ∧
    ∃ path, ∀ path', (d.shared.factsOf id path').length ≤
      (w.factsOf id path').length + if path' = path then 1 else 0 := by
  have honce : d.Once w ids :=
    h.invariant (fun _ _ _ _ ↦ OnceStep.once) (Confirmations.once_init w ids)
  refine ⟨?_, ?_, ?_⟩
  · intro i j r r' hid hid' hi hj
    exact honce.unique i j (by rw [hi]; rfl) (by rw [hj]; rfl) (hid.trans hid'.symm)
  · intro i e hid hi
    have hfor := honce.calls i
    rwa [hi, hid] at hfor
  · by_cases hwho : ∃ i, ids i = id ∧ (d.locals i).call.recorded = true
    · obtain ⟨i, hid, hrec⟩ := hwho
      refine ⟨(d.locals i).path, fun path' ↦ ?_⟩
      rcases honce.facts id path' with hle | ⟨hle, j, hj, hrec', hpath⟩
      · exact hle.trans (Nat.le_add_right _ _)
      · have hji := honce.unique j i (ConfirmCall.owns_of_recorded hrec')
          (ConfirmCall.owns_of_recorded hrec) (hj.trans hid.symm)
        rwa [if_pos (by rw [← hpath, hji])]
    · refine ⟨w.defaultPath, fun path' ↦ ?_⟩
      rcases honce.facts id path' with hle | ⟨-, i, hid, hrec, -⟩
      · exact hle.trans (Nat.le_add_right _ _)
      · exact absurd ⟨i, hid, hrec⟩ hwho

/-! ### Two confirmations of one request -/

theorem Stores.set_store_self (w : Stores) (path : Str) (st : Store) :
    (w.set path st).store path = st := Function.update_self ..

theorem Stores.set_set (w : Stores) (path : Str) (st st' : Store) :
    (w.set path st).set path st' = w.set path st' := by
  rw [Stores.set, Stores.set, Stores.set, Function.update_idem]

/-- The process whose default store this is. -/
def inDefault (st : Store) : Stores := (Stores.init "store.db".toList).set "store.db".toList st

/-- A step on the default store. -/
theorem RoutedStep.inDefault {a a' : ConfirmCall} (h : ConfirmStep st a st' a')
    (hstay : ∀ r n r', a = .committed r n → a' ≠ .returned r') :
    RoutedStep (inDefault st) ⟨a, "store.db".toList⟩ (inDefault st') ⟨a', "store.db".toList⟩ := by
  have hstore : (WiseTraceLoom.inDefault st).store "store.db".toList = st :=
    Stores.set_store_self ..
  have hset : (WiseTraceLoom.inDefault st).set "store.db".toList st' =
      WiseTraceLoom.inDefault st' := Stores.set_set ..
  rw [← hset]
  cases ha : a.isAppending with
  | true => exact .append ha (by rwa [hstore])
  | false => exact .confirm _ ha (by rwa [Stores.default, show
      (WiseTraceLoom.inDefault st).defaultPath = "store.db".toList from rfl, hstore]) hstay

/-- The append of a fact to the default store. -/
theorem Solo.inDefault {a a' : AppendCall} (r : ErasureRequest)
    (h : Solo AppendStep (st, a) (st', a')) :
    Solo RoutedStep (inDefault st, ⟨.appending r a, "store.db".toList⟩)
      (inDefault st', ⟨.appending r a', "store.db".toList⟩) := by
  suffices hall : ∀ y, Solo AppendStep (st, a) y →
      Solo RoutedStep (WiseTraceLoom.inDefault st, ⟨.appending r a, "store.db".toList⟩)
        (WiseTraceLoom.inDefault y.1, ⟨.appending r y.2, "store.db".toList⟩) from hall (st', a') h
  intro y hy
  induction hy with
  | refl => exact .refl
  | tail _ hstep ih => exact ih.step (RoutedStep.inDefault (.appendStep hstep) (by rintro _ _ _ ⟨⟩))

/-- A request that is waiting. -/
def carolRequest : ErasureRequest :=
  ⟨1, "carol".toList, none, .requested, none, none, (utcnow noon).column, none⟩

/-- The store in which it waits. -/
def carolStore : Store :=
  { Store.create "store.db".toList with erasureRequests := [carolRequest] }

/-- The store in which it is confirmed. -/
def carolConfirmed : Store := carolStore.confirm 1 [] noon

/-- The fact. -/
def carolFact : Payload := (erasureFact (carolRequest.confirm noon) 0).getD []

/-- The append of the fact. -/
def carolTask : AppendTask := ⟨"erasure_log".toList, "erasure_fact".toList, none, 20, carolFact⟩

/-- The row of the first call. -/
def carolRow₁ : StorageCommit := (carolTask.commit 1 none noon).column

/-- The row of the second call. -/
def carolRow₂ : StorageCommit := (carolTask.commit 2 (some carolRow₁.entryHash) noon).column

theorem carolFact_isFact : IsFact "erasure_log".toList "erasure_fact".toList carolFact 1 :=
  ⟨rfl, rfl, rfl⟩

/-- **Both calls look before either commits**: both return, and there are two facts. -/
theorem confirm_race : ∃ d : Confirmations Bool,
    Steps RoutedStep (Confirmations.init (inDefault carolStore) fun _ ↦ 1) d ∧
      (d.locals false).call = .returned (carolRequest.confirm noon) ∧
      (d.locals true).call = .returned (carolRequest.confirm noon) ∧
      d.shared.factsOf 1 "store.db".toList = [carolRow₁, carolRow₂] := by
  let confirmed := carolRequest.confirm noon
  let env : AppendEnv := ⟨fun _ ↦ ⟨noon, false⟩, none⟩
  let callback : MaskingCallback := fun p ↦ .ok (.dict p)
  let onceLogged : Store := { carolConfirmed with commits := [carolRow₁] }
  let twiceLogged : Store := { carolConfirmed with commits := [carolRow₁, carolRow₂] }
  have hcheck : RoutedStep (inDefault carolStore) ⟨.called 1, _⟩ (inDefault carolStore)
    ⟨.checked carolRequest, _⟩ := RoutedStep.inDefault (.check rfl rfl) (by simp)
  have hkeys : RoutedStep (inDefault carolStore) ⟨.checked carolRequest, _⟩ (inDefault carolStore)
    ⟨.keyed carolRequest [], _⟩ := RoutedStep.inDefault .readKeys (by simp)
  have hfirst : RoutedStep (inDefault carolStore) ⟨.keyed carolRequest [], _⟩
    (inDefault carolConfirmed) ⟨.committed carolRequest 0, _⟩ :=
    RoutedStep.inDefault (.commit noon) (by simp)
  have hsecond : RoutedStep (inDefault carolConfirmed) ⟨.keyed carolRequest [], _⟩
    (inDefault carolConfirmed) ⟨.committed carolRequest 0, _⟩ :=
    RoutedStep.inDefault (.commit noon) (by simp)
  have hstart (st : Store) (hst : st.erasureRequest 1 = some confirmed) :
      RoutedStep (inDefault st) ⟨.committed carolRequest 0, _⟩ (inDefault st)
        ⟨.appending confirmed (.called (erasureAppend confirmed carolFact)), _⟩ :=
    RoutedStep.inDefault (.append hst rfl) (by simp)
  have happend₁ : Solo AppendStep (carolConfirmed, .called (erasureAppend confirmed carolFact))
    (onceLogged, .returned carolRow₁) := appendCommit_steps callback env _ carolConfirmed
  have happend₂ : Solo AppendStep (onceLogged, .called (erasureAppend confirmed carolFact))
    (twiceLogged, .returned carolRow₂) := appendCommit_steps callback env _ onceLogged
  have hfinish (st : Store) (row : StorageCommit) :
      RoutedStep (inDefault st) ⟨.appending confirmed (.returned row), _⟩ (inDefault st)
        ⟨.returned confirmed, _⟩ := RoutedStep.inDefault .finish (by simp)
  have h0 : Steps RoutedStep
    (Confirmations.init (inDefault carolStore) fun _ : Bool ↦ 1) _ := .refl
  have h1 := Steps.thread h0 false hcheck
  have h2 := Steps.thread h1 true hcheck
  have h3 := Steps.thread h2 false hkeys
  have h4 := Steps.thread h3 true hkeys
  have h5 := Steps.thread h4 false hfirst
  have h6 := Steps.thread h5 true hsecond
  have h7 := Steps.thread h6 false (hstart carolConfirmed rfl)
  have h8 := h7.trans ((Solo.inDefault confirmed happend₁).lift (fun h ↦ h) false rfl rfl)
  have h9 := Steps.thread h8 false (hfinish onceLogged carolRow₁)
  have h10 := Steps.thread h9 true (hstart onceLogged rfl)
  have h11 := h10.trans ((Solo.inDefault confirmed happend₂).lift (fun h ↦ h) true rfl rfl)
  have h12 := Steps.thread h11 true (hfinish twiceLogged carolRow₂)
  refine ⟨_, h12, rfl, rfl, ?_⟩
  have hfacts : ((inDefault twiceLogged).store "store.db".toList).erasureFacts =
    [carolRow₁, carolRow₂] := rfl
  have hrow₁ : carolRow₁.Names 1 := carolFact_isFact.names 1 none noon
  have hrow₂ : carolRow₂.Names 1 := carolFact_isFact.names 2 (some carolRow₁.entryHash) noon
  exact (congrArg _ hfacts).trans
    (List.filter_eq_self.mpr (by simp [hrow₁.request, hrow₂.request]))

/-- A step on the default store of the kind that keeps confirmations apart. -/
theorem OnceStep.inDefault {a a' : ConfirmCall} (h : ConfirmStep st a st' a')
    (hstay : ∀ r n r', a = .committed r n → a' ≠ .returned r')
    (hcommits : ∀ r keys n, a = .keyed r keys → a' = .committed r n →
      ∃ r', st.erasureRequest r.id = some r' ∧ r'.status = .requested)
    (hraises : ∀ e, a' = .raised e → ∃ id, a = .called id ∧ st.refuses id = some e)
    (hmasks : ∀ r b t, a = .appending r (.called b) → a' = .appending r (.ready t 0) →
      t.masked = b.payload) :
    OnceStep (inDefault st) ⟨a, "store.db".toList⟩ (inDefault st') ⟨a', "store.db".toList⟩ := by
  have hdefault : (WiseTraceLoom.inDefault st).default = st := Stores.set_store_self ..
  refine ⟨RoutedStep.inDefault h hstay, ?_, ?_, ?_⟩
  · rwa [hdefault]
  · rwa [hdefault]
  · intro r b t hb ht
    rw [hmasks r b t hb ht]

/-- One call after the other: the first one returns, the second one is refused, and there is one
fact. -/
theorem confirm_twice : ∃ d : Confirmations Bool,
    (d.locals false).call = .returned (carolRequest.confirm noon) ∧
      (d.locals true).call = .raised (.resolved 1 .confirmed) ∧
      ∃ path, ∀ path', (d.shared.factsOf 1 path').length ≤
        ((inDefault carolStore).factsOf 1 path').length + if path' = path then 1 else 0 := by
  let home := "store.db".toList
  let confirmed := carolRequest.confirm noon
  let logged : Store := { carolConfirmed with commits := [carolRow₁] }
  have hcheck : OnceStep (inDefault carolStore) ⟨.called 1, home⟩ (inDefault carolStore)
    ⟨.checked carolRequest, home⟩ :=
    OnceStep.inDefault (.check rfl rfl) (by simp) (by simp) (by simp) (by simp)
  have hkeys : OnceStep (inDefault carolStore) ⟨.checked carolRequest, home⟩ (inDefault carolStore)
    ⟨.keyed carolRequest [], home⟩ :=
    OnceStep.inDefault .readKeys (by simp) (by simp) (by simp) (by simp)
  have hcommit : OnceStep (inDefault carolStore) ⟨.keyed carolRequest [], home⟩
      (inDefault carolConfirmed) ⟨.committed carolRequest 0, home⟩ := by
    refine OnceStep.inDefault (.commit noon) (by simp) ?_ (by simp) (by simp)
    rintro r keys n ⟨⟩ -
    exact ⟨carolRequest, rfl, rfl⟩
  have hstart : OnceStep (inDefault carolConfirmed) ⟨.committed carolRequest 0, home⟩
    (inDefault carolConfirmed)
    ⟨.appending confirmed (.called (erasureAppend confirmed carolFact)), home⟩ :=
    OnceStep.inDefault (.append rfl rfl) (by simp) (by simp) (by simp) (by simp)
  have happend {st st' : Store} {b b' : AppendCall} (h : AppendStep st b st' b')
      (hmask : ∀ e t, b = .called e → b' = .ready t 0 → t.masked = e.payload) :
      OnceStep (inDefault st) ⟨.appending confirmed b, home⟩ (inDefault st')
        ⟨.appending confirmed b', home⟩ := by
    refine OnceStep.inDefault (.appendStep h) (by simp) (by simp) (by simp) ?_
    rintro r e t ⟨⟩ ⟨⟩
    exact hmask e t rfl rfl
  have hmask : AppendStep carolConfirmed (.called (erasureAppend confirmed carolFact))
    carolConfirmed (.ready carolTask 0) := .mask (fun p ↦ .ok (.dict p)) rfl
  have hversion : AppendStep carolConfirmed (.ready carolTask 0) carolConfirmed
    (.versioned carolTask 0 1) := .readVersion (by decide)
  have hprev : AppendStep carolConfirmed (.versioned carolTask 0 1) carolConfirmed
    (.linked carolTask 0 1 none) := .readPrev rfl
  have hinsert : AppendStep carolConfirmed (.stamped carolTask 0 1 none noon) logged
    (.committed carolRow₁) := .commit rfl
  have hfinish : OnceStep (inDefault logged) ⟨.appending confirmed (.returned carolRow₁), home⟩
    (inDefault logged) ⟨.returned confirmed, home⟩ :=
    OnceStep.inDefault .finish (by simp) (by simp) (by simp) (by simp)
  have hrefused : OnceStep (inDefault logged) ⟨.called 1, home⟩ (inDefault logged)
      ⟨.raised (.resolved 1 .confirmed), home⟩ := by
    have hget : logged.erasureRequest 1 = some confirmed := rfl
    refine OnceStep.inDefault (.resolved hget (by decide)) (by simp) (by simp) ?_ (by simp)
    rintro e ⟨⟩
    exact ⟨1, rfl, rfl⟩
  have h0 : Steps OnceStep (Confirmations.init (inDefault carolStore) fun _ : Bool ↦ 1) _ := .refl
  have h1 := Steps.thread h0 false hcheck
  have h2 := Steps.thread h1 false hkeys
  have h3 := Steps.thread h2 false hcommit
  have h4 := Steps.thread h3 false hstart
  have h5 := Steps.thread h4 false (happend hmask (by rintro e t ⟨⟩ ⟨⟩; rfl))
  have h6 := Steps.thread h5 false (happend hversion (by simp))
  have h7 := Steps.thread h6 false (happend hprev (by simp))
  have h8 := Steps.thread h7 false (happend (.stamp noon) (by simp))
  have h9 := Steps.thread h8 false (happend hinsert (by simp))
  have h10 := Steps.thread h9 false (happend .finish (by simp))
  have h11 := Steps.thread h10 false hfinish
  have h12 := Steps.thread h11 true hrefused
  exact ⟨_, rfl, rfl, (one_time_confirmation h12 1).2.2⟩

end WiseTraceLoom
