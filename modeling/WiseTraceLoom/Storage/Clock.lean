import Mathlib.Data.Prod.Lex
import WiseTraceLoom.Storage.TimeTravel

/-!
# Reading as of a moment

`readAsOfTimestamp` asks for the largest version that was committed at or before a moment, and reads
up to there.  That is the right version only if the times at which rows were committed do not go
down along a stream.

With one clock for all writers they do not, although the order of the versions is decided at the
commits and the times are taken before: a writer takes its time after it has read its version, so
that all rows before that version are older than its time; and if it is late, its version is taken
and it starts over.  `AppendCall.Timely` is what a writer knows between the two moments.
-/

set_option autoImplicit false

namespace WiseTraceLoom

open Interleaving NumberedLog

variable {ι : Type} [DecidableEq ι] {F : Fernet} {st st' : Store}

/-! ## The order of moments -/

/-- The fields of a moment, the most significant one first. -/
def Timestamp.key (t : Timestamp) : ℕ ×ₗ ℕ ×ₗ ℕ ×ₗ ℕ ×ₗ ℕ ×ₗ ℕ ×ₗ ℕ :=
  toLex (t.year, toLex (t.month, toLex (t.day, toLex (t.hour, toLex (t.minute,
    toLex (t.second, t.microsecond))))))

theorem Timestamp.key_injective : Function.Injective Timestamp.key := by
  intro t t' h
  simp only [Timestamp.key, EmbeddingLike.apply_eq_iff_eq, Prod.mk.injEq] at h
  obtain ⟨hyear, hmonth, hday, hhour, hminute, hsecond, hmicrosecond⟩ := h
  cases t
  cases t'
  congr

/-- Moments are compared field by field, as the texts in a `datetime` column are. -/
instance : LinearOrder Timestamp := LinearOrder.lift' Timestamp.key Timestamp.key_injective

/-! ## `read_as_of_timestamp` -/

/-- The largest version committed at or before a moment.  A `datetime` column knows no offset, and
the value it is compared with loses its own. -/
def Store.versionAsOf (st : Store) (streamId : Str) (timestamp : Datetime) : Option ℤ :=
  (((st.stream streamId).filter fun row ↦
    row.committedAt.toTimestamp ≤ timestamp.toTimestamp).map StorageCommit.version).max?

/-- `read_as_of_timestamp` on a given store; `none` where it raises. -/
def readAsOfTimestamp (st : Store) (streamId : Str) (timestamp : Datetime)
    (tenantId : Option Str) : Option (List Json) :=
  match st.versionAsOf streamId timestamp with
  | none => some []
  | some version => readAsOfVersion st streamId version tenantId

/-- The commits of a tenant at or before a moment, in version order. -/
def committedBy (st : Store) (streamId : Str) (now : Timestamp) (tenantId : Option Str) :
    List StorageCommit :=
  ((st.selectStream streamId).filter fun row ↦ row.committedAt.toTimestamp ≤ now).filter fun row ↦
    tenantId.all fun t ↦ row.tenantId = some t

/-! ## One clock -/

/-- A store, and the clock all its writers look at. -/
structure Timed where
  /-- The store. -/
  store : Store
  /-- What the clock shows. -/
  clock : Timestamp

/-- One step of one thread, while the clock goes forward or stands still.  A thread that stamps a
row gets what the clock shows. -/
def TimedStep (F : Fernet) (x : Timed) (c : Call) (x' : Timed) (c' : Call) : Prop :=
  SystemStep F x.store c x'.store c' ∧ x.clock ≤ x'.clock ∧
    ∀ t k v p now, c'.appending = some (.stamped t k v p now) → now = x'.clock

/-- A store, its clock, and what every thread is doing. -/
abbrev TimedSystem (ι : Type) := Config ι Timed Call

/-- A run from one state to another. -/
abbrev TimedRuns (F : Fernet) : TimedSystem ι → TimedSystem ι → Prop := Steps (TimedStep F)

/-- A new store, at any time. -/
def TimedSystem.init (ι : Type) (database : Str) (now : Timestamp) : TimedSystem ι :=
  ⟨⟨Store.create database, now⟩, fun _ ↦ .idle⟩

/-- The states that can be reached on a new store. -/
def TimedReachable (F : Fernet) (c : TimedSystem ι) : Prop :=
  ∃ database now, TimedRuns F (TimedSystem.init ι database now) c

/-- A run with a clock is a run. -/
theorem TimedRuns.forget {c d : TimedSystem ι} (h : TimedRuns F c d) :
    Runs F (c.mapShared Timed.store) (d.mapShared Timed.store) :=
  h.mapShared fun _ _ _ _ hstep ↦ hstep.1

theorem TimedReachable.reachable {c : TimedSystem ι} (h : TimedReachable F c) :
    Reachable F (c.mapShared Timed.store) := by
  obtain ⟨database, now, hrun⟩ := h
  exact ⟨database, hrun.forget⟩

/-! ## The invariant -/

/-- Along every stream the rows get younger, and none is from the future. -/
structure Timed.Ok (x : Timed) : Prop where
  /-- The times do not go down. -/
  sorted : ∀ s, (x.store.stream s).Pairwise fun a b ↦
    a.committedAt.toTimestamp ≤ b.committedAt.toTimestamp
  /-- The clock is past all of them. -/
  past : ∀ row ∈ x.store.commits, row.committedAt.toTimestamp ≤ x.clock

/-- What a writer knows that is about to insert its row: the rows before the version it has read are
no younger than its own. -/
def AppendCall.Timely (x : Timed) : AppendCall → Prop
  | .stamped t _ v _ now => now ≤ x.clock ∧ x.store.Follows t.streamId v ∧
      ∀ row ∈ (x.store.stream t.streamId).take (v - 1).toNat, row.committedAt.toTimestamp ≤ now
  | _ => True

/-- What the other threads do to store and clock. -/
structure Timed.Advances (x x' : Timed) : Prop where
  /-- The log grows. -/
  commits : x.store.commits <+: x'.store.commits
  /-- The clock does not go back. -/
  clock : x.clock ≤ x'.clock

theorem AppendCall.Timely.mono {x x' : Timed} {c : AppendCall} (hc : c.Timely x)
    (h : x.Advances x') : c.Timely x' := by
  cases c with
  | stamped t k v p now =>
    obtain ⟨hnow, hv, hrows⟩ := hc
    have hle : (v - 1).toNat ≤ (x.store.stream t.streamId).length := by
      have := hv.2
      omega
    obtain ⟨rows, happend⟩ := Store.stream_prefix h.commits t.streamId
    refine ⟨hnow.trans h.clock, hv.mono h.commits, ?_⟩
    rwa [← happend, List.take_append_of_le_length hle]
  | _ => trivial

/-- The clock goes on and nothing is committed. -/
theorem Timed.Ok.frame {x x' : Timed} (h : x.Ok) (hcommits : x'.store.commits = x.store.commits)
    (hclock : x.clock ≤ x'.clock) : x'.Ok where
  sorted := by
    intro s
    have := h.sorted s
    rwa [Store.stream, ← hcommits] at this
  past := by
    intro row hrow
    rw [hcommits] at hrow
    exact (h.past row hrow).trans hclock

/-- **The insert keeps the order**: if the constraint lets the version in, the rows before it are
the whole stream. -/
theorem Timed.Ok.insertCommit {x x' : Timed} {t : AppendTask} {k : ℕ} {v : ℤ} {p : Option Str}
    {now : Timestamp} (hx : x.Ok) (hlog : x.store.LogOk)
    (hc : (AppendCall.stamped t k v p now).Timely x) (hclock : x.clock ≤ x'.clock)
    (hins : x.store.insertCommit (t.commit v p now) = some x'.store) : x'.Ok := by
  obtain ⟨hnow, hv, hrows⟩ := hc
  obtain ⟨hfresh, heq⟩ := Store.insertCommit_eq_some hins
  have hnext := (hlog t.streamId).eq_of_fresh hv hfresh
  have hall : (x.store.stream t.streamId).take (v - 1).toNat = x.store.stream t.streamId :=
    List.take_of_length_le (by omega)
  rw [hall] at hrows
  constructor
  · intro s
    rw [heq, Store.stream_concat]
    split_ifs with hs
    · have hs' : t.streamId = s := hs
      subst hs'
      refine List.pairwise_append.mpr ⟨hx.sorted _, List.pairwise_singleton _ _, ?_⟩
      intro a ha b hb
      rw [List.mem_singleton.mp hb]
      exact hrows a ha
    · rw [List.append_nil]
      exact hx.sorted s
  · intro row hrow
    rw [heq] at hrow
    rcases List.mem_append.mp hrow with hrow | hrow
    · exact (hx.past row hrow).trans hclock
    · rw [List.mem_singleton.mp hrow]
      exact hnow.trans hclock

/-- **One step of an append.** -/
theorem AppendStep.timely {x x' : Timed} {c c' : AppendCall} (h : AppendStep x.store c x'.store c')
    (hclock : x.clock ≤ x'.clock)
    (hstamp : ∀ t k v p now, c' = .stamped t k v p now → now = x'.clock)
    (hlog : x.store.LogOk) (hok : c.Ok x.store) (hx : x.Ok) (hc : c.Timely x) :
    x'.Ok ∧ c'.Timely x' := by
  obtain ⟨st, clock⟩ := x
  obtain ⟨st', clock'⟩ := x'
  cases h with
  | @stamp t k v p now =>
    obtain rfl := hstamp t k v p now rfl
    refine ⟨hx.frame rfl hclock, le_rfl, hok.1, ?_⟩
    intro row hrow
    have hmem := (List.mem_filter.mp (List.mem_of_mem_take hrow)).1
    exact (hx.past row hmem).trans hclock
  | commit hins => exact ⟨hx.insertCommit hlog hc hclock hins, trivial⟩
  | _ => exact ⟨hx.frame rfl hclock, trivial⟩

/-- **The premises of the rely–guarantee rule.** -/
theorem timely_relyGuarantee (F : Fernet) :
    RelyGuarantee (ι := ι) (TimedStep F)
      (fun c ↦ c.shared.store.LogOk ∧ ∀ i, (c.locals i).AuditOk c.shared.store) Timed.Advances
      Timed.Ok (fun x c ↦ ∀ a ∈ c.appending, a.Timely x) where
  step := by
    rintro c i x' t' ⟨hlog, hlocals⟩ - hx hc ⟨hstep, hclock, hstamp⟩
    refine ⟨⟨hstep.grows.commits, hclock⟩, ?_⟩
    rcases hstep.append_or with ⟨a, a', ha, ha', h⟩ | ⟨hcommits, hcalled⟩
    · have hok := (hlocals i).appending a ha
      have hstamp' : ∀ t k v p now, a' = .stamped t k v p now → now = x'.clock := by
        rintro t k v p now rfl
        exact hstamp t k v p now ha'
      obtain ⟨hx', hc'⟩ := h.timely hclock hstamp' hlog hok hx (hc a ha)
      refine ⟨hx', ?_⟩
      rw [ha']
      rintro b ⟨⟩
      exact hc'
    · refine ⟨hx.frame hcommits hclock, ?_⟩
      intro a ha
      obtain ⟨args, rfl⟩ := hcalled a ha
      trivial
  stable := fun _ _ _ hadvances hc a ha ↦ (hc a ha).mono hadvances

/-- **The invariant holds in every reachable state.** -/
theorem TimedReachable.ok {c : TimedSystem ι} (h : TimedReachable F c) : c.shared.Ok := by
  obtain ⟨database, now, hrun⟩ := h
  refine ((timely_relyGuarantee F).steps hrun ?_ ?_ ?_).1
  · intro d hd
    obtain ⟨hst, hlocals⟩ := TimedReachable.reachable ⟨database, now, hd⟩ |>.auditOk
    exact ⟨hst.log, hlocals⟩
  · constructor
    · intro s
      exact List.Pairwise.nil
    · simp [TimedSystem.init, Store.create]
  · simp [TimedSystem.init, Call.appending]

/-! ## Reads -/

/-- The version that is looked up is the version of the last row up to that moment. -/
theorem Timed.Ok.committedBy_eq {x : Timed} (hx : x.Ok) (hlog : x.store.LogOk) {s : Str}
    {now : Timestamp} {v : ℤ} (hv : x.store.versionAsOf s (utcnow now) = some v)
    (tenantId : Option Str) :
    replay x.store s v tenantId = committedBy x.store s now tenantId := by
  have hs := hlog s
  rw [replay, committedBy, hs.selectStream, hs.numbered.filter_key_le (hx.sorted s) hv]
  rfl

theorem committedBy_eq_nil {s : Str} {now : Timestamp} (hs : StreamOk (st.stream s))
    (hv : st.versionAsOf s (utcnow now) = none) (tenantId : Option Str) :
    committedBy st s now tenantId = [] := by
  have hnone := List.map_eq_nil_iff.mp (List.max?_eq_none_iff.mp hv)
  rw [committedBy, hs.selectStream]
  exact List.filter_eq_nil_iff.mpr fun row hrow ↦ absurd (hnone ▸ hrow) List.not_mem_nil

/-- **Time travel by timestamp is exact.**  With one clock for all writers the times of the rows of
a stream do not go down with their versions, in every reachable state.  So a read as of a moment, in
a store with a single stream, returns exactly the payloads of the commits at or before that moment,
in version order, and none if there are none.  Compactions and other calls may run next to it as
long as nothing is committed: a read that goes on in a later state to the version that was looked up
in this one returns the same. -/
theorem timestamp_read_exact {c : TimedSystem ι} (hc : TimedReachable F c) (s : Str) :
    (∀ row ∈ c.shared.store.stream s, ∀ row' ∈ c.shared.store.stream s,
      row.version ≤ row'.version → row.committedAt.toTimestamp ≤ row'.committedAt.toTimestamp) ∧
    (c.shared.store.Single s → ∀ now tenantId, ∃ payloads,
      (committedBy c.shared.store s now tenantId).map (fun row ↦ Json.loads row.payload) =
        payloads.map some ∧
      readAsOfTimestamp c.shared.store s (utcnow now) tenantId = some payloads ∧
      ∀ d, TimedRuns F c d → d.shared.store.commits = c.shared.store.commits →
        ∀ i v base rows, c.shared.store.versionAsOf s (utcnow now) = some v →
          d.locals i = .read (.loaded s v tenantId base rows) →
          ∀ e, StepOf (TimedStep F) i d e → e.locals i ≠ .idle →
            e.locals i = .read (.returned payloads)) := by
  have hlog : c.shared.store.LogOk := hc.reachable.auditOk.1.log
  have hx := hc.ok
  refine ⟨fun row hrow row' hrow' ↦ (hlog s).numbered.key_le (hx.sorted s) hrow hrow', ?_⟩
  intro hsingle now tenantId
  cases hv : c.shared.store.versionAsOf s (utcnow now) with
  | none =>
    refine ⟨[], ?_, ?_, fun d _ _ i v base rows hsome ↦ absurd hsome (by simp)⟩
    · rw [committedBy_eq_nil (hlog s) hv]
      rfl
    · rw [readAsOfTimestamp, hv]
  | some v =>
    obtain ⟨payloads, hread, hreplay⟩ :=
      (hc.reachable.filesOk hsingle).1.backed.readAsOfVersion (hlog s) v tenantId
    rw [← hx.committedBy_eq hlog hv]
    refine ⟨payloads, hreplay, ?_, ?_⟩
    · rw [readAsOfTimestamp, hv]
      exact hread
    · rintro d hd hcommits i _ base rows ⟨⟩ hloaded e ⟨x', t', hstep, rfl⟩ hidle
      have hsingle' : d.shared.store.Single s := by
        rw [Store.Single, hcommits]
        exact hsingle
      have hstep' : StepOf (SystemStep F) i (d.mapShared Timed.store)
          ((d.set i x' t').mapShared Timed.store) := ⟨x'.store, t', hstep.1, rfl⟩
      obtain ⟨payloads', hreturned, hreplay'⟩ :=
        (hc.reachable.trans hd.forget).read_tail hsingle' hloaded hstep' hidle
      have hsame : replay d.shared.store s v tenantId = replay c.shared.store s v tenantId := by
        simp only [replay, Store.selectStream, Store.stream, hcommits]
      have heq : payloads' = payloads := by
        refine List.map_injective_iff.mpr (Option.some_injective _) ?_
        exact hreplay'.symm.trans ((congrArg _ hsame).trans hreplay)
      exact heq ▸ hreturned

/-! ### A late writer

The second writer takes its time before the first one does, and comes too late; the row it writes in
the end carries the time of its second attempt. -/

/-- A moment after noon. -/
def afterNoon (second : ℕ) : Timestamp := { noon with second }

/-- The row of the first writer. -/
def promptRow : StorageCommit := (spanTask []).commit 1 none (afterNoon 1)

/-- The row of the late writer. -/
def lateRow : StorageCommit :=
  (spanTask [("a".toList, .int 1)]).commit 2 (some promptRow.entryHash) (afterNoon 2)

/-- The store after the first commit. -/
def promptStore : Store := { raceStart with commits := [promptRow.column] }

/-- The store after both commits. -/
def lateStore : Store := { raceStart with commits := [promptRow.column, lateRow.column] }

/-- A step of an append that takes no time. -/
theorem TimedStep.append {st st' : Store} {now : Timestamp} {a a' : AppendCall}
    (h : AppendStep st a st' a') (ha' : ∀ t k v p n, a' ≠ .stamped t k v p n) :
    TimedStep F ⟨st, now⟩ (.append a) ⟨st', now⟩ (.append a') :=
  ⟨.append h, le_rfl, fun t k v p n hstamped ↦ absurd (Option.some.inj hstamped) (ha' t k v p n)⟩

/-- A writer takes the time. -/
theorem TimedStep.stamp {st : Store} {t : AppendTask} {k : ℕ} {v : ℤ} {p : Option Str}
    {now now' : Timestamp} (h : now ≤ now') :
    TimedStep F ⟨st, now⟩ (.append (.linked t k v p)) ⟨st, now'⟩
      (.append (.stamped t k v p now')) := by
  refine ⟨.append (.stamp now'), h, ?_⟩
  rintro t' k' v' p' now'' ⟨⟩
  rfl

theorem late_reachable (F : Fernet) : ∃ c : TimedSystem Bool, TimedReachable F c ∧
    c.shared.store = lateStore := by
  let t₁ := spanTask []
  let t₂ := spanTask [("a".toList, .int 1)]
  have hcommit : AppendStep raceStart (.stamped t₁ 0 1 none (afterNoon 1)) promptStore
    (.committed promptRow.column) := .commit rfl
  have hrefused : AppendStep promptStore (.stamped t₂ 0 1 none noon) promptStore (.ready t₂ 1) :=
    .integrityError rfl
  have hprev : AppendStep promptStore (.versioned t₂ 1 2) promptStore
    (.linked t₂ 1 2 (some promptRow.entryHash)) := .readPrev rfl
  have hretry : AppendStep promptStore (.stamped t₂ 1 2 (some promptRow.entryHash) (afterNoon 2))
    lateStore (.committed lateRow.column) := .commit rfl
  have hversion₁ : AppendStep raceStart (.ready t₁ 0) raceStart (.versioned t₁ 0 1) :=
    .readVersion (by decide)
  have hversion₂ : AppendStep raceStart (.ready t₂ 0) raceStart (.versioned t₂ 0 1) :=
    .readVersion (by decide)
  have hversion₃ : AppendStep promptStore (.ready t₂ 1) promptStore (.versioned t₂ 1 2) :=
    .readVersion (by decide)
  have hprev₁ : AppendStep raceStart (.versioned t₁ 0 1) raceStart (.linked t₁ 0 1 none) :=
    .readPrev rfl
  have hprev₂ : AppendStep raceStart (.versioned t₂ 0 1) raceStart (.linked t₂ 0 1 none) :=
    .readPrev rfl
  have hmask (p : Payload) : AppendStep raceStart (.called (spanArgs p)) raceStart
    (.ready (spanTask p) 0) := .mask (fun p ↦ .ok (.dict p)) rfl
  have hstart (p : Payload) : TimedStep F ⟨raceStart, noon⟩ .idle ⟨raceStart, noon⟩
      (.append (.called (spanArgs p))) := by
    refine ⟨.start (.append _), le_rfl, ?_⟩
    rintro t k v p now ⟨⟩
  have h0 : TimedRuns F (TimedSystem.init Bool "store.db".toList noon) _ := .refl
  have h1 := Steps.thread h0 false (hstart [])
  have h2 := Steps.thread h1 true (hstart [("a".toList, .int 1)])
  have h3 := Steps.thread h2 false (TimedStep.append (hmask _) (by simp))
  have h4 := Steps.thread h3 true (TimedStep.append (hmask _) (by simp))
  have h5 := Steps.thread h4 false (TimedStep.append hversion₁ (by simp))
  have h6 := Steps.thread h5 true (TimedStep.append hversion₂ (by simp))
  have h7 := Steps.thread h6 true (TimedStep.append hprev₂ (by simp))
  have h8 := Steps.thread h7 true (TimedStep.stamp le_rfl)
  have h9 := Steps.thread h8 false (TimedStep.append hprev₁ (by simp))
  have h10 := Steps.thread h9 false (TimedStep.stamp (show noon ≤ afterNoon 1 by decide))
  have h11 := Steps.thread h10 false (TimedStep.append hcommit (by simp))
  have h12 := Steps.thread h11 true (TimedStep.append hrefused (by simp))
  have h13 := Steps.thread h12 true (TimedStep.append hversion₃ (by simp))
  have h14 := Steps.thread h13 true (TimedStep.append hprev (by simp))
  have h15 := Steps.thread h14 true (TimedStep.stamp (show afterNoon 1 ≤ afterNoon 2 by decide))
  have h16 := Steps.thread h15 true (TimedStep.append hretry (by simp))
  exact ⟨_, ⟨_, _, h16⟩, rfl⟩

/-- Between the two commits there is the first one, and at noon there is none. -/
theorem late_read : readAsOfTimestamp lateStore "spans".toList (utcnow (afterNoon 1)) none =
      some [.obj []] ∧
    readAsOfTimestamp lateStore "spans".toList (utcnow noon) none = some [] := by
  obtain ⟨c, hc, hst⟩ := late_reachable ⟨fun _ _ p ↦ p, fun _ t ↦ some t⟩
  have hexact := (timestamp_read_exact hc "spans".toList).2
  rw [hst] at hexact
  have hsingle : lateStore.Single "spans".toList := by
    intro row hrow
    simp only [lateStore, List.mem_cons, List.not_mem_nil, or_false] at hrow
    rcases hrow with rfl | rfl <;> rfl
  obtain ⟨first, hfirst, hread, -⟩ := hexact hsingle (afterNoon 1) none
  obtain ⟨none', hnone, hread', -⟩ := hexact hsingle noon none
  have hcommitted : (committedBy lateStore "spans".toList (afterNoon 1) none).map
      (fun row ↦ Json.loads row.payload) = [.obj []].map some := rfl
  have hcommitted' : (committedBy lateStore "spans".toList noon none).map
      (fun row ↦ Json.loads row.payload) = [].map some := rfl
  rw [hcommitted] at hfirst
  rw [hcommitted'] at hnone
  rw [hread, hread', ← List.map_injective_iff.mpr (Option.some_injective _) hfirst,
    ← List.map_injective_iff.mpr (Option.some_injective _) hnone]
  exact ⟨rfl, rfl⟩

end WiseTraceLoom
