import WiseTraceLoom.Lib.Calendar
import WiseTraceLoom.Storage.Clock

/-!
# Instants and wall clocks

A `datetime` column holds the wall-clock fields of a value without its offset.  All rows are written
in UTC, so for a row the fields are as good as the instant.  The `timestamp` of
`read_as_of_timestamp` comes from the host, in any zone, and loses its offset in the query; so the
read goes up to the moment whose UTC fields are those of the `timestamp`, and not to its instant.

`instant_read_iff` says for which streams and timestamps this makes no difference: no commit is on
different sides of the two.
-/

set_option autoImplicit false

namespace WiseTraceLoom

open NumberedLog

variable {st : Store} {s : Str}

/-! ## Instants -/

/-- The fields name a moment. -/
structure Timestamp.Valid (t : Timestamp) : Prop where
  year : 1 ≤ t.year ∧ t.year ≤ 9999
  month : 1 ≤ t.month ∧ t.month ≤ 12
  day : 1 ≤ t.day ∧ t.day ≤ Calendar.daysInMonth t.year t.month
  hour : t.hour < 24
  minute : t.minute < 60
  second : t.second < 60
  microsecond : t.microsecond < 1000000

/-- The microseconds of a day, up to the time of the day. -/
def Timestamp.timeOfDay (t : Timestamp) : ℕ :=
  ((t.hour * 60 + t.minute) * 60 + t.second) * 1000000 + t.microsecond

/-- The microseconds of a day. -/
def dayMicroseconds : ℕ := 86400000000

/-- The microseconds up to the moment that has these fields in UTC. -/
def Timestamp.micros (t : Timestamp) : ℤ :=
  Calendar.toOrdinal t.year t.month t.day * dayMicroseconds + t.timeOfDay

/-- A timezone-aware `datetime`. -/
structure AwareDatetime extends Timestamp where
  /-- `utcoffset()`, in microseconds. -/
  utcoffset : ℤ
  valid : toTimestamp.Valid
  bounded : -dayMicroseconds < utcoffset ∧ utcoffset < dayMicroseconds

/-- The instant it denotes. -/
def AwareDatetime.instant (dt : AwareDatetime) : ℤ := dt.micros - dt.utcoffset

/-- The same with its offset in seconds, which is all that `isoformat` mostly shows. -/
def AwareDatetime.datetime (dt : AwareDatetime) : Datetime :=
  ⟨dt.toTimestamp, some (dt.utcoffset / 1000000)⟩

/-- The instant a row was committed at: its column was written in UTC. -/
def StorageCommit.instant (row : StorageCommit) : ℤ := row.committedAt.toTimestamp.micros

theorem Timestamp.Valid.timeOfDay_lt {t : Timestamp} (h : t.Valid) :
    t.timeOfDay < dayMicroseconds := by
  have hhour := h.hour
  have hminute := h.minute
  have hsecond := h.second
  have hmicrosecond := h.microsecond
  rw [Timestamp.timeOfDay, dayMicroseconds]
  omega

/-- **The fields are ordered as the moments they name in UTC.** -/
theorem Timestamp.Valid.micros_lt {t t' : Timestamp} (h : t.Valid) (h' : t'.Valid) (hlt : t < t') :
    t.micros < t'.micros := by
  have hkey : t.key < t'.key := hlt
  simp only [Timestamp.key, Prod.Lex.toLex_lt_toLex] at hkey
  have hday := h.timeOfDay_lt
  have hdate : (t.year < t'.year ∨ t.year = t'.year ∧
      (t.month < t'.month ∨ t.month = t'.month ∧ t.day < t'.day)) ∨
      (t.year = t'.year ∧ t.month = t'.month ∧ t.day = t'.day) ∧ t.timeOfDay < t'.timeOfDay := by
    have hminute := h.minute
    have hsecond := h.second
    have hmicrosecond := h.microsecond
    simp only [Timestamp.timeOfDay]
    omega
  rcases hdate with hdate | ⟨⟨hyear, hmonth, hday'⟩, htime⟩
  · have hordinal := Calendar.toOrdinal_lt h.year.1 h.month.1 h.month.2 h.day.2 h'.day.1 hdate
    simp only [Timestamp.micros, dayMicroseconds] at hday ⊢
    omega
  · simp only [Timestamp.micros, hyear, hmonth, hday']
    omega

theorem Timestamp.Valid.micros_le_iff {t t' : Timestamp} (h : t.Valid) (h' : t'.Valid) :
    t.micros ≤ t'.micros ↔ t ≤ t' := by
  rcases lt_trichotomy t t' with hlt | rfl | hlt
  · exact iff_of_true (h.micros_lt h' hlt).le hlt.le
  · exact iff_of_true le_rfl le_rfl
  · exact iff_of_false (h'.micros_lt h hlt).not_ge hlt.not_ge

/-! ## The rows of a read -/

/-- The rows whose payloads `read_as_of_timestamp` returns. -/
def rowsAsOfTimestamp (st : Store) (streamId : Str) (timestamp : Datetime)
    (tenantId : Option Str) : Option (List StreamRow) :=
  match st.versionAsOf streamId timestamp with
  | none => some []
  | some version => loadStreamState st streamId version tenantId

theorem readAsOfTimestamp_eq (st : Store) (s : Str) (timestamp : Datetime)
    (tenantId : Option Str) : readAsOfTimestamp st s timestamp tenantId =
      (rowsAsOfTimestamp st s timestamp tenantId).bind loadPayloads := by
  rw [readAsOfTimestamp, rowsAsOfTimestamp]
  cases st.versionAsOf s timestamp with
  | none => rfl
  | some v => rfl

/-- The commits of a tenant whose instant is not after the given one, in version order. -/
def commitsAsOf (st : Store) (streamId : Str) (instant : ℤ) (tenantId : Option Str) :
    List StorageCommit :=
  ((st.selectStream streamId).filter fun row ↦ row.instant ≤ instant).filter fun row ↦
    tenantId.all fun t ↦ row.tenantId = some t

/-- **The rows of a read on its own** are the replay of the log. -/
theorem Store.Backed.loadStreamState (h : st.Backed) (hlog : StreamOk (st.stream s)) (v : ℤ)
    (tenantId : Option Str) : loadStreamState st s v tenantId =
      some ((replay st s v tenantId).map StorageCommit.toStreamRow) := by
  rw [WiseTraceLoom.loadStreamState]
  cases hbest : st.bestCheckpoint s v with
  | none =>
    have hsplice := hlog.splice (v := v) (Or.inr rfl)
    rw [snapshot, Int.toNat_zero, List.take_zero, List.map_nil, List.nil_append] at hsplice
    simp only [hsplice, hlog.assemble_snapshot]
  | some ck =>
    obtain ⟨hck, rfl, hle⟩ := Store.bestCheckpoint_mem hbest
    simp only [(h ck hck).1, Option.map_some, hlog.splice (Or.inl hle), hlog.assemble_snapshot]

/-- A read that goes up to the last version committed by a moment returns the row. -/
def ReadsRow (st : Store) (s : Str) (moment : ℤ) (row : StorageCommit) : Prop :=
  ∃ row' ∈ st.stream s, row.version ≤ row'.version ∧ row'.instant ≤ moment

instance (st : Store) (s : Str) (moment : ℤ) (row : StorageCommit) :
    Decidable (ReadsRow st s moment row) :=
  inferInstanceAs (Decidable (∃ row' ∈ st.stream s, _))

/-- The row is of the tenant that is asked for, if one is. -/
def StorageCommit.IsOf (row : StorageCommit) (tenantId : Option Str) : Prop :=
  ∀ t, tenantId = some t → row.tenantId = some t

theorem StorageCommit.isOf_iff {row : StorageCommit} {tenantId : Option Str} :
    row.IsOf tenantId ↔ (tenantId.all fun t ↦ row.tenantId = some t) = true := by
  cases tenantId with
  | none => simp [StorageCommit.IsOf]
  | some t => simp [StorageCommit.IsOf]

/-- **The rows of a read**: it goes up to the moment that the fields name in UTC. -/
theorem Store.Backed.rowsAsOfTimestamp (hbacked : st.Backed) (hlog : StreamOk (st.stream s))
    (hvalid : ∀ row ∈ st.stream s, row.committedAt.toTimestamp.Valid) (dt : AwareDatetime)
    (tenantId : Option Str) : rowsAsOfTimestamp st s dt.datetime tenantId =
      some ((((st.stream s).filter fun row ↦ ReadsRow st s dt.micros row).filter fun row ↦
        tenantId.all fun t ↦ row.tenantId = some t).map StorageCommit.toStreamRow) := by
  have hle {row : StorageCommit} (hrow : row ∈ st.stream s) :
      row.instant ≤ dt.micros ↔ row.committedAt.toTimestamp ≤ dt.toTimestamp :=
    (hvalid row hrow).micros_le_iff dt.valid
  rw [WiseTraceLoom.rowsAsOfTimestamp]
  cases hv : st.versionAsOf s dt.datetime with
  | none =>
    have hnone := List.map_eq_nil_iff.mp (List.max?_eq_none_iff.mp hv)
    have hempty : ((st.stream s).filter fun row ↦ ReadsRow st s dt.micros row) = [] := by
      refine List.filter_eq_nil_iff.mpr fun row _ hreads ↦ ?_
      obtain ⟨row', hrow', -, hmoment⟩ := of_decide_eq_true hreads
      exact absurd (decide_eq_true ((hle hrow').mp hmoment))
        (List.filter_eq_nil_iff.mp hnone row' hrow')
    simp only [hempty, List.filter_nil, List.map_nil]
  | some v =>
    obtain ⟨hmem, hmax⟩ := List.max?_eq_some_iff.mp hv
    obtain ⟨top, htop, rfl⟩ := List.mem_map.mp hmem
    obtain ⟨htop, hmoment⟩ := List.mem_filter.mp htop
    have hreads : ((st.stream s).filter fun row ↦ row.version ≤ top.version) =
        (st.stream s).filter fun row ↦ ReadsRow st s dt.micros row := by
      refine List.filter_congr fun row _ ↦ decide_eq_decide.mpr ⟨fun hversion ↦ ?_, ?_⟩
      · exact ⟨top, htop, hversion, (hle htop).mpr (of_decide_eq_true hmoment)⟩
      · rintro ⟨row', hrow', hversion, hmoment'⟩
        refine hversion.trans (hmax _ (List.mem_map_of_mem (List.mem_filter.mpr ⟨hrow', ?_⟩)))
        exact decide_eq_true ((hle hrow').mp hmoment')
    simp only [hbacked.loadStreamState hlog, replay, hlog.selectStream, hreads]

/-- Rows of a stream that are selected twice are the same if the selections agree. -/
theorem StreamOk.map_filter_eq_iff {rows : List StorageCommit} (h : StreamOk rows)
    {p q t : StorageCommit → Bool} :
    ((rows.filter p).filter t).map StorageCommit.toStreamRow =
        ((rows.filter q).filter t).map StorageCommit.toStreamRow ↔
      ∀ row ∈ rows, t row = true → (p row = true ↔ q row = true) := by
  have hmem {p q : StorageCommit → Bool}
      (heq : ((rows.filter p).filter t).map StorageCommit.toStreamRow =
        ((rows.filter q).filter t).map StorageCommit.toStreamRow) {row : StorageCommit}
      (hrow : row ∈ rows) (ht : t row = true) (hp : p row = true) : q row = true := by
    have hread := List.mem_map_of_mem (f := StorageCommit.toStreamRow)
      (List.mem_filter.mpr ⟨List.mem_filter.mpr ⟨hrow, hp⟩, ht⟩)
    rw [heq] at hread
    obtain ⟨row', hrow', hsame⟩ := List.mem_map.mp hread
    obtain ⟨hrow', -⟩ := List.mem_filter.mp hrow'
    obtain ⟨hrow', hq⟩ := List.mem_filter.mp hrow'
    -- the version tells which row it was
    have hversion : row'.version = row.version := congrArg StreamRow.version hsame
    exact h.numbered.injOn hrow' hrow hversion ▸ hq
  constructor
  · exact fun heq row hrow ht ↦ ⟨hmem heq hrow ht, hmem heq.symm hrow ht⟩
  · intro hpq
    simp only [List.filter_filter]
    refine congrArg _ (List.filter_congr fun row hrow ↦ ?_)
    cases ht : t row with
    | false => simp
    | true => simp [Bool.eq_iff_iff.mpr (hpq row hrow ht)]

/-! ## Reads and instants -/

/-- No commit of the tenant makes a difference between the instant and the fields of a timestamp:
those up to the instant, and no others, are read up to the moment that the fields name in UTC. -/
def AwareDatetime.Agrees (dt : AwareDatetime) (st : Store) (s : Str) (tenantId : Option Str) :
    Prop :=
  ∀ row ∈ st.stream s, row.IsOf tenantId →
    (ReadsRow st s (dt.instant + dt.utcoffset) row ↔ row.instant ≤ dt.instant)

/-- The read returns the commits whose instant is not after that of the timestamp. -/
def ReadsInstant (st : Store) (s : Str) (dt : AwareDatetime) (tenantId : Option Str) : Prop :=
  rowsAsOfTimestamp st s dt.datetime tenantId =
    some ((commitsAsOf st s dt.instant tenantId).map StorageCommit.toStreamRow)

theorem AwareDatetime.instant_add_utcoffset (dt : AwareDatetime) :
    dt.instant + dt.utcoffset = dt.micros := by
  rw [AwareDatetime.instant]
  omega

theorem Store.Backed.readsInstant_iff (hbacked : st.Backed) (hlog : StreamOk (st.stream s))
    (hvalid : ∀ row ∈ st.stream s, row.committedAt.toTimestamp.Valid) (dt : AwareDatetime)
    (tenantId : Option Str) :
    ReadsInstant st s dt tenantId ↔ dt.Agrees st s tenantId := by
  rw [ReadsInstant, hbacked.rowsAsOfTimestamp hlog hvalid, Option.some_inj, commitsAsOf,
    hlog.selectStream, hlog.map_filter_eq_iff, AwareDatetime.Agrees, dt.instant_add_utcoffset]
  simp only [← StorageCommit.isOf_iff, decide_eq_true_eq]

/-- The payloads that a read returns are those of its rows. -/
theorem Store.Backed.readAsOfTimestamp (hbacked : st.Backed) (hlog : StreamOk (st.stream s))
    (hvalid : ∀ row ∈ st.stream s, row.committedAt.toTimestamp.Valid) (dt : AwareDatetime)
    (tenantId : Option Str) : ∃ payloads,
      readAsOfTimestamp st s dt.datetime tenantId = some payloads ∧
      (((st.stream s).filter fun row ↦ ReadsRow st s dt.micros row).filter fun row ↦
        tenantId.all fun t ↦ row.tenantId = some t).map (fun row ↦ Json.loads row.payload) =
          payloads.map some := by
  rw [readAsOfTimestamp_eq, hbacked.rowsAsOfTimestamp hlog hvalid, Option.bind_some]
  exact hlog.loadPayloads fun row hrow ↦ (List.mem_filter.mp (List.mem_filter.mp hrow).1).1

/-- A read that returns the right commits returns their payloads. -/
theorem ReadsInstant.payloads (hlog : StreamOk (st.stream s)) {dt : AwareDatetime}
    {tenantId : Option Str} (h : ReadsInstant st s dt tenantId) : ∃ payloads,
      readAsOfTimestamp st s dt.datetime tenantId = some payloads ∧
      (commitsAsOf st s dt.instant tenantId).map (fun row ↦ Json.loads row.payload) =
        payloads.map some := by
  rw [readAsOfTimestamp_eq, h, Option.bind_some]
  refine hlog.loadPayloads fun row hrow ↦ ?_
  rw [commitsAsOf, hlog.selectStream] at hrow
  exact (List.mem_filter.mp (List.mem_filter.mp hrow).1).1

/-- Where the times do not go down along a stream, a read up to a moment returns the rows that were
committed by then. -/
theorem readsRow_iff (hlog : StreamOk (st.stream s))
    (hsorted : (st.stream s).Pairwise fun a b ↦ a.instant ≤ b.instant) {moment : ℤ}
    {row : StorageCommit} (hrow : row ∈ st.stream s) :
    ReadsRow st s moment row ↔ row.instant ≤ moment := by
  constructor
  · rintro ⟨row', hrow', hversion, hmoment⟩
    exact (hlog.numbered.key_le hsorted hrow hrow' hversion).trans hmoment
  · exact fun hmoment ↦ ⟨row, hrow, le_rfl, hmoment⟩

/-- Two bounds that select equally many rows select the same rows. -/
theorem le_iff_of_length_eq {α : Type} {key : α → ℤ} {t : α → Bool} {l : List α} {a b : ℤ}
    (h : ((l.filter fun x ↦ key x ≤ a).filter t).length =
      ((l.filter fun x ↦ key x ≤ b).filter t).length) :
    ∀ x ∈ l, t x = true → (key x ≤ a ↔ key x ≤ b) := by
  wlog hab : a ≤ b generalizing a b
  · exact fun x hx ht ↦ (this h.symm (le_of_not_ge hab) x hx ht).symm
  intro x hx ht
  refine ⟨fun hxa ↦ hxa.trans hab, fun hxb ↦ ?_⟩
  have hsub : (l.filter fun x ↦ decide (key x ≤ a)).Sublist
      (l.filter fun x ↦ decide (key x ≤ b)) :=
    List.monotone_filter_right l fun x hxa ↦ decide_eq_true ((of_decide_eq_true hxa).trans hab)
  have heq := (hsub.filter t).eq_of_length h
  have hmem : x ∈ (l.filter fun x ↦ decide (key x ≤ b)).filter t :=
    List.mem_filter.mpr ⟨List.mem_filter.mpr ⟨hx, decide_eq_true hxb⟩, ht⟩
  rw [← heq] at hmem
  exact of_decide_eq_true (List.mem_filter.mp (List.mem_filter.mp hmem).1).2

/-- **If the right payloads are returned**, and the times do not go down, no commit lies between the
instant and the moment up to which is read: as many payloads are returned as there should be. -/
theorem Store.Backed.agrees_of_payloads (hbacked : st.Backed) (hlog : StreamOk (st.stream s))
    (hvalid : ∀ row ∈ st.stream s, row.committedAt.toTimestamp.Valid)
    (hsorted : (st.stream s).Pairwise fun a b ↦ a.instant ≤ b.instant) (dt : AwareDatetime)
    {tenantId : Option Str} {payloads : List Json}
    (hread : WiseTraceLoom.readAsOfTimestamp st s dt.datetime tenantId = some payloads)
    (hpayloads : (commitsAsOf st s dt.instant tenantId).map (fun row ↦ Json.loads row.payload) =
      payloads.map some) :
    ∀ row ∈ st.stream s, row.IsOf tenantId →
      (row.instant ≤ dt.instant + dt.utcoffset ↔ row.instant ≤ dt.instant) := by
  intro row hrow hof
  obtain ⟨payloads', hread', hpayloads'⟩ := hbacked.readAsOfTimestamp hlog hvalid dt tenantId
  rw [hread, Option.some_inj] at hread'
  subst hread'
  have hlen := congrArg List.length (hpayloads'.trans hpayloads.symm)
  have hreads : ((st.stream s).filter fun row ↦ ReadsRow st s dt.micros row) =
      (st.stream s).filter fun row ↦ row.instant ≤ dt.micros :=
    List.filter_congr fun row hrow ↦ decide_eq_decide.mpr (readsRow_iff hlog hsorted hrow)
  rw [hreads, commitsAsOf, hlog.selectStream, List.length_map, List.length_map] at hlen
  rw [dt.instant_add_utcoffset]
  exact le_iff_of_length_eq hlen row hrow (StorageCommit.isOf_iff.mp hof)

/-- **When a read depends on the instant only.**  Reads as of two timestamps of one instant both
return the commits whose `committed_at` is not after it, and so the payloads of these, exactly if
for each of the two the commits not after the instant are those that are read up to the moment with
the same fields in UTC.  If the times do not go down along the stream, this is already necessary for
the payloads to be right, and says that no commit lies between that moment and the instant. -/
theorem instant_read_iff (hbacked : st.Backed) (hlog : StreamOk (st.stream s))
    (hvalid : ∀ row ∈ st.stream s, row.committedAt.toTimestamp.Valid) {d₁ d₂ : AwareDatetime}
    (hsame : d₁.instant = d₂.instant) (tenantId : Option Str) :
    ((rowsAsOfTimestamp st s d₁.datetime tenantId = rowsAsOfTimestamp st s d₂.datetime tenantId ∧
      rowsAsOfTimestamp st s d₁.datetime tenantId =
        some ((commitsAsOf st s d₁.instant tenantId).map StorageCommit.toStreamRow)) ↔
      d₁.Agrees st s tenantId ∧ d₂.Agrees st s tenantId) ∧
    (d₁.Agrees st s tenantId ∧ d₂.Agrees st s tenantId → ∃ payloads,
      readAsOfTimestamp st s d₁.datetime tenantId = some payloads ∧
      readAsOfTimestamp st s d₂.datetime tenantId = some payloads ∧
      (commitsAsOf st s d₁.instant tenantId).map (fun row ↦ Json.loads row.payload) =
        payloads.map some) ∧
    ((st.stream s).Pairwise (fun a b ↦ a.instant ≤ b.instant) →
      ((∃ payloads, readAsOfTimestamp st s d₁.datetime tenantId = some payloads ∧
        readAsOfTimestamp st s d₂.datetime tenantId = some payloads ∧
        (commitsAsOf st s d₁.instant tenantId).map (fun row ↦ Json.loads row.payload) =
          payloads.map some) ↔
      ∀ row ∈ st.stream s, row.IsOf tenantId →
        (row.instant ≤ d₁.instant + d₁.utcoffset ↔ row.instant ≤ d₁.instant) ∧
        (row.instant ≤ d₂.instant + d₂.utcoffset ↔ row.instant ≤ d₂.instant))) := by
  have hrows (dt : AwareDatetime) := hbacked.readsInstant_iff hlog hvalid dt tenantId
  have hboth : d₁.Agrees st s tenantId ∧ d₂.Agrees st s tenantId → ∃ payloads,
      readAsOfTimestamp st s d₁.datetime tenantId = some payloads ∧
      readAsOfTimestamp st s d₂.datetime tenantId = some payloads ∧
      (commitsAsOf st s d₁.instant tenantId).map (fun row ↦ Json.loads row.payload) =
        payloads.map some := by
    rintro ⟨h₁, h₂⟩
    obtain ⟨payloads, hread, hpayloads⟩ := ((hrows d₁).mpr h₁).payloads hlog
    obtain ⟨payloads', hread', hpayloads'⟩ := ((hrows d₂).mpr h₂).payloads hlog
    rw [← hsame, hpayloads] at hpayloads'
    have heq := List.map_injective_iff.mpr (Option.some_injective _) hpayloads'
    exact ⟨payloads, hread, heq ▸ hread', hpayloads⟩
  refine ⟨?_, hboth, fun hsorted ↦ ?_⟩
  · rw [← hrows d₁, ← hrows d₂, ReadsInstant, ReadsInstant, ← hsame]
    constructor
    · rintro ⟨heq, h⟩
      exact ⟨h, heq ▸ h⟩
    · rintro ⟨h₁, h₂⟩
      exact ⟨h₁.trans h₂.symm, h₁⟩
  · have hagrees (dt : AwareDatetime) : dt.Agrees st s tenantId ↔ ∀ row ∈ st.stream s,
        row.IsOf tenantId → (row.instant ≤ dt.instant + dt.utcoffset ↔ row.instant ≤ dt.instant) :=
      forall₃_congr fun row hrow _ ↦ by rw [readsRow_iff hlog hsorted hrow]
    constructor
    · rintro ⟨payloads, hread₁, hread₂, hpayloads⟩ row hrow hof
      have h₁ := hbacked.agrees_of_payloads hlog hvalid hsorted d₁ hread₁ hpayloads
      have h₂ := hbacked.agrees_of_payloads hlog hvalid hsorted d₂ hread₂ (hsame ▸ hpayloads)
      exact ⟨h₁ row hrow hof, h₂ row hrow hof⟩
    · intro h
      exact hboth ⟨(hagrees d₁).mpr fun row hrow hof ↦ (h row hrow hof).1,
        (hagrees d₂).mpr fun row hrow hof ↦ (h row hrow hof).2⟩

/-! ### Around noon

One row, committed at noon in UTC. -/

theorem noon_valid : noon.Valid := by constructor <;> decide

/-- A time of the day of the row, two hours ahead of UTC. -/
def cairo (hour : ℕ) (h : hour < 24) : AwareDatetime where
  toTimestamp := { noon with hour }
  utcoffset := 7200000000
  valid := { noon_valid with hour := h }
  bounded := by decide

/-- A time of the day of the row, in UTC. -/
def london (hour : ℕ) (h : hour < 24) : AwareDatetime where
  toTimestamp := { noon with hour }
  utcoffset := 0
  valid := { noon_valid with hour := h }
  bounded := by decide

theorem raceMiddle_backed : raceMiddle.Backed := fun _ hck ↦ absurd hck List.not_mem_nil

theorem raceMiddle_streamOk : StreamOk (raceMiddle.stream "spans".toList) :=
  streamOk_nil.concat rfl rfl ((spanTask []).sealed_commit 1 none noon)

theorem raceMiddle_valid :
    ∀ row ∈ raceMiddle.stream "spans".toList, row.committedAt.toTimestamp.Valid := by
  intro row hrow
  obtain rfl := List.mem_singleton.mp hrow
  exact noon_valid

/-- Long after noon the offset does not matter. -/
theorem evening_read : (cairo 20 (by decide)).instant = (london 18 (by decide)).instant ∧
    ∃ payloads, readAsOfTimestamp raceMiddle "spans".toList (cairo 20 (by decide)).datetime none =
        some payloads ∧
      readAsOfTimestamp raceMiddle "spans".toList (london 18 (by decide)).datetime none =
        some payloads ∧
      (commitsAsOf raceMiddle "spans".toList (cairo 20 (by decide)).instant none).map
        (fun row ↦ Json.loads row.payload) = payloads.map some := by
  have hsame : (cairo 20 (by decide)).instant = (london 18 (by decide)).instant := by decide
  obtain ⟨-, -, hsorted⟩ := instant_read_iff raceMiddle_backed raceMiddle_streamOk
    raceMiddle_valid hsame none
  refine ⟨hsame, (hsorted (List.pairwise_singleton _ _)).mpr fun row hrow _ ↦ ?_⟩
  obtain rfl := List.mem_singleton.mp hrow
  exact ⟨by decide, by decide⟩

/-- **The other way round**: eleven in UTC is thirteen two hours further east, and a read as of the
latter returns the row, although it was committed an hour later. -/
theorem offset_read : (cairo 13 (by decide)).instant = (london 11 (by decide)).instant ∧
    readAsOfTimestamp raceMiddle "spans".toList (cairo 13 (by decide)).datetime none =
      some [.obj []] ∧
    readAsOfTimestamp raceMiddle "spans".toList (london 11 (by decide)).datetime none = some [] ∧
    commitsAsOf raceMiddle "spans".toList (cairo 13 (by decide)).instant none = [] := by
  refine ⟨by decide, ?_, ?_, by decide⟩
  · rfl
  · rfl

end WiseTraceLoom
