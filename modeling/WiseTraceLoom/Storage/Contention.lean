import Mathlib.Data.Finset.Card
import WiseTraceLoom.Storage.Log

/-!
# Appends under contention

How often can an append lose?  An attempt that is refused by the unique constraint has lost its
version to a commit that came after the attempt had read the stream.  The next attempt reads again,
so two attempts never lose to the same commit, and a call that gives up after `m` attempts has seen
`m` commits of other calls.  `AppendCall.Charged` keeps the account: after `k` lost attempts there
are `k` rows more than there were when the call was made.

Here every call is a thread of its own.  A writer that makes several calls one after the other is
the case in which the steps of these calls do not overlap.
-/

set_option autoImplicit false

namespace WiseTraceLoom

open Interleaving NumberedLog

variable {ι : Type} [DecidableEq ι] {st st' : Store}

/-- Calls to `append_commit` on one store. -/
abbrev Appends (ι : Type) := Config ι Store AppendCall

/-- A new store, and no call has done anything yet. -/
def Appends.init (database : Str) (args : ι → AppendArgs) : Appends ι :=
  ⟨Store.create database, fun i ↦ .called (args i)⟩

/-- Commits fail only through the unique constraint, and nobody but the retry loop gives up. -/
def OnlyConflicts (st : Store) (c c' : AppendCall) : Prop :=
  match c, c' with
  | .stamped t _ v p now, .ready _ _ => st.insertCommit (t.commit v p now) = none
  | .ready t k, .raised (.conflict s m) => t.maxRetries ≤ k ∧ s = t.streamId ∧ m = t.maxRetries
  | _, .raised (.conflict _ _) => False
  | _, _ => True

/-- One step of a call whose commits fail only through the unique constraint. -/
def ContestedStep (st : Store) (c : AppendCall) (st' : Store) (c' : AppendCall) : Prop :=
  AppendStep st c st' c' ∧ OnlyConflicts st c c'

/-- The commit of a row to a stream. -/
def AppendCall.commitsTo (s : Str) : AppendCall → Bool
  | .committed row => row.streamId = s
  | _ => false

/-- Has the call given up? -/
def AppendCall.gaveUp : AppendCall → Bool
  | .raised (.conflict _ _) => true
  | _ => false

/-- May the call have written its row?  (What ends with another exception may have failed after its
commit.) -/
def AppendCall.mayHaveWritten (c : AppendCall) : Bool :=
  match c with
  | .committed _ => true
  | c => c.ended && !c.gaveUp

/-- The row a call has written. -/
def AppendCall.row? : AppendCall → Option StorageCommit
  | .committed row | .returned row => some row
  | _ => none

/-! ## What a call is about -/

/-- The call was made with these arguments. -/
def AppendCall.Of (a : AppendArgs) : AppendCall → Prop
  | .called a' => a' = a
  | .ready t _ | .versioned t _ _ | .linked t _ _ _ | .stamped t _ _ _ _ =>
    ∃ callback, a.prepare callback = .ok t
  | .committed row | .returned row => a.Writes row
  | .raised (.conflict s m) => s = a.streamId ∧ m = a.maxRetries
  | .raised _ => True

theorem AppendStep.of {a : AppendArgs} {c c' : AppendCall} (h : AppendStep st c st' c')
    (hc : c.Of a) (hc' : ∀ e, c' ≠ .raised e) : c'.Of a := by
  cases h with
  | mask callback h =>
    cases hc
    exact ⟨callback, h⟩
  | readVersion | readPrev | stamp | integrityError | operationalError | finish => exact hc
  | commit =>
    obtain ⟨callback, ht⟩ := hc
    exact ⟨callback, _, _, _, _, ht, rfl⟩
  | maskError | exhausted | readPrevError | fail => exact absurd rfl (hc' _)

theorem ContestedStep.of {a : AppendArgs} {c c' : AppendCall} (h : ContestedStep st c st' c')
    (hc : c.Of a) : c'.Of a := by
  by_cases hraised : ∃ s m, c' = .raised (.conflict s m)
  · obtain ⟨s, m, rfl⟩ := hraised
    -- only the retry loop gives up, and it names its own stream and number of attempts
    cases c with
    | ready t k =>
      obtain ⟨callback, ht⟩ := hc
      obtain ⟨-, rfl, rfl⟩ := h.2
      obtain ⟨hstream, -, hretries⟩ := AppendArgs.prepare_eq_ok ht
      exact ⟨hstream, hretries⟩
    | _ => exact h.2.elim
  · cases c' with
    | raised e =>
      cases e with
      | conflict s m => exact absurd ⟨s, m, rfl⟩ hraised
      | _ => trivial
    | _ => exact h.1.of hc (by simp)

/-! ## The account -/

/-- After `k` lost attempts the stream has at least `k` rows more than the `base` ones; an attempt
that has read its version will lose to a row beyond these. -/
def AppendCall.Charged (base : Str → ℕ) (st : Store) : AppendCall → Prop
  | .called a => base a.streamId ≤ (st.stream a.streamId).length
  | .ready t k => base t.streamId + k ≤ (st.stream t.streamId).length
  | .versioned t k v | .linked t k v _ | .stamped t k v _ _ => (base t.streamId : ℤ) + k + 1 ≤ v
  | .raised (.conflict s m) => base s + m ≤ (st.stream s).length
  | _ => True

theorem AppendCall.Charged.mono {base : Str → ℕ} {c : AppendCall} (hc : c.Charged base st)
    (h : st.commits <+: st'.commits) : c.Charged base st' := by
  have hle (s : Str) := (Store.stream_prefix h s).length_le
  match c, hc with
  | .called a, hc => exact le_trans hc (hle a.streamId)
  | .ready t k, hc => exact le_trans hc (hle t.streamId)
  | .versioned _ _ _, hc | .linked _ _ _ _, hc | .stamped _ _ _ _ _, hc => exact hc
  | .raised (.conflict s m), hc => exact le_trans hc (hle s)
  | .committed _, _ | .returned _, _ => trivial
  | .raised (.unrouted _), _ | .raised (.masking _), _ | .raised (.one _), _
  | .raised .other, _ => trivial

/-- A version that is refused is one of the stream's. -/
theorem Store.LogOk.le_of_refused (hlog : st.LogOk) {t : AppendTask} {v : ℤ} {p : Option Str}
    {now : Timestamp} (h : st.insertCommit (t.commit v p now) = none) :
    v ≤ (st.stream t.streamId).length := by
  obtain ⟨r, hr, hs, hv⟩ := Store.insertCommit_eq_none.mp h
  have hversion : r.version = v := hv
  rw [← hversion]
  exact ((hlog t.streamId).numbered.bounds (List.mem_filter.mpr ⟨hr, decide_eq_true hs⟩)).2

/-- **One step of the account.**  A refused attempt has lost to a row with the version it read. -/
theorem ContestedStep.charged {base : Str → ℕ} {c c' : AppendCall} (h : ContestedStep st c st' c')
    (hlog : st.LogOk) (hc : c.Charged base st) : c'.Charged base st' := by
  obtain ⟨hstep, honly⟩ := h
  cases hstep with
  | mask callback h =>
    have hstream := (AppendArgs.prepare_eq_ok h).1
    rw [AppendCall.Charged, hstream]
    exact hc
  | exhausted h =>
    have : base _ + _ ≤ _ := hc
    exact le_trans (by omega) this
  | @readVersion t k hk =>
    have hnext := (hlog t.streamId).nextVersion
    have : base t.streamId + k ≤ (st.stream t.streamId).length := hc
    rw [AppendCall.Charged]
    omega
  | readPrev | stamp => exact hc
  | @integrityError t k v p now h =>
    have hlost := hlog.le_of_refused h
    have hc : (base t.streamId : ℤ) + k + 1 ≤ v := hc
    rw [AppendCall.Charged]
    omega
  | @operationalError t k v p now =>
    have hlost := hlog.le_of_refused honly
    have hc : (base t.streamId : ℤ) + k + 1 ≤ v := hc
    rw [AppendCall.Charged]
    omega
  | fail e hended =>
    cases e with
    | conflict s m =>
      cases c with
      | ready t k =>
        obtain ⟨hk, rfl, rfl⟩ := honly
        have : base t.streamId + k ≤ (st.stream t.streamId).length := hc
        rw [AppendCall.Charged]
        omega
      | _ => exact honly.elim
    | _ => trivial
  | _ => trivial

/-! ## Runs -/

/-- The runs of the calls. -/
abbrev Races : Appends ι → Appends ι → Prop := Steps ContestedStep

theorem ContestedStep.commits {c c' : AppendCall} (h : ContestedStep st c st' c') :
    st.commits <+: st'.commits := by
  rcases h.1.effect with rfl | ⟨t, k, v, p, now, -, hins⟩
  · exact List.prefix_refl _
  · rw [(Store.insertCommit_eq_some hins).2]
    exact List.prefix_append _ _

theorem Races.commits {c d : Appends ι} (h : Races c d) : c.shared.commits <+: d.shared.commits :=
  Steps.rely (R := fun st st' : Store ↦ st.commits <+: st'.commits) (fun _ ↦ List.prefix_refl _)
    (fun _ _ _ h₁ h₂ ↦ h₁.trans h₂) h fun _ _ _ _ _ hstep ↦ hstep.commits

/-- **The premises of the rely–guarantee rule.** -/
theorem races_relyGuarantee :
    RelyGuarantee (ι := ι) ContestedStep (fun _ ↦ True)
      (fun st st' : Store ↦ st.commits <+: st'.commits) Store.LogOk fun st c ↦ c.Ok st where
  step := by
    intro c i st' t' _ _ hlog hc hstep
    obtain ⟨hlog', hok, hcommits⟩ := hstep.1.ok hlog hc
    exact ⟨hcommits, hlog', hok⟩
  stable := fun _ _ _ hprefix hc ↦ hc.mono hprefix

variable {args : ι → AppendArgs} {database : Str}

theorem Races.ok {d : Appends ι} (h : Races (Appends.init database args) d) :
    d.shared.LogOk ∧ ∀ i, (d.locals i).Ok d.shared :=
  races_relyGuarantee.steps h (fun _ _ ↦ trivial) (fun _ ↦ streamOk_nil) fun _ ↦ trivial

theorem Races.of {d : Appends ι} (h : Races (Appends.init database args) d) (i : ι) :
    (d.locals i).Of (args i) :=
  Steps.follow (M := fun _ c ↦ c.Of (args i)) i h (fun _ _ _ _ hc hstep ↦ hstep.of hc)
    (fun _ _ _ _ _ hc _ ↦ hc) rfl

/-- The account of one call is kept while it is made, whatever the others do. -/
theorem Races.charged {c d : Appends ι} (hc : Races (Appends.init database args) c)
    (h : Races c d) {i : ι} (hi : c.locals i = .called (args i)) :
    (d.locals i).Charged (fun s ↦ (c.shared.stream s).length) d.shared := by
  refine Steps.follow (M := fun st call ↦ call.Charged (fun s ↦ (c.shared.stream s).length) st) i h
    (fun e st' t' he hcharged hstep ↦ ?_) (fun e j st' t' _ hcharged hstep ↦ ?_) ?_
  · exact hstep.charged (Races.ok (hc.trans he)).1 hcharged
  · exact hcharged.mono hstep.commits
  · rw [hi]
    exact le_refl (c.shared.stream (args i).streamId).length

/-! ### Counting commits -/

/-- The commits to a stream by other calls than `i`. -/
def commitsOfOthers (s : Str) (i : ι) (schedule : List (ι × AppendCall)) : ℕ :=
  schedule.countP fun e ↦ e.1 ≠ i ∧ e.2.commitsTo s

theorem ContestedStep.stream_length {c c' : AppendCall} (h : ContestedStep st c st' c') (s : Str) :
    (st'.stream s).length = (st.stream s).length + if c'.commitsTo s then 1 else 0 := by
  cases h.1 with
  | @commit _ t k v p now hins =>
    rw [(Store.insertCommit_eq_some hins).2, Store.stream_concat, List.length_append]
    by_cases hs : t.streamId = s <;>
      simp [AppendCall.commitsTo, AppendTask.commit, StorageCommit.column, hs]
  | _ => rfl

theorem ContestedStep.mayHaveWritten {c c' : AppendCall} (h : ContestedStep st c st' c')
    (hc : c.mayHaveWritten) : c'.mayHaveWritten := by
  obtain ⟨hstep, honly⟩ := h
  cases hstep with
  | finish => rfl
  | fail e hended =>
    cases c with
    | committed row =>
      cases e with
      | conflict s m => exact honly.elim
      | _ => rfl
    | _ => cases e <;> simp_all [AppendCall.mayHaveWritten, AppendCall.ended]
  | _ => simp [AppendCall.mayHaveWritten, AppendCall.ended] at hc

theorem AppendCall.mayHaveWritten_of_commitsTo {c : AppendCall} {s : Str} (h : c.commitsTo s) :
    c.mayHaveWritten := by
  cases c <;> simp_all [AppendCall.commitsTo, AppendCall.mayHaveWritten]

/-- A call that commits had not written before. -/
theorem AppendStep.not_mayHaveWritten {c c' : AppendCall} (h : AppendStep st c st' c') {s : Str}
    (hc : c'.commitsTo s) : c.mayHaveWritten = false := by
  cases h with
  | commit hins => rfl
  | _ => cases hc

/-- As long as a call cannot have written its row, all commits were made by others. -/
theorem Schedule.stream_length {c d : Appends ι} {l : List (ι × AppendCall)}
    (h : Schedule ContestedStep c l d) {i : ι} (hi : (d.locals i).mayHaveWritten = false)
    (s : Str) :
    (d.shared.stream s).length = (c.shared.stream s).length + commitsOfOthers s i l := by
  induction h with
  | nil => rfl
  | @snoc l d j st' t' _ ht ih =>
    have hlength := ht.stream_length s
    rw [Config.set_shared, hlength, commitsOfOthers, List.countP_append, ← commitsOfOthers]
    by_cases hji : i = j
    · subst hji
      rw [Config.set_locals_self] at hi
      have hd : (d.locals i).mayHaveWritten = false :=
        Bool.eq_false_iff.mpr fun hd ↦ Bool.eq_false_iff.mp hi (ht.mayHaveWritten hd)
      have hno : t'.commitsTo s = false := Bool.eq_false_iff.mpr fun hcommits ↦
        Bool.eq_false_iff.mp hi (AppendCall.mayHaveWritten_of_commitsTo hcommits)
      rw [ih hd]
      simp [hno]
    · rw [Config.set_locals_ne d st' t' hji] at hi
      have hothers : (j ≠ i ∧ t'.commitsTo s) ↔ t'.commitsTo s := and_iff_right (Ne.symm hji)
      rw [ih hi, Nat.add_assoc]
      simp [hothers]

/-- Every row of a stream was written by one of the calls on it. -/
theorem Races.stream_length_le {d : Appends ι} (h : Races (Appends.init database args) d) {s : Str}
    {calls : Finset ι} (hcalls : ∀ i, (args i).streamId = s → i ∈ calls) :
    (d.shared.stream s).length ≤ (calls.filter fun i ↦ (d.locals i).mayHaveWritten).card := by
  induction h with
  | refl => exact Nat.zero_le _
  | @tail d e hd hde ih =>
    obtain ⟨j, st', t', ht, rfl⟩ := hde
    have hof : t'.Of (args j) := ht.of (Races.of hd j)
    have hold : calls.filter (fun i ↦ (d.locals i).mayHaveWritten) ⊆
        calls.filter fun i ↦ ((d.set j st' t').locals i).mayHaveWritten := by
      refine Finset.monotone_filter_right _ fun i _ hi ↦ ?_
      by_cases hij : i = j
      · subst hij
        rw [Config.set_locals_self]
        exact ht.mayHaveWritten hi
      · rwa [Config.set_locals_ne d st' t' hij]
    rw [Config.set_shared, ht.stream_length s]
    split_ifs with hcommits
    · -- the call that commits is one that had not written yet
      have hj : j ∈ calls := by
        cases t' with
        | committed row => exact hcalls j (hof.streamId ▸ of_decide_eq_true hcommits)
        | _ => simp [AppendCall.commitsTo] at hcommits
      have hnew : j ∉ calls.filter fun i ↦ (d.locals i).mayHaveWritten := fun hmem ↦
        Bool.eq_false_iff.mp (ht.1.not_mayHaveWritten hcommits) (Finset.mem_filter.mp hmem).2
      have hafter : j ∈ calls.filter fun i ↦ ((d.set j st' t').locals i).mayHaveWritten := by
        rw [Finset.mem_filter, Config.set_locals_self]
        exact ⟨hj, AppendCall.mayHaveWritten_of_commitsTo hcommits⟩
      have hcard := Finset.card_le_card (Finset.insert_subset hafter hold)
      rw [Finset.card_insert_of_notMem hnew] at hcard
      omega
    · exact ih.trans (Finset.card_le_card hold)

/-- A call has written the row that it writes, and no other, unless it raises an exception after
its commit. -/
theorem AppendStep.row?_or {c c' : AppendCall} (h : AppendStep st c st' c') :
    (st'.commits = st.commits ∧
      (c'.row? = c.row? ∨ ∃ row e, c = .committed row ∧ c' = .raised e)) ∨
      ∃ row, c.row? = none ∧ c' = .committed row ∧ st'.commits = st.commits ++ [row] := by
  cases h with
  | commit hins =>
    refine Or.inr ⟨_, rfl, rfl, ?_⟩
    rw [(Store.insertCommit_eq_some hins).2]
  | fail e hended =>
    refine Or.inl ⟨rfl, ?_⟩
    cases c with
    | committed row => exact Or.inr ⟨row, e, rfl, rfl⟩
    | returned row => cases hended
    | _ => exact Or.inl rfl
  | _ => exact Or.inl ⟨rfl, Or.inl rfl⟩

/-- A row that a call has written is new when it is written. -/
theorem ContestedStep.row? {c c' : AppendCall} (h : ContestedStep st c st' c') {row : StorageCommit}
    (hrow : c'.row? = some row) : c.row? = some row ∨ row ∉ st.commits := by
  cases h.1 with
  | @commit _ t k v p now hins =>
    cases hrow
    exact Or.inr fun hmem ↦ (Store.insertCommit_eq_some hins).1 _ hmem rfl rfl
  | finish => exact Or.inl hrow
  | _ => cases hrow

theorem AppendCall.Ok.row_mem {c : AppendCall} (h : c.Ok st) {row : StorageCommit}
    (hrow : c.row? = some row) : row ∈ st.commits := by
  cases c with
  | committed r => cases hrow; exact h
  | returned r => cases hrow; exact h
  | _ => cases hrow

theorem AppendCall.Of.writes {a : AppendArgs} {c : AppendCall} (h : c.Of a) {row : StorageCommit}
    (hrow : c.row? = some row) : a.Writes row := by
  cases c with
  | committed r => cases hrow; exact h
  | returned r => cases hrow; exact h
  | _ => cases hrow

/-- **No two calls have written the same row.** -/
theorem Races.rows_ne {d : Appends ι} (h : Races (Appends.init database args) d) {i j : ι}
    (hij : i ≠ j) {row : StorageCommit} (hi : (d.locals i).row? = some row) :
    (d.locals j).row? ≠ some row := by
  induction h generalizing i j with
  | refl => cases hi
  | @tail d e hd hde ih =>
    obtain ⟨k, st', t', ht, rfl⟩ := hde
    have hlocals := (Races.ok hd).2
    intro hj
    by_cases hik : i = k
    · subst hik
      rw [Config.set_locals_ne d st' t' hij.symm] at hj
      rw [Config.set_locals_self] at hi
      rcases ht.row? hi with hi | hnew
      · exact ih hij hi hj
      · exact hnew ((hlocals j).row_mem hj)
    · rw [Config.set_locals_ne d st' t' hik] at hi
      by_cases hjk : j = k
      · subst hjk
        rw [Config.set_locals_self] at hj
        rcases ht.row? hj with hj | hnew
        · exact ih hij hi hj
        · exact hnew ((hlocals i).row_mem hi)
      · rw [Config.set_locals_ne d st' t' hjk] at hj
        exact ih hij hi hj

/-- Every call on a stream may be tried as often as there are calls: then no call gives up. -/
theorem Races.not_gaveUp {d : Appends ι} (h : Races (Appends.init database args) d) {s : Str}
    {calls : Finset ι} (hcalls : ∀ i, i ∈ calls ↔ (args i).streamId = s) {i : ι} (hi : i ∈ calls)
    (hmax : calls.card ≤ (args i).maxRetries) : (d.locals i).gaveUp = false := by
  by_contra hgave
  have hcharged := Races.charged (d := d) .refl h (i := i) rfl
  have hof := Races.of h i
  have hbound := Races.stream_length_le h fun i hi ↦ (hcalls i).mpr hi
  have hout : i ∉ calls.filter fun i ↦ (d.locals i).mayHaveWritten := by
    intro hmem
    have hwritten := (Finset.mem_filter.mp hmem).2
    cases hlocal : d.locals i <;>
      simp_all [AppendCall.mayHaveWritten, AppendCall.ended, AppendCall.gaveUp]
  have hless := Finset.card_lt_card
    ((Finset.filter_subset _ _).ssubset_of_mem_notMem hi hout)
  cases hlocal : d.locals i with
  | raised e =>
    cases e with
    | conflict s' m =>
      rw [hlocal] at hcharged hof
      obtain ⟨rfl, rfl⟩ := hof
      rw [(hcalls i).mp hi] at hcharged
      have hcharged : 0 + (args i).maxRetries ≤ (d.shared.stream s).length := hcharged
      omega
    | _ => simp [hlocal, AppendCall.gaveUp] at hgave
  | _ => simp [hlocal, AppendCall.gaveUp] at hgave

/-- **Giving up takes as many commits of others as there were attempts.**  Let a call be made in the
state `c` and have given up, after `m` attempts, in the state `d`.  Then the others have committed
at least `m` rows to its stream in between.  Hence, where no more calls are made on a stream than
each of them may try, none gives up; and when all of them have ended, none with an exception of
another kind, the rows of the stream are those of the calls, one for each. -/
theorem retry_bound {c d : Appends ι} {before after : List (ι × AppendCall)}
    (hbefore : Schedule ContestedStep (Appends.init database args) before c)
    (hafter : Schedule ContestedStep c after d) :
    (∀ i s m, c.locals i = .called (args i) → d.locals i = .raised (.conflict s m) →
      s = (args i).streamId ∧ m = (args i).maxRetries ∧ m ≤ commitsOfOthers s i after) ∧
    ∀ (s : Str) (calls : Finset ι), (∀ i, i ∈ calls ↔ (args i).streamId = s) →
      (∀ i ∈ calls, calls.card ≤ (args i).maxRetries) →
      (∀ i ∈ calls, (d.locals i).gaveUp = false) ∧
      ((∀ i ∈ calls, (∃ row, d.locals i = .returned row) ∨ (d.locals i).gaveUp) →
        (∀ i ∈ calls, ∃ row, d.locals i = .returned row ∧ (args i).Writes row) ∧
          (d.shared.stream s).Perm (calls.toList.filterMap fun i ↦ (d.locals i).row?)) := by
  have hd := hbefore.steps.trans hafter.steps
  constructor
  · intro i s m hi hraised
    have hof := Races.of hd i
    have hcharged := Races.charged hbefore.steps hafter.steps hi
    rw [hraised] at hof hcharged
    obtain ⟨rfl, rfl⟩ := hof
    have hlength := Schedule.stream_length hafter (i := i) (by rw [hraised]; rfl) (args i).streamId
    have hcharged : (c.shared.stream (args i).streamId).length + (args i).maxRetries ≤
      (d.shared.stream (args i).streamId).length := hcharged
    exact ⟨rfl, rfl, by omega⟩
  · intro s calls hcalls hmax
    have hnever : ∀ i ∈ calls, (d.locals i).gaveUp = false := fun i hi ↦
      Races.not_gaveUp hd hcalls hi (hmax i hi)
    refine ⟨hnever, fun hended ↦ ?_⟩
    have hreturned : ∀ i ∈ calls, ∃ row, d.locals i = .returned row := fun i hi ↦
      (hended i hi).resolve_right (by simp [hnever i hi])
    constructor
    · intro i hi
      obtain ⟨row, hrow⟩ := hreturned i hi
      have hof := Races.of hd i
      rw [hrow] at hof
      exact ⟨row, hrow, hof⟩
    · have hnodup : (calls.toList.filterMap fun i ↦ (d.locals i).row?).Nodup := by
        refine List.Nodup.filterMap (fun i j row hi hj ↦ ?_) calls.nodup_toList
        by_contra hne
        exact Races.rows_ne hd hne hi hj
      have hsub : calls.toList.filterMap (fun i ↦ (d.locals i).row?) ⊆ d.shared.stream s := by
        intro row hrow
        obtain ⟨i, hi, hwritten⟩ := List.mem_filterMap.mp hrow
        have hi := Finset.mem_toList.mp hi
        have hmem := ((Races.ok hd).2 i).row_mem hwritten
        have hof := (Races.of hd i).writes hwritten
        exact List.mem_filter.mpr
          ⟨hmem, decide_eq_true (hof.streamId.trans ((hcalls i).mp hi))⟩
      have hlength : (d.shared.stream s).length ≤
          (calls.toList.filterMap fun i ↦ (d.locals i).row?).length := by
        have hall : (calls.toList.filterMap fun i ↦ (d.locals i).row?).length =
            calls.toList.length := by
          refine List.filterMap_length_eq_length.mpr fun i hi ↦ ?_
          obtain ⟨row, hrow⟩ := hreturned i (Finset.mem_toList.mp hi)
          rw [hrow]
          rfl
        rw [hall, Finset.length_toList]
        exact (Races.stream_length_le hd fun i hi ↦ (hcalls i).mpr hi).trans
          (Finset.card_filter_le _ _)
      exact ((hnodup.subperm hsub).perm_of_length_le hlength).symm

/-! ### Two calls that try once -/

/-- An append that is tried once. -/
def onceArgs : AppendArgs :=
  { streamId := "spans".toList, recordType := "span".toList, payload := [], tenantId := none,
    maxRetries := 1 }

/-- The same after masking. -/
def onceTask : AppendTask := ⟨"spans".toList, "span".toList, none, 1, []⟩

/-- The store after one of them. -/
def onceStore : Store :=
  { Store.create "store.db".toList with commits := [(onceTask.commit 1 none noon).column] }

/-- Both read that version 1 is next, one gets it, and the other has lost to that one. -/
theorem retry_bound_once : ∃ (d : Appends Bool) (after : List (Bool × AppendCall)),
    Schedule ContestedStep (Appends.init "store.db".toList fun _ ↦ onceArgs) after d ∧
      d.locals true = .raised (.conflict "spans".toList 1) ∧
      1 ≤ commitsOfOthers "spans".toList true after ∧ d.shared = onceStore := by
  let st := Store.create "store.db".toList
  have hmask : ContestedStep st (.called onceArgs) st (.ready onceTask 0) :=
    ⟨.mask (fun p ↦ .ok (.dict p)) rfl, trivial⟩
  have hversion : ContestedStep st (.ready onceTask 0) st (.versioned onceTask 0 1) :=
    ⟨.readVersion (by decide), trivial⟩
  have hprev : ContestedStep st (.versioned onceTask 0 1) st (.linked onceTask 0 1 none) :=
    ⟨.readPrev rfl, trivial⟩
  have hstamp : ContestedStep st (.linked onceTask 0 1 none) st (.stamped onceTask 0 1 none noon) :=
    ⟨.stamp noon, trivial⟩
  have hcommit : ContestedStep st (.stamped onceTask 0 1 none noon) onceStore
      (.committed (onceTask.commit 1 none noon).column) := ⟨.commit rfl, trivial⟩
  have hrefused : ContestedStep onceStore (.stamped onceTask 0 1 none noon) onceStore
      (.ready onceTask 1) := ⟨.integrityError rfl, rfl⟩
  have hgiveUp : ContestedStep onceStore (.ready onceTask 1) onceStore
      (.raised (.conflict "spans".toList 1)) :=
    ⟨.exhausted (show 1 ≤ 1 by decide), show 1 ≤ 1 by decide, rfl, rfl⟩
  have h0 : Schedule ContestedStep (Appends.init "store.db".toList fun _ : Bool ↦ onceArgs) [] _ :=
    .nil
  have h1 := h0.snoc (i := false) hmask
  have h2 := h1.snoc (i := true) hmask
  have h3 := h2.snoc (i := false) hversion
  have h4 := h3.snoc (i := true) hversion
  have h5 := h4.snoc (i := false) hprev
  have h6 := h5.snoc (i := true) hprev
  have h7 := h6.snoc (i := false) hstamp
  have h8 := h7.snoc (i := true) hstamp
  have h9 := h8.snoc (i := false) hcommit
  have h10 := h9.snoc (i := true) hrefused
  have h11 := h10.snoc (i := true) hgiveUp
  have hlost := (retry_bound .nil h11).1 true "spans".toList 1 rfl rfl
  exact ⟨_, _, h11, rfl, hlost.2.2, rfl⟩

end WiseTraceLoom
