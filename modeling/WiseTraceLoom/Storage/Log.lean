import WiseTraceLoom.Lib.HashChain
import WiseTraceLoom.Lib.NumberedLog
import WiseTraceLoom.Storage.Append

/-!
# The commit log under appends

`Store.LogOk` is what the log looks like in between steps: in every stream the rows carry the
versions `1, …, n` in the order in which they were inserted, each points at the hash of the one
before, and each carries the hash of its own fields.

What an append relies on is `AppendCall.Ok`: the version it has read is one past some prefix of the
stream, and the hash it has read is the hash at the end of that prefix.  Other writers can only make
the stream longer, so this stays true (`AppendCall.Ok.mono`); and if the unique constraint lets the
row in, the prefix was still the whole stream (`Store.LogOk.insertCommit`).  This is the optimistic
part of the concurrency control: a stale version is always refused, and a version that is not
stale comes with the right predecessor.
-/

set_option autoImplicit false

namespace WiseTraceLoom

open NumberedLog HashChain

/-! ## One stream -/

/-- A row that agrees with its own hash, as it is read back from its table. -/
structure StorageCommit.Sealed (row : StorageCommit) : Prop where
  /-- The hash is the hash of the other fields. -/
  hash : row.recomputed = row.entryHash
  /-- The payload is a JSON object. -/
  json : ∃ payload : Payload, row.payload = Json.dumps (.obj payload)

/-- The rows of a stream as appends leave them. -/
structure StreamOk (rows : List StorageCommit) : Prop where
  /-- The versions are `1, …, n`. -/
  numbered : Numbered StorageCommit.version rows
  /-- Every row points at the hash of the one before it. -/
  linked : Linked StorageCommit.prevHash StorageCommit.entryHash none rows
  /-- Every row agrees with its own hash. -/
  sealed : ∀ row ∈ rows, row.Sealed

theorem streamOk_nil : StreamOk [] := ⟨numbered_nil, linked_nil none, by simp⟩

theorem StreamOk.of_prefix {l m : List StorageCommit} (h : StreamOk m) (hlm : l <+: m) :
    StreamOk l :=
  ⟨h.numbered.of_prefix hlm, h.linked.of_prefix hlm, fun row hrow ↦ h.sealed row (hlm.subset hrow)⟩

theorem StreamOk.concat {rows : List StorageCommit} {row : StorageCommit} (h : StreamOk rows)
    (hversion : row.version = rows.length + 1)
    (hprev : row.prevHash = tip StorageCommit.entryHash rows) (hsealed : row.Sealed) :
    StreamOk (rows ++ [row]) where
  numbered := numbered_concat.mpr ⟨h.numbered, hversion⟩
  linked := linked_concat.mpr ⟨h.linked, hprev⟩
  sealed := by
    intro r hr
    rcases List.mem_append.mp hr with hr | hr
    · exact h.sealed r hr
    · rw [List.mem_singleton.mp hr]
      exact hsealed

/-! ## The statements of an append -/

/-- Every stream is as appends leave it. -/
def Store.LogOk (st : Store) : Prop := ∀ s, StreamOk (st.stream s)

variable {st st' : Store}

theorem Store.LogOk.of_commits_eq (h : st.LogOk) (hst : st'.commits = st.commits) :
    st'.LogOk := by
  intro s
  have := h s
  rwa [Store.stream, ← hst] at this

/-- Sorting by version, as every reader does, finds the rows already sorted. -/
theorem StreamOk.selectStream {s : Str} (h : StreamOk (st.stream s)) :
    st.selectStream s = st.stream s := h.numbered.insertionSort_eq

theorem StreamOk.nextVersion {s : Str} (h : StreamOk (st.stream s)) :
    nextVersion st s = (st.stream s).length + 1 := by
  rw [WiseTraceLoom.nextVersion, h.numbered.max?_getD]

/-- The version `v` comes right after some prefix of the stream. -/
def Store.Follows (st : Store) (s : Str) (v : ℤ) : Prop := 1 ≤ v ∧ v ≤ (st.stream s).length + 1

/-- The hash at the end of the prefix before version `v`. -/
def Store.tipBefore (st : Store) (s : Str) (v : ℤ) : Option Str :=
  tip StorageCommit.entryHash ((st.stream s).take (v - 1).toNat)

/-- **The lookup of the predecessor finds its row.** -/
theorem StreamOk.prevEntryHash {s : Str} {v : ℤ} (h : StreamOk (st.stream s))
    (hv : st.Follows s v) : prevEntryHash st s v = .ok (st.tipBefore s v) := by
  rw [WiseTraceLoom.prevEntryHash]
  split_ifs with hone
  · rw [Store.tipBefore, hone]
    rfl
  · obtain ⟨hlow, hhigh⟩ := hv
    obtain ⟨row, -, hversion, hfilter⟩ :=
      h.numbered.filter_eq (show 1 ≤ v - 1 by omega) (show v - 1 ≤ (st.stream s).length by omega)
    have hne : (st.stream s).take (v - 1).toNat ≠ [] := by
      have : 0 < ((st.stream s).take (v - 1).toNat).length := by
        rw [List.length_take]
        omega
      exact List.length_pos_iff.mp this
    -- the last row of the prefix carries the version the filter looks for
    have hlast : ((st.stream s).take (v - 1).toNat).getLast hne = row := by
      have hmem := List.getLast_mem hne
      have hnum := (h.numbered.of_prefix (List.take_prefix _ _)).num_getLast hne
      have hin : ((st.stream s).take (v - 1).toNat).getLast hne ∈
          (st.stream s).filter fun r ↦ decide (r.version = v - 1) := by
        refine List.mem_filter.mpr ⟨List.mem_of_mem_take hmem, ?_⟩
        rw [hnum, List.length_take]
        simp only [decide_eq_true_eq]
        omega
      rw [hfilter] at hin
      exact List.mem_singleton.mp hin
    rw [hfilter, Store.tipBefore, tip, List.getLast?_eq_some_getLast hne, hlast]
    rfl

theorem AppendTask.sealed_commit (t : AppendTask) (v : ℤ) (p : Option Str) (now : Timestamp) :
    (t.commit v p now).column.Sealed := ⟨rfl, t.masked, rfl⟩

/-- An append writes to the log and to nothing else. -/
theorem AppendStep.store_eq {c c' : AppendCall} (h : AppendStep st c st' c') :
    st' = { st with commits := st'.commits } := by
  rcases h.effect with rfl | ⟨t, k, v, p, now, -, hins⟩
  · rfl
  · rw [(Store.insertCommit_eq_some hins).2]

theorem Store.insertCommit_eq_none {row : StorageCommit} :
    st.insertCommit row = none ↔
      ∃ r ∈ st.commits, r.streamId = row.streamId ∧ r.version = row.version := by
  rw [insertCommit]
  split_ifs with htaken
  · simpa using htaken
  · simpa using htaken

theorem Store.stream_concat (st : Store) (row : StorageCommit) (s : Str) :
    ({ st with commits := st.commits ++ [row] } : Store).stream s =
      st.stream s ++ if row.streamId = s then [row] else [] := by
  rw [stream, stream, List.filter_append, List.filter_singleton]
  simp

/-- **A version that the unique constraint lets in is the next one.** -/
theorem StreamOk.eq_of_fresh {s : Str} {v : ℤ} (h : StreamOk (st.stream s)) (hv : st.Follows s v)
    (hfresh : ∀ r ∈ st.commits, r.streamId = s → r.version ≠ v) :
    v = (st.stream s).length + 1 := by
  obtain ⟨hlow, hhigh⟩ := hv
  by_contra hne
  obtain ⟨row, hrow, hversion, -⟩ :=
    h.numbered.filter_eq hlow (show v ≤ (st.stream s).length by omega)
  rw [Store.stream, List.mem_filter] at hrow
  exact hfresh row hrow.1 (by simpa using hrow.2) hversion

/-- **The insert keeps the log**, given that the version followed a prefix of the stream and the
hash was the one at the end of that prefix. -/
theorem Store.LogOk.insertCommit {t : AppendTask} {v : ℤ} {p : Option Str} {now : Timestamp}
    (hlog : st.LogOk) (hv : st.Follows t.streamId v) (hp : p = st.tipBefore t.streamId v)
    (h : st.insertCommit (t.commit v p now) = some st') :
    v = (st.stream t.streamId).length + 1 ∧ st'.LogOk := by
  obtain ⟨hfresh, rfl⟩ := insertCommit_eq_some h
  have hnext : v = (st.stream t.streamId).length + 1 := (hlog t.streamId).eq_of_fresh hv hfresh
  refine ⟨hnext, fun s ↦ ?_⟩
  rw [stream_concat]
  split_ifs with hs
  · have hs' : t.streamId = s := hs
    subst hs'
    refine (hlog t.streamId).concat hnext ?_ (t.sealed_commit v p now)
    have hall : (st.stream t.streamId).take (v - 1).toNat = st.stream t.streamId :=
      List.take_of_length_le (by omega)
    rw [Store.tipBefore, hall] at hp
    exact hp
  · rw [List.append_nil]
    exact hlog s

/-! ## What a call relies on -/

/-- What a call that is in the middle of an append knows about the log. -/
def AppendCall.Ok (st : Store) : AppendCall → Prop
  | .versioned t _ v => st.Follows t.streamId v
  | .linked t _ v p => st.Follows t.streamId v ∧ p = st.tipBefore t.streamId v
  | .stamped t _ v p _ => st.Follows t.streamId v ∧ p = st.tipBefore t.streamId v
  | .committed row => row ∈ st.commits
  | .returned row => row ∈ st.commits
  | _ => True

theorem Store.stream_prefix (h : st.commits <+: st'.commits) (s : Str) :
    st.stream s <+: st'.stream s := h.filter _

theorem Store.Follows.mono {s : Str} {v : ℤ} (hv : st.Follows s v)
    (h : st.commits <+: st'.commits) : st'.Follows s v := by
  have := (Store.stream_prefix h s).length_le
  exact ⟨hv.1, by have := hv.2; omega⟩

theorem Store.Follows.tipBefore_eq {s : Str} {v : ℤ} (hv : st.Follows s v)
    (h : st.commits <+: st'.commits) : st'.tipBefore s v = st.tipBefore s v := by
  have hle : (v - 1).toNat ≤ (st.stream s).length := by
    have := hv.2
    omega
  obtain ⟨rows, hrows⟩ := Store.stream_prefix h s
  rw [Store.tipBefore, Store.tipBefore, ← hrows, List.take_append_of_le_length hle]

/-- **Other writers cannot invalidate what a call knows.** -/
theorem AppendCall.Ok.mono {c : AppendCall} (hc : c.Ok st) (h : st.commits <+: st'.commits) :
    c.Ok st' := by
  cases c with
  | versioned t k v => exact Store.Follows.mono hc h
  | linked t k v p => exact ⟨hc.1.mono h, hc.2.trans (hc.1.tipBefore_eq h).symm⟩
  | stamped t k v p now => exact ⟨hc.1.mono h, hc.2.trans (hc.1.tipBefore_eq h).symm⟩
  | committed row => exact h.subset hc
  | returned row => exact h.subset hc
  | _ => trivial

/-- **One step of an append** keeps the log and what the call knows about it. -/
theorem AppendStep.ok {c c' : AppendCall} (h : AppendStep st c st' c') (hlog : st.LogOk)
    (hc : c.Ok st) : st'.LogOk ∧ c'.Ok st' ∧ st.commits <+: st'.commits := by
  cases h with
  | @readVersion t k hk =>
    have hnext := (hlog t.streamId).nextVersion
    exact ⟨hlog, ⟨by omega, by omega⟩, List.prefix_refl _⟩
  | readPrev hp =>
    refine ⟨hlog, ⟨hc, ?_⟩, List.prefix_refl _⟩
    rw [(hlog _).prevEntryHash hc] at hp
    exact (Except.ok.inj hp).symm
  | stamp now => exact ⟨hlog, hc, List.prefix_refl _⟩
  | commit hins =>
    refine ⟨(hlog.insertCommit hc.1 hc.2 hins).2, ?_, ?_⟩
    all_goals obtain ⟨-, rfl⟩ := Store.insertCommit_eq_some hins
    · exact List.mem_append_right _ (List.mem_singleton_self _)
    · exact List.prefix_append _ _
  | finish => exact ⟨hlog, hc, List.prefix_refl _⟩
  | _ => exact ⟨hlog, trivial, List.prefix_refl _⟩

/-! ## A call on its own -/

/-- The version after the last one is free. -/
theorem Store.insertCommit_next {t : AppendTask} (h : StreamOk (st.stream t.streamId))
    (p : Option Str) (now : Timestamp) :
    st.insertCommit (t.commit (nextVersion st t.streamId) p now) =
      some { st with commits :=
        st.commits ++ [(t.commit (nextVersion st t.streamId) p now).column] } := by
  cases hins : st.insertCommit (t.commit (nextVersion st t.streamId) p now) with
  | some st' => rw [(Store.insertCommit_eq_some hins).2]
  | none =>
    obtain ⟨r, hr, hs, hv⟩ := Store.insertCommit_eq_none.mp hins
    have hbounds := h.numbered.bounds (List.mem_filter.mpr ⟨hr, decide_eq_true hs⟩)
    rw [show r.version = nextVersion st t.streamId from hv, h.nextVersion] at hbounds
    omega

/-- The attempt at which the row is written. -/
theorem appendLoop_of_free {env : AppendEnv} {t : AppendTask} {n k : ℕ} {p : Option Str}
    (hlocked : (env.attempt k).locked = false)
    (hp : prevEntryHash st t.streamId (nextVersion st t.streamId) = .ok p)
    (hins : st.insertCommit (t.commit (nextVersion st t.streamId) p (env.attempt k).now) =
      some st') :
    (appendLoop env t (n + 1) k st).2 = st' := by
  rw [appendLoop, hp]
  simp only [hlocked, Bool.false_eq_true, if_false, hins]
  cases env.after <;> rfl

/-- **An append on its own writes its row**, unless the database is locked at every attempt. -/
theorem appendLoop_writes (env : AppendEnv) (t : AppendTask) (hlog : st.LogOk) (n k : ℕ)
    (hfree : ∃ j, k ≤ j ∧ j < k + n ∧ (env.attempt j).locked = false) :
    ∃ row : StorageCommit,
      (appendLoop env t n k st).2 = { st with commits := st.commits ++ [row] } ∧
      row.streamId = t.streamId ∧ row.recordType = t.recordType ∧ row.payload = t.payloadJson ∧
      (appendLoop env t n k st).2.LogOk := by
  induction n generalizing k with
  | zero =>
    obtain ⟨j, hlow, hhigh, -⟩ := hfree
    omega
  | succ n ih =>
    have hstream := hlog t.streamId
    have hnext := hstream.nextVersion
    have hfollows : st.Follows t.streamId (nextVersion st t.streamId) := ⟨by omega, by omega⟩
    have hprev := hstream.prevEntryHash hfollows
    cases hlocked : (env.attempt k).locked with
    | true =>
      rw [appendLoop, hprev]
      simp only [hlocked, if_true]
      refine ih (k + 1) ?_
      obtain ⟨j, hlow, hhigh, hj⟩ := hfree
      have hne : j ≠ k := fun hjk ↦ by simp [hjk, hlocked] at hj
      exact ⟨j, by omega, by omega, hj⟩
    | false =>
      have hins := Store.insertCommit_next hstream
        (st.tipBefore t.streamId (nextVersion st t.streamId)) (env.attempt k).now
      rw [appendLoop_of_free hlocked hprev hins]
      exact ⟨_, rfl, rfl, rfl, rfl, (hlog.insertCommit hfollows rfl hins).2⟩

end WiseTraceLoom
