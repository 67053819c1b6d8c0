import WiseTraceLoom.System

/-!
# The log and its anchors over whole runs

Two invariants of a store that any number of threads work on:

* the log is as appends leave it (`Store.LogOk`), however the statements of different appends are
  interleaved, and no append ever fails to find the row before its own;
* every anchor record is the Merkle root of a prefix of its stream, and goes on verifying after any
  number of later commits.

Both follow from one use of the rely–guarantee rule (`audit_relyGuarantee`).  The step lemmas are in
the files of the calls; what is left to say here is that calls of other kinds do not touch the log.
-/

set_option autoImplicit false

namespace WiseTraceLoom

open Interleaving NumberedLog HashChain

variable {ι : Type} [DecidableEq ι] {F : Fernet} {st st' : Store}

/-! ## The invariant -/

/-- Every log is as appends leave it and every anchor is the root of a prefix of its stream. -/
structure Store.AuditOk (st : Store) : Prop where
  /-- The log. -/
  log : st.LogOk
  /-- The anchors. -/
  anchors : ∀ r ∈ st.anchors, st.AnchorOk r.streamId r.version r.merkleRoot

/-- The append a thread is in the middle of, on its own behalf, for a sink or for a
confirmation. -/
def Call.appending : Call → Option AppendCall
  | .append c => some c
  | .anchor (.sinking _ _ _ inner) => inner
  | .confirm (.appending _ c) => some c
  | _ => none

/-- What a thread knows about the log. -/
def Call.AuditOk (st : Store) : Call → Prop
  | .append c => c.Ok st
  | .anchor c => c.Ok st
  | .confirm c => c.Ok st
  | _ => True

theorem Call.AuditOk.appending {c : Call} (h : c.AuditOk st) : ∀ a ∈ c.appending, a.Ok st := by
  cases c with
  | append c =>
    rintro a ⟨⟩
    exact h
  | anchor c =>
    cases c with
    | sinking s v root inner => exact h.2
    | _ => simp [Call.appending]
  | confirm c =>
    cases c with
    | appending r c =>
      rintro a ⟨⟩
      exact h
    | _ => simp [Call.appending]
  | _ => simp [Call.appending]

theorem Call.AuditOk.mono {c : Call} (hc : c.AuditOk st) (h : st.commits <+: st'.commits) :
    c.AuditOk st' := by
  cases c with
  | append c => exact AppendCall.Ok.mono hc h
  | anchor c => exact AnchorCall.Ok.mono hc h
  | confirm c => exact ConfirmCall.Ok.mono hc h
  | _ => trivial

/-- The anchors do not change and the log stays in order: so do the anchored roots. -/
theorem Store.AuditOk.frame (h : st.AuditOk) (hlog : st'.LogOk)
    (hcommits : st.commits <+: st'.commits) (hanchors : st'.anchors = st.anchors) :
    st'.AuditOk :=
  ⟨hlog, fun r hr ↦ (h.anchors r (hanchors ▸ hr)).mono hcommits⟩

theorem Store.AuditOk.of_eq (h : st.AuditOk) (hcommits : st'.commits = st.commits)
    (hanchors : st'.anchors = st.anchors) : st'.AuditOk :=
  h.frame (h.log.of_commits_eq hcommits) (hcommits ▸ List.prefix_refl _) hanchors

/-! ## Steps -/

/-- **Only appends write commits**: a step is one of the append a thread is in the middle of, or it
leaves the log alone and the thread is at most at the start of an append. -/
theorem SystemStep.append_or {c c' : Call} (h : SystemStep F st c st' c') :
    (∃ a a', c.appending = some a ∧ c'.appending = some a' ∧ AppendStep st a st' a') ∨
      st'.commits = st.commits ∧ ∀ a ∈ c'.appending, ∃ args, a = .called args := by
  cases h with
  | start h => cases h <;> simp [Call.appending]
  | stop => simp [Call.appending]
  | append h => exact Or.inl ⟨_, _, rfl, rfl, h⟩
  | compact h => rw [h.store_eq]; simp [Call.appending]
  | anchor h =>
    cases h with
    | sinkStep h => exact Or.inl ⟨_, _, rfl, rfl, h⟩
    | _ => simp [Call.appending]
  | read h => rw [h.store_eq]; simp [Call.appending]
  | encrypt h => rw [h.store_eq]; simp [Call.appending]
  | request h => rw [h.store_eq]; simp [Call.appending]
  | confirm h =>
    cases h with
    | appendStep h => exact Or.inl ⟨_, _, rfl, rfl, h⟩
    | commit => exact Or.inr ⟨rfl, by simp [Call.appending]⟩
    | _ => simp [Call.appending]
  | config h => rw [h.store_eq]; simp [Call.appending]

/-- A step of an anchor: the record it may write is one it knows to be right. -/
theorem AnchorStep.auditOk {c c' : AnchorCall} (h : AnchorStep st c st' c') (hst : st.AuditOk)
    (hc : c.Ok st) : st'.AuditOk := by
  obtain ⟨hlog, -, hprefix⟩ := h.ok hst.log hc
  cases h with
  | sinkStep h => exact hst.frame hlog hprefix (by rw [h.store_eq])
  | @persist s root ref v now =>
    refine ⟨hlog, fun r hr ↦ ?_⟩
    rcases List.mem_append.mp hr with hr | hr
    · exact (hst.anchors r hr).mono hprefix
    · rw [List.mem_singleton.mp hr]
      exact Store.AnchorOk.mono hc hprefix
  | _ => exact hst

/-- **The premises of the rely–guarantee rule.** -/
theorem audit_relyGuarantee (F : Fernet) :
    RelyGuarantee (ι := ι) (SystemStep F) (fun _ ↦ True) Store.Grows Store.AuditOk
      Call.AuditOk where
  step := by
    intro c i st' t' _ _ hst hc hstep
    refine ⟨hstep.grows, ?_⟩
    generalize c.shared = st at *
    generalize c.locals i = t at *
    cases hstep with
    | start h => exact ⟨hst, by cases h <;> trivial⟩
    | stop => exact ⟨hst, trivial⟩
    | append h =>
      obtain ⟨hlog, hok, hprefix⟩ := h.ok hst.log hc
      exact ⟨hst.frame hlog hprefix (by rw [h.store_eq]), hok⟩
    | compact h => rw [h.store_eq]; exact ⟨hst.of_eq rfl rfl, trivial⟩
    | anchor h => exact ⟨h.auditOk hst hc, (h.ok hst.log hc).2.1⟩
    | read h => rw [h.store_eq]; exact ⟨hst, trivial⟩
    | encrypt h => rw [h.store_eq]; exact ⟨hst.of_eq rfl rfl, trivial⟩
    | request h => rw [h.store_eq]; exact ⟨hst.of_eq rfl rfl, trivial⟩
    | confirm h =>
      obtain ⟨hlog, hok, hprefix⟩ := h.ok hst.log hc
      exact ⟨hst.frame hlog hprefix (by rw [h.store_eq]), hok⟩
    | config h => rw [h.store_eq]; exact ⟨hst.of_eq rfl rfl, trivial⟩
  stable := fun _ _ _ hgrows hc ↦ hc.mono hgrows.commits

/-- One step of one thread. -/
theorem SystemStep.auditOk {c c' : Call} (h : SystemStep F st c st' c') (hst : st.AuditOk)
    (hc : c.AuditOk st) : st'.AuditOk ∧ c'.AuditOk st' := by
  -- as a step of a system with this thread only
  let d : System Unit := ⟨st, fun _ ↦ c⟩
  exact ((audit_relyGuarantee F).step d () st' c' trivial trivial hst hc h).2

theorem Store.auditOk_create (database : Str) : (Store.create database).AuditOk :=
  ⟨fun _ ↦ streamOk_nil, by simp [Store.create]⟩

/-- **The invariant holds in every reachable state.** -/
theorem Reachable.auditOk {c : System ι} (h : Reachable F c) :
    c.shared.AuditOk ∧ ∀ i, (c.locals i).AuditOk c.shared := by
  obtain ⟨database, hrun⟩ := h
  exact (audit_relyGuarantee F).steps hrun (fun _ _ ↦ trivial) (Store.auditOk_create database)
    fun _ ↦ trivial

/-! ## The log -/

/-- The rows of a stream without gap, duplicate or broken link. -/
structure ChainIntact (rows : List StorageCommit) : Prop where
  /-- The versions are `1, …, n`. -/
  versions : rows.map StorageCommit.version =
    (List.range rows.length).map fun k : ℕ ↦ (k : ℤ) + 1
  /-- The first row points at nothing. -/
  head : ∀ row ∈ rows.head?, row.prevHash = none
  /-- Every other row points at the row before it. -/
  links : ∀ (k : ℕ) (_ : k + 1 < rows.length), rows[k + 1].prevHash = some rows[k].entryHash

theorem StreamOk.chainIntact {rows : List StorageCommit} (h : StreamOk rows) :
    ChainIntact rows where
  versions := h.numbered.map_num
  head := by
    cases rows with
    | nil => simp
    | cons row rows =>
      rintro r ⟨⟩
      exact (linked_cons.mp h.linked).1
  links := h.linked.getElem_succ

/-- **The log under concurrent appends.**  In every reachable state and for every stream the stored
versions are `1, …, n` and the rows are linked; no append that has read its version fails to find
the row before it; and `verify_chain` accepts the stream. -/
theorem reachable_chain {c : System ι} (h : Reachable F c) (s : Str) :
    ChainIntact (c.shared.selectStream s) ∧
      (∀ i t k v, (c.locals i).appending = some (.versioned t k v) →
        ∃ p, prevEntryHash c.shared t.streamId v = .ok p) ∧
      verifyChain c.shared s = ⟨true, none, none⟩ := by
  obtain ⟨hst, hlocals⟩ := h.auditOk
  have hs := hst.log s
  refine ⟨hs.selectStream ▸ hs.chainIntact, fun i t k v hi ↦ ?_, hs.verifyChain⟩
  have hv : c.shared.Follows t.streamId v := (hlocals i).appending _ hi
  exact ⟨_, (hst.log t.streamId).prevEntryHash hv⟩

/-! ### Two writers

Both read that version 1 is next; the second to commit is refused, tries again and gets version 2.
-/

/-- An append to the stream `spans`. -/
def spanArgs (payload : Payload) : AppendArgs :=
  { streamId := "spans".toList, recordType := "span".toList, payload := payload, tenantId := none }

/-- The same after its payload has been let through unchanged. -/
def spanTask (masked : Payload) : AppendTask := ⟨"spans".toList, "span".toList, none, 20, masked⟩

/-- The store before the two appends. -/
def raceStart : Store := Store.create "store.db".toList

/-- The row of the first writer. -/
def firstRow : StorageCommit := (spanTask []).commit 1 none noon

/-- The row of the second writer. -/
def secondRow : StorageCommit :=
  (spanTask [("a".toList, .int 1)]).commit 2 (some firstRow.entryHash) noon

/-- The store after the first commit. -/
def raceMiddle : Store := { raceStart with commits := [firstRow.column] }

/-- The store after both commits. -/
def raceEnd : Store := { raceStart with commits := [firstRow.column, secondRow.column] }

/-- Both writers read before either writes, and the first one commits. -/
theorem race_start (F : Fernet) : ∃ c : System Bool, Reachable F c ∧ c.shared = raceMiddle ∧
    c.locals true = .append (.stamped (spanTask [("a".toList, .int 1)]) 0 1 none noon) := by
  let t₁ := spanTask []
  let t₂ := spanTask [("a".toList, .int 1)]
  have hmask₁ : AppendStep raceStart (.called (spanArgs [])) raceStart (.ready t₁ 0) :=
    .mask (fun p ↦ .ok (.dict p)) rfl
  have hmask₂ : AppendStep raceStart (.called (spanArgs [("a".toList, .int 1)])) raceStart
    (.ready t₂ 0) := .mask (fun p ↦ .ok (.dict p)) rfl
  have hversion₁ : AppendStep raceStart (.ready t₁ 0) raceStart (.versioned t₁ 0 1) :=
    .readVersion (by decide)
  have hversion₂ : AppendStep raceStart (.ready t₂ 0) raceStart (.versioned t₂ 0 1) :=
    .readVersion (by decide)
  have hprev₁ : AppendStep raceStart (.versioned t₁ 0 1) raceStart (.linked t₁ 0 1 none) :=
    .readPrev rfl
  have hprev₂ : AppendStep raceStart (.versioned t₂ 0 1) raceStart (.linked t₂ 0 1 none) :=
    .readPrev rfl
  have hcommit : AppendStep raceStart (.stamped t₁ 0 1 none noon) raceMiddle
    (.committed firstRow.column) := .commit rfl
  have h0 : Runs F (System.init Bool "store.db".toList) _ := .refl
  have h1 := Steps.thread h0 false (.start (.append (spanArgs [])))
  have h2 := Steps.thread h1 true (.start (.append (spanArgs [("a".toList, .int 1)])))
  have h3 := Steps.thread h2 false (.append hmask₁)
  have h4 := Steps.thread h3 true (.append hmask₂)
  have h5 := Steps.thread h4 false (.append hversion₁)
  have h6 := Steps.thread h5 true (.append hversion₂)
  have h7 := Steps.thread h6 false (.append hprev₁)
  have h8 := Steps.thread h7 true (.append hprev₂)
  have h9 := Steps.thread h8 false (.append (.stamp noon))
  have h10 := Steps.thread h9 true (.append (.stamp noon))
  have h11 := Steps.thread h10 false (.append hcommit)
  exact ⟨_, ⟨_, h11⟩, rfl, rfl⟩

/-- The second writer is refused, reads again, and commits. -/
theorem race_retry (F : Fernet) {c : System Bool} (hst : c.shared = raceMiddle)
    (ht : c.locals true = .append (.stamped (spanTask [("a".toList, .int 1)]) 0 1 none noon)) :
    Runs F c (c.set true raceEnd (.append (.committed secondRow.column))) := by
  let t₂ := spanTask [("a".toList, .int 1)]
  have hrefused : AppendStep raceMiddle (.stamped t₂ 0 1 none noon) raceMiddle (.ready t₂ 1) :=
    .integrityError rfl
  have hversion : AppendStep raceMiddle (.ready t₂ 1) raceMiddle (.versioned t₂ 1 2) :=
    .readVersion (by decide)
  have hprev : AppendStep raceMiddle (.versioned t₂ 1 2) raceMiddle
    (.linked t₂ 1 2 (some firstRow.entryHash)) := .readPrev rfl
  have hcommit : AppendStep raceMiddle (.stamped t₂ 1 2 (some firstRow.entryHash) noon) raceEnd
    (.committed secondRow.column) := .commit rfl
  have hrun : Solo AppendStep (raceMiddle, .stamped t₂ 0 1 none noon) (raceEnd, _) :=
    ((((Solo.step .refl hrefused).step hversion).step hprev).step (.stamp noon)).step hcommit
  exact Runs.append true hst ht hrun

theorem race_reachable (F : Fernet) : ∃ c : System Bool, Reachable F c ∧ c.shared = raceEnd := by
  obtain ⟨c, hc, hst, ht⟩ := race_start F
  exact ⟨_, hc.trans (race_retry F hst ht), rfl⟩

/-- The stream both writers have written to is intact and accepted. -/
theorem race_chain : (raceEnd.selectStream "spans".toList).length = 2 ∧
    ChainIntact (raceEnd.selectStream "spans".toList) ∧
    verifyChain raceEnd "spans".toList = ⟨true, none, none⟩ := by
  obtain ⟨c, hc, hst⟩ := race_reachable ⟨fun _ _ p ↦ p, fun _ t ↦ some t⟩
  have h := reachable_chain hc "spans".toList
  rw [hst] at h
  exact ⟨rfl, h.1, h.2.2⟩

/-! ## The anchors -/

/-- **Nothing that was committed changes, and every anchor stays valid.**  Between any reachable
state and any later one, whatever calls are made, the committed rows stay as they are, and every
anchor that has been returned to a caller or recorded verifies in the later state. -/
theorem commits_and_anchors_stable {c d : System ι} (hc : Reachable F c) (h : Runs F c d) :
    c.shared.commits <+: d.shared.commits ∧
      ∀ r, (∃ i, c.locals i = .anchor (.returned r)) ∨ r ∈ c.shared.anchors →
        verifyAnchor d.shared r = true := by
  have hcommits := h.grows.commits
  obtain ⟨hst, hlocals⟩ := hc.auditOk
  refine ⟨hcommits, fun r hr ↦ ?_⟩
  have hanchor : c.shared.AnchorOk r.streamId r.version r.merkleRoot := by
    rcases hr with ⟨i, hi⟩ | hr
    · have hok := hlocals i
      rw [hi] at hok
      exact hok
    · exact hst.anchors r hr
  exact (hanchor.mono hcommits).verifyAnchor (hc.trans h).auditOk.1.log

/-- The anchor of both rows, in the store that both writers have written to. -/
def raceAnchor : AnchorRecord :=
  anchorRecord "spans".toList 2 (merkleNode firstRow.entryHash secondRow.entryHash)
    "receipt".toList noon

theorem raceAnchor_reachable (F : Fernet) : ∃ c : System Bool, Reachable F c ∧
    c.shared = { raceEnd with anchors := [raceAnchor] } := by
  obtain ⟨c, hc, hst⟩ := race_reachable F
  have hread : AnchorStep raceEnd (.called "spans".toList) raceEnd
      (.sinking "spans".toList 2 (merkleNode firstRow.entryHash secondRow.entryHash) none) :=
    .read (show (raceEnd.selectStream "spans".toList).getLast? = some secondRow.column from rfl) rfl
  rw [← hst] at hread ⊢
  have h1 := Steps.thread (.refl : Runs F c c) false .stop
  have h2 := Steps.thread h1 false (.start (.anchor "spans".toList))
  have h3 := Steps.thread h2 false (.anchor hread)
  have h4 := Steps.thread h3 false (.anchor (.sinkReturn "receipt".toList))
  have h5 := Steps.thread h4 false (.anchor (.persist noon))
  refine ⟨_, hc.trans h5, ?_⟩
  simp only [Config.set_shared]
  rw [hst]
  rfl

/-- The anchor of the first row. -/
def firstAnchor : AnchorRecord :=
  anchorRecord "spans".toList 1 firstRow.entryHash "receipt".toList noon

/-- An anchor is read while there is one row, and recorded after the second writer has committed. -/
theorem anchor_race (F : Fernet) : ∃ c : System Bool, Reachable F c ∧
    c.shared = { raceEnd with anchors := [firstAnchor] } ∧
    c.locals false = .anchor (.returned firstAnchor) := by
  obtain ⟨c, hc, hst, ht⟩ := race_start F
  have hread : AnchorStep raceMiddle (.called "spans".toList) raceMiddle
      (.sinking "spans".toList 1 firstRow.entryHash none) :=
    .read (show (raceMiddle.selectStream "spans".toList).getLast? = some firstRow.column from rfl)
      rfl
  have h1 := Steps.thread (.refl : Runs F c c) false .stop
  have h2 := Steps.thread h1 false (.start (.anchor "spans".toList))
  rw [← hst] at hread
  have h3 := Steps.thread h2 false (.anchor hread)
  have h4 := h3.trans (race_retry F hst ht)
  have h5 := Steps.thread h4 false (.anchor (.sinkReturn "receipt".toList))
  have h6 := Steps.thread h5 false (.anchor (.persist noon))
  have h7 := Steps.thread h6 false (.anchor .finish)
  exact ⟨_, hc.trans h7, rfl, rfl⟩

/-- That anchor, after one more commit. -/
theorem anchor_race_stable : ∃ d : System Bool,
    d.shared.commits.length = 3 ∧ verifyAnchor d.shared firstAnchor = true := by
  let F : Fernet := ⟨fun _ _ p ↦ p, fun _ t ↦ some t⟩
  obtain ⟨c, hc, hst, hfalse⟩ := anchor_race F
  have hstop := Steps.thread (.refl : Runs F c c) true .stop
  have hstart := Steps.thread hstop true (.start (.append (spanArgs [])))
  have happend := hstart.trans (Runs.append true hst rfl (appendCommit_steps
    (fun p ↦ .ok (.dict p)) ⟨fun _ ↦ ⟨noon, false⟩, none⟩ (spanArgs [])
    { raceEnd with anchors := [firstAnchor] }))
  exact ⟨_, rfl, (commits_and_anchors_stable hc happend).2 firstAnchor (Or.inl ⟨false, hfalse⟩)⟩

end WiseTraceLoom
