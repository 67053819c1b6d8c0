import WiseTraceLoom.Lib.MerkleTree
import WiseTraceLoom.Storage.Log

/-!
# The audit chain and its anchors

Two layers of tamper evidence over the commit log.

* `verifyChain` walks a stream in version order and recomputes what every row says about itself and
  about the row before it.  `verifyRows_ok` is what its acceptance means.
* `anchorCommits` hands the Merkle root of a stream to a sink of the host, which may append to the
  log itself, and records what the sink returned; `verifyAnchor` recomputes the root later.  The
  call reads the stream in one session and writes its record in another, so it is given as a step
  relation, with the sink's appends as steps of their own in between.

`Store.AnchorOk` is what an anchor relies on: its root is the root of a prefix of its stream, and a
prefix is never written to again.
-/

set_option autoImplicit false

namespace WiseTraceLoom

open NumberedLog HashChain

/-! ## Verifying the chain -/

/-- What `verify_chain` returns. -/
structure ChainVerificationResult where
  /-- Is the chain intact? -/
  ok : Bool
  /-- The first version that is not. -/
  brokenAtVersion : Option ℤ
  /-- Why it is not. -/
  reason : Option Str
  deriving DecidableEq

/-- The loop of `verify_chain`, the row before having the hash `expectedPrev`. -/
def verifyRows : Option Str → List StorageCommit → ChainVerificationResult
  | _, [] => ⟨true, none, none⟩
  | expectedPrev, row :: rows =>
    if row.prevHash ≠ expectedPrev then
      ⟨false, some row.version,
        some ("prev_hash does not match the preceding entry's entry_hash at version ".toList ++
          Text.ofInt row.version)⟩
    else if row.recomputed ≠ row.entryHash then
      ⟨false, some row.version,
        some ("entry_hash does not match its own recomputed fields at version ".toList ++
          Text.ofInt row.version)⟩
    else verifyRows (some row.entryHash) rows

/-- `verify_chain`. -/
def verifyChain (st : Store) (streamId : Str) : ChainVerificationResult :=
  verifyRows none (st.selectStream streamId)

/-- **What acceptance means**: the rows are linked, and each has the hash of its own fields. -/
theorem verifyRows_ok {p : Option Str} {rows : List StorageCommit} :
    (verifyRows p rows).ok = true ↔
      Linked StorageCommit.prevHash StorageCommit.entryHash p rows ∧
        ∀ row ∈ rows, row.recomputed = row.entryHash := by
  induction rows generalizing p with
  | nil => simp [verifyRows]
  | cons row rows ih =>
    rw [verifyRows, linked_cons, List.forall_mem_cons]
    split_ifs with hprev hhash
    · simp [hprev]
    · simp [hhash]
    · rw [ih]
      simp only [ne_eq, not_not] at hprev hhash
      tauto

/-- What appends leave behind is accepted. -/
theorem StreamOk.verifyChain {st : Store} {s : Str} (h : StreamOk (st.stream s)) :
    verifyChain st s = ⟨true, none, none⟩ := by
  have hok : (verifyRows none (st.stream s)).ok = true :=
    verifyRows_ok.mpr ⟨h.linked, fun row hrow ↦ (h.sealed row hrow).hash⟩
  have hresult (p : Option Str) (rows : List StorageCommit) (hok : (verifyRows p rows).ok = true) :
      verifyRows p rows = ⟨true, none, none⟩ := by
    induction rows generalizing p with
    | nil => rfl
    | cons row rows ih =>
      rw [verifyRows] at hok ⊢
      split_ifs at hok ⊢
      exact ih _ hok
  rw [WiseTraceLoom.verifyChain, h.selectStream, hresult _ _ hok]

/-! ## Merkle roots and anchors -/

/-- The hash of two neighbours. -/
def merkleNode (a b : Str) : Str := Sha256.hexdigest (a ++ b)

/-- `compute_merkle_root`; `none` is the `ValueError` for no leaves. -/
def computeMerkleRoot (leafHashes : List Str) : Option Str := MerkleTree.root merkleNode leafHashes

/-- `select(StorageCommit).where(stream_id == …, version <= v).order_by(version)`. -/
def Store.selectUpTo (st : Store) (streamId : Str) (v : ℤ) : List StorageCommit :=
  ((st.stream streamId).filter fun row ↦ row.version ≤ v).insertionSort
    fun a b ↦ a.version ≤ b.version

/-- Does the root recomputed over the anchored rows match?  `rows` are the rows of the anchored
stream, as far as the anchored version, in version order. -/
def verifyAnchorRows (record : AnchorRecord) (rows : List StorageCommit) : Bool :=
  match rows.getLast? with
  | none => false
  | some last =>
    if last.version ≠ record.version then false
    else computeMerkleRoot (rows.map StorageCommit.entryHash) = some record.merkleRoot

/-- `verify_anchor`. -/
def verifyAnchor (st : Store) (record : AnchorRecord) : Bool :=
  verifyAnchorRows record (st.selectUpTo record.streamId record.version)

theorem verifyAnchorRows_eq_true {record : AnchorRecord} {rows : List StorageCommit} :
    verifyAnchorRows record rows = true ↔
      rows.getLast?.map StorageCommit.version = some record.version ∧
        computeMerkleRoot (rows.map StorageCommit.entryHash) = some record.merkleRoot := by
  rw [verifyAnchorRows]
  split
  · rename_i hnone
    simp [hnone]
  · rename_i last hlast
    rw [hlast, Option.map_some, Option.some_inj]
    split_ifs with hversion
    · simp [hversion]
    · simp [not_not.mp hversion]

/-- What `anchor_commits` raises. -/
inductive AnchorError where
  /-- `ValueError`: there is nothing to anchor. -/
  | noCommits (streamId : Str)
  /-- Anything the sink or a statement raises. -/
  | other
  deriving DecidableEq

/-- Where a call to `anchor_commits` stands. -/
inductive AnchorCall where
  | called (streamId : Str)
  /-- The sink is running, and `inner` is the append it is in the middle of, if any. -/
  | sinking (streamId : Str) (version : ℤ) (root : Str) (inner : Option AppendCall)
  /-- The sink has returned its reference. -/
  | referenced (streamId : Str) (version : ℤ) (root externalReference : Str)
  | persisted (record : AnchorRecord)
  | returned (record : AnchorRecord)
  | raised (e : AnchorError)

/-- The record an anchor writes, as it is read back. -/
def anchorRecord (streamId : Str) (version : ℤ) (root externalReference : Str) (now : Timestamp) :
    AnchorRecord :=
  ⟨streamId, version, root, externalReference, (utcnow now).column⟩

/-- One step of a call to `anchor_commits`. -/
inductive AnchorStep : Store → AnchorCall → Store → AnchorCall → Prop
  | read {st : Store} {s root : Str} {last : StorageCommit}
      (hlast : (st.selectStream s).getLast? = some last)
      (hroot : computeMerkleRoot ((st.selectStream s).map StorageCommit.entryHash) = some root) :
      AnchorStep st (.called s) st (.sinking s last.version root none)
  | readEmpty {st : Store} {s : Str} (h : st.selectStream s = []) :
      AnchorStep st (.called s) st (.raised (.noCommits s))
  /-- The sink calls `append_commit`. -/
  | sinkCall {st : Store} {s root : Str} {v : ℤ} (a : AppendArgs) :
      AnchorStep st (.sinking s v root none) st (.sinking s v root (some (.called a)))
  | sinkStep {st st' : Store} {s root : Str} {v : ℤ} {c c' : AppendCall}
      (h : AppendStep st c st' c') :
      AnchorStep st (.sinking s v root (some c)) st' (.sinking s v root (some c'))
  /-- The sink goes on after an append of its own has ended in one way or the other. -/
  | sinkGoOn {st : Store} {s root : Str} {v : ℤ} {c : AppendCall} (h : c.ended = true) :
      AnchorStep st (.sinking s v root (some c)) st (.sinking s v root none)
  | sinkReturn {st : Store} {s root : Str} {v : ℤ} (ref : Str) :
      AnchorStep st (.sinking s v root none) st (.referenced s v root ref)
  | persist {st : Store} {s root ref : Str} {v : ℤ} (now : Timestamp) :
      AnchorStep st (.referenced s v root ref)
        { st with anchors := st.anchors ++ [anchorRecord s v root ref now] }
        (.persisted (anchorRecord s v root ref now))
  | finish {st : Store} {record : AnchorRecord} :
      AnchorStep st (.persisted record) st (.returned record)
  /-- The sink, a statement or the commit raises. -/
  | fail {st : Store} {c : AnchorCall} : AnchorStep st c st (.raised .other)

variable {st st' : Store}

/-- An anchor writes its record, and its sink to the log. -/
theorem AnchorStep.store_eq {c c' : AnchorCall} (h : AnchorStep st c st' c') :
    st' = { st with commits := st'.commits, anchors := st'.anchors } := by
  cases h
  case sinkStep h =>
    rw [h.store_eq]
  all_goals rfl

/-! ## What an anchor relies on -/

/-- `root` is the Merkle root of the first `v` rows of the stream, and there are that many. -/
structure Store.AnchorOk (st : Store) (s : Str) (v : ℤ) (root : Str) : Prop where
  /-- At least one row is anchored. -/
  pos : 1 ≤ v
  /-- All anchored rows are there. -/
  le : v ≤ (st.stream s).length
  /-- The root is theirs. -/
  root : computeMerkleRoot (((st.stream s).take v.toNat).map StorageCommit.entryHash) = some root

theorem Store.AnchorOk.mono {s root : Str} {v : ℤ} (h : st.AnchorOk s v root)
    (hst : st.commits <+: st'.commits) : st'.AnchorOk s v root := by
  obtain ⟨rows, hrows⟩ := Store.stream_prefix hst s
  have hle := h.le
  have hlen : v ≤ (st'.stream s).length := by
    rw [← hrows, List.length_append]
    omega
  refine ⟨h.pos, hlen, ?_⟩
  rw [← hrows, List.take_append_of_le_length (by omega)]
  exact h.root

/-- The root of a whole stream is the root of a prefix of it. -/
theorem StreamOk.anchorOk {s root : Str} {last : StorageCommit} (h : StreamOk (st.stream s))
    (hlast : (st.selectStream s).getLast? = some last)
    (hroot : computeMerkleRoot ((st.selectStream s).map StorageCommit.entryHash) = some root) :
    st.AnchorOk s last.version root := by
  rw [h.selectStream] at hlast hroot
  have hne : st.stream s ≠ [] := by
    rintro hnil
    simp [hnil] at hlast
  rw [List.getLast?_eq_some_getLast hne, Option.some_inj] at hlast
  have hversion : last.version = (st.stream s).length := by
    rw [← hlast, h.numbered.num_getLast hne]
  have hpos := List.length_pos_iff.mpr hne
  refine ⟨by omega, by omega, ?_⟩
  rw [hversion, Int.toNat_natCast, List.take_length]
  exact hroot

theorem StreamOk.selectUpTo {s : Str} (h : StreamOk (st.stream s)) (v : ℤ) :
    st.selectUpTo s v = (st.stream s).take v.toNat := by
  rw [Store.selectUpTo, h.numbered.filter_le v,
    (h.numbered.of_prefix (List.take_prefix _ _)).insertionSort_eq]

/-- **An anchor verifies** as long as the log is as appends leave it. -/
theorem Store.AnchorOk.verifyAnchor {record : AnchorRecord} (hlog : st.LogOk)
    (h : st.AnchorOk record.streamId record.version record.merkleRoot) :
    verifyAnchor st record = true := by
  have hs := hlog record.streamId
  have hpos := h.pos
  have hle := h.le
  have hlen : ((st.stream record.streamId).take record.version.toNat).length =
      record.version.toNat := by
    rw [List.length_take]
    omega
  have hne : (st.stream record.streamId).take record.version.toNat ≠ [] := by
    apply List.length_pos_iff.mp
    omega
  have hnum := (hs.numbered.of_prefix (List.take_prefix record.version.toNat _)).num_getLast hne
  have hlast : (((st.stream record.streamId).take record.version.toNat).getLast hne).version =
      record.version := by
    rw [hnum, hlen]
    omega
  rw [WiseTraceLoom.verifyAnchor, verifyAnchorRows_eq_true, hs.selectUpTo,
    List.getLast?_eq_some_getLast hne, Option.map_some, hlast]
  exact ⟨rfl, h.root⟩

/-- What a call in the middle of anchoring knows. -/
def AnchorCall.Ok (st : Store) : AnchorCall → Prop
  | .sinking s v root inner => st.AnchorOk s v root ∧ ∀ c ∈ inner, c.Ok st
  | .referenced s v root _ => st.AnchorOk s v root
  | .persisted record => st.AnchorOk record.streamId record.version record.merkleRoot
  | .returned record => st.AnchorOk record.streamId record.version record.merkleRoot
  | _ => True

theorem AnchorCall.Ok.mono {c : AnchorCall} (hc : c.Ok st) (h : st.commits <+: st'.commits) :
    c.Ok st' := by
  cases c with
  | sinking s v root inner => exact ⟨hc.1.mono h, fun c hcall ↦ (hc.2 c hcall).mono h⟩
  | referenced s v root ref => exact Store.AnchorOk.mono hc h
  | persisted record => exact Store.AnchorOk.mono hc h
  | returned record => exact Store.AnchorOk.mono hc h
  | _ => trivial

/-- **One step of an anchor**, a step of the sink's own appends included, keeps the log and what
the call knows. -/
theorem AnchorStep.ok {c c' : AnchorCall} (h : AnchorStep st c st' c') (hlog : st.LogOk)
    (hc : c.Ok st) : st'.LogOk ∧ c'.Ok st' ∧ st.commits <+: st'.commits := by
  cases h with
  | read hlast hroot =>
    exact ⟨hlog, ⟨(hlog _).anchorOk hlast hroot, by simp⟩, List.prefix_refl _⟩
  | sinkCall a => exact ⟨hlog, ⟨hc.1, by simp [AppendCall.Ok]⟩, List.prefix_refl _⟩
  | sinkStep hstep =>
    obtain ⟨hlog', hok, hprefix⟩ := hstep.ok hlog (hc.2 _ rfl)
    exact ⟨hlog', ⟨hc.1.mono hprefix, by simpa using hok⟩, hprefix⟩
  | sinkGoOn hended => exact ⟨hlog, ⟨hc.1, by simp⟩, List.prefix_refl _⟩
  | sinkReturn ref => exact ⟨hlog, hc.1, List.prefix_refl _⟩
  | persist now =>
    exact ⟨hlog.of_commits_eq rfl, Store.AnchorOk.mono hc (List.prefix_refl _), List.prefix_refl _⟩
  | finish => exact ⟨hlog, hc, List.prefix_refl _⟩
  | _ => exact ⟨hlog, trivial, List.prefix_refl _⟩

end WiseTraceLoom
