import WiseTraceLoom.Audit.Integrity

/-!
# What the hashes bind

Somebody with write access to the database may edit, insert, delete and re-link rows at will.  Two
results say what cannot be changed without being noticed, as long as SHA-256 does not collide on the
finitely many texts that are actually hashed.

* **The chain** (`chain_binding`).  Whoever remembers the hash of the last row of a stream knows the
  whole stream: another list of rows that `verify_chain` accepts and that ends in the same hash has
  the same length and the same hashed texts.  A hashed text determines the version and the pointer
  of its row (`material_inj`): the pointer is a digest or nothing, neither has a newline, and a
  digest is not empty.
* **The anchor** (`anchor_binding`).  If `verify_chain` accepts the rows and `verify_anchor` an
  anchor of an honest state, the anchored rows are still there.  The Merkle root alone would not say
  so, as an odd level is padded and leaves are not told apart from inner nodes; what helps is that
  the leaves are distinct, because the versions are, and that the text hashed for a leaf has a
  newline and the one for an inner node has none.
-/

set_option autoImplicit false

namespace WiseTraceLoom

open NumberedLog HashChain

/-! ## The hashed text of a row -/

/-- Two rows that carry the same version, pointer, hash and hashed text. -/
structure SameEntry (a b : StorageCommit) : Prop where
  /-- The version. -/
  version : a.version = b.version
  /-- The pointer to the row before. -/
  prevHash : a.prevHash = b.prevHash
  /-- The hash. -/
  entryHash : a.entryHash = b.entryHash
  /-- All that is hashed. -/
  material : a.material = b.material

/-- A pointer that a chain can contain: nothing, or a digest. -/
def IsPointer (p : Option Str) : Prop := ∀ h ∈ p, ∃ text, h = Sha256.hexdigest text

theorem IsPointer.newline_not_mem {p : Option Str} (hp : IsPointer p) : '\n' ∉ p.getD [] := by
  cases p with
  | none => simp
  | some h =>
    obtain ⟨text, rfl⟩ := hp h rfl
    exact Sha256.newline_not_mem_hexdigest text

/-- Pointers can be told apart after `prev_hash or ""`. -/
theorem IsPointer.getD_inj {p q : Option Str} (hp : IsPointer p) (hq : IsPointer q)
    (h : p.getD [] = q.getD []) : p = q := by
  cases p with
  | none =>
    cases q with
    | none => rfl
    | some y =>
      obtain ⟨text, rfl⟩ := hq y rfl
      exact absurd h.symm (Sha256.hexdigest_ne_nil text)
  | some x =>
    cases q with
    | none =>
      obtain ⟨text, rfl⟩ := hp x rfl
      exact absurd h (Sha256.hexdigest_ne_nil text)
    | some y => exact congrArg some h

theorem StorageCommit.material_eq (row : StorageCommit) :
    row.material = row.prevHash.getD [] ++ '\n' :: (row.streamId ++ '\n' ::
      (Text.ofInt row.version ++ '\n' :: Text.join ['\n'] [row.recordType, row.tenantId.getD [],
        isoUtc row.committedAt, row.payload])) := by
  simp [material, entryMaterial, Text.join, List.intercalate, List.intersperse]

theorem newline_mem_material (row : StorageCommit) : '\n' ∈ row.material := by
  rw [row.material_eq]
  simp

theorem newline_not_mem_ofInt (n : ℤ) : '\n' ∉ Text.ofInt n :=
  Text.not_mem_ofInt (by decide) (by decide) n

/-- **The hashed text determines pointer and version** among the rows of one stream. -/
theorem material_inj {a b : StorageCommit} (ha : IsPointer a.prevHash) (hb : IsPointer b.prevHash)
    (hstream : a.streamId = b.streamId) (h : a.material = b.material) :
    a.version = b.version ∧ a.prevHash = b.prevHash := by
  rw [a.material_eq, b.material_eq, hstream] at h
  obtain ⟨hprev, hrest⟩ := Text.append_sep_inj ha.newline_not_mem hb.newline_not_mem h
  have hversion := List.cons_injective (List.append_cancel_left hrest)
  obtain ⟨hversion, -⟩ := Text.append_sep_inj (newline_not_mem_ofInt _) (newline_not_mem_ofInt _)
    hversion
  exact ⟨Text.ofInt_injective hversion, ha.getD_inj hb hprev⟩

/-- The pointers of an accepted chain are digests. -/
theorem isPointer_of_linked {p : Option Str} {rows : List StorageCommit} (hp : IsPointer p)
    (hlinked : Linked StorageCommit.prevHash StorageCommit.entryHash p rows)
    (hhash : ∀ row ∈ rows, row.recomputed = row.entryHash) :
    ∀ row ∈ rows, IsPointer row.prevHash := by
  induction rows generalizing p with
  | nil => simp
  | cons row rows ih =>
    obtain ⟨hprev, hlinked⟩ := linked_cons.mp hlinked
    obtain ⟨hrow, hhash⟩ := List.forall_mem_cons.mp hhash
    refine List.forall_mem_cons.mpr ⟨hprev ▸ hp, ih ?_ hlinked hhash⟩
    rintro h ⟨⟩
    exact ⟨row.material, hrow.symm⟩

/-- What is known about the rows of an accepted stream. -/
structure Accepted (s : Str) (rows : List StorageCommit) : Prop where
  /-- They belong to the stream. -/
  streamId : ∀ row ∈ rows, row.streamId = s
  /-- They point at digests. -/
  pointer : ∀ row ∈ rows, IsPointer row.prevHash
  /-- They carry the hash of their own fields. -/
  hash : ∀ row ∈ rows, row.entryHash = Sha256.hexdigest row.material

theorem Accepted.of_subset {s : Str} {l m : List StorageCommit} (h : Accepted s m) (hlm : l ⊆ m) :
    Accepted s l :=
  ⟨fun r hr ↦ h.streamId r (hlm hr), fun r hr ↦ h.pointer r (hlm hr), fun r hr ↦ h.hash r (hlm hr)⟩

theorem Accepted.of_verifyChain {st : Store} {s : Str} (h : (verifyChain st s).ok = true) :
    Accepted s (st.selectStream s) := by
  obtain ⟨hlinked, hhash⟩ := verifyRows_ok.mp h
  refine ⟨fun row hrow ↦ ?_, isPointer_of_linked (by rintro h ⟨⟩) hlinked hhash,
    fun row hrow ↦ (hhash row hrow).symm⟩
  rw [Store.selectStream, List.mem_insertionSort, Store.stream, List.mem_filter] at hrow
  simpa using hrow.2

/-- Rows with equal hashes have equal entries, unless SHA-256 collides on their texts. -/
theorem Accepted.sameEntry {s : Str} {l m : List StorageCommit} (hl : Accepted s l)
    (hm : Accepted s m) {inputs : Set Str} (hsha : inputs.InjOn Sha256.hexdigest)
    {a b : StorageCommit} (ha : a ∈ l) (hb : b ∈ m) (hain : a.material ∈ inputs)
    (hbin : b.material ∈ inputs) (h : a.entryHash = b.entryHash) : SameEntry a b := by
  have hmat : a.material = b.material :=
    hsha hain hbin (by rw [← hl.hash a ha, ← hm.hash b hb, h])
  obtain ⟨hversion, hprev⟩ := material_inj (hl.pointer a ha) (hm.pointer b hb)
    ((hl.streamId a ha).trans (hm.streamId b hb).symm) hmat
  exact ⟨hversion, hprev, h, hmat⟩

/-! ## The chain -/

/-- The texts `verify_chain` hashes. -/
def chainInputs (rows : List StorageCommit) : List Str := rows.map StorageCommit.material

/-- **The last hash binds the chain.**  Take two contents of a stream, whatever has been done to
them.  If `verify_chain` accepts both and they end in the same hash, then they have the same length
and agree row by row on version, pointer, hash and on the whole hashed text. -/
theorem chain_binding {st st' : Store} {s : Str}
    (hsha : Set.InjOn Sha256.hexdigest
      {x | x ∈ chainInputs (st.selectStream s) ++ chainInputs (st'.selectStream s)})
    (hok : (verifyChain st s).ok = true) (hok' : (verifyChain st' s).ok = true)
    (hlast : tip StorageCommit.entryHash (st.selectStream s) =
      tip StorageCommit.entryHash (st'.selectStream s)) :
    List.Forall₂ SameEntry (st.selectStream s) (st'.selectStream s) := by
  refine (verifyRows_ok.mp hok).1.forall₂ (verifyRows_ok.mp hok').1 (fun a ha b hb h ↦ ?_) hlast
  have hsame : SameEntry a b := (Accepted.of_verifyChain hok).sameEntry
    (Accepted.of_verifyChain hok') hsha ha hb
    (List.mem_append_left _ (List.mem_map_of_mem ha))
    (List.mem_append_right _ (List.mem_map_of_mem hb)) h
  exact ⟨hsame, hsame.prevHash⟩

/-! ## The anchor -/

/-- A digest of SHA-256, as far as its form goes. -/
def IsDigest (h : Str) : Prop := h.length = 64 ∧ ∀ c ∈ h, Sha256.isHex c = true

theorem isDigest_hexdigest (text : Str) : IsDigest (Sha256.hexdigest text) :=
  ⟨Sha256.length_hexdigest text, fun _ ↦ Sha256.isHex_of_mem_hexdigest⟩

theorem IsDigest.newline_not_mem {h : Str} (hh : IsDigest h) : '\n' ∉ h := fun hmem ↦
  absurd (hh.2 _ hmem) (by decide)

/-- The pairs of hashes that `verify_anchor` hashes. -/
def merklePairs (rows : List StorageCommit) : List (Str × Str) :=
  MerkleTree.hashed merkleNode rows.length (rows.map StorageCommit.entryHash)

/-- The texts that are hashed for the rows of an anchor and for its Merkle tree. -/
def anchorInputs (rows : List StorageCommit) : List Str :=
  chainInputs rows ++ (merklePairs rows).map fun p ↦ p.1 ++ p.2

/-- Accepted rows with distinct versions have distinct hashes. -/
theorem Accepted.hashes_nodup {s : Str} {rows : List StorageCommit} (h : Accepted s rows)
    {inputs : Set Str} (hsha : inputs.InjOn Sha256.hexdigest)
    (hin : ∀ row ∈ rows, row.material ∈ inputs)
    (hversions : (rows.map StorageCommit.version).Nodup) :
    (rows.map StorageCommit.entryHash).Nodup := by
  refine List.Nodup.map_on (fun a ha b hb hab ↦ ?_) (List.Nodup.of_map _ hversions)
  exact List.inj_on_of_nodup_map hversions ha hb
    (h.sameEntry h hsha ha hb (hin a ha) (hin b hb) hab).version

theorem Accepted.isDigest {s : Str} {rows : List StorageCommit} (h : Accepted s rows) :
    ∀ a ∈ rows.map StorageCommit.entryHash, IsDigest a := by
  intro a ha
  obtain ⟨row, hrow, rfl⟩ := List.mem_map.mp ha
  rw [h.hash row hrow]
  exact isDigest_hexdigest _

/-- The two halves of what is hashed for an inner node are digests. -/
theorem Accepted.isDigest_pairs {s : Str} {rows : List StorageCommit} (h : Accepted s rows) :
    ∀ p ∈ merklePairs rows, IsDigest p.1 ∧ IsDigest p.2 :=
  MerkleTree.forall_hashed (fun _ _ ↦ isDigest_hexdigest _) h.isDigest

theorem forall₂_of_map_eq {α β : Type} {f : α → β} {r : α → α → Prop} {l m : List α}
    (h : l.map f = m.map f) (hr : ∀ a ∈ l, ∀ b ∈ m, f a = f b → r a b) : List.Forall₂ r l m := by
  induction l generalizing m with
  | nil =>
    rw [List.map_nil, eq_comm, List.map_eq_nil_iff] at h
    rw [h]
    exact List.Forall₂.nil
  | cons a l ih =>
    cases m with
    | nil => simp at h
    | cons b m =>
      rw [List.map_cons, List.map_cons, List.cons.injEq] at h
      exact List.Forall₂.cons (hr a (by simp) b (by simp) h.1)
        (ih h.2 fun x hx y hy ↦ hr x (by simp [hx]) y (by simp [hy]))

section inputs

variable {inputs : Set Str} (hsha : inputs.InjOn Sha256.hexdigest)

include hsha

/-- The halves of a hashed pair can be told apart, as both have 64 characters. -/
theorem merkleNode_injOn {S : Set (Str × Str)} (hdigest : ∀ p ∈ S, IsDigest p.1 ∧ IsDigest p.2)
    (hin : ∀ p ∈ S, p.1 ++ p.2 ∈ inputs) : S.InjOn fun p ↦ merkleNode p.1 p.2 := by
  intro p hp q hq h
  have hcat : p.1 ++ p.2 = q.1 ++ q.2 := hsha (hin p hp) (hin q hq) h
  have hlen : p.1.length = q.1.length := (hdigest p hp).1.1.trans (hdigest q hq).1.1.symm
  exact Prod.ext_iff.mpr (List.append_inj hcat hlen)

/-- A leaf hashes a text with a newline, an inner node one without. -/
theorem Accepted.merkleNode_ne {s x y : Str} {rows : List StorageCommit} (h : Accepted s rows)
    (hin : ∀ row ∈ rows, row.material ∈ inputs) (hx : IsDigest x) (hy : IsDigest y)
    (hxy : x ++ y ∈ inputs) : ∀ a ∈ rows.map StorageCommit.entryHash, merkleNode x y ≠ a := by
  intro a ha hnode
  obtain ⟨row, hrow, rfl⟩ := List.mem_map.mp ha
  have hcat : x ++ y = row.material := hsha hxy (hin row hrow) (hnode.trans (h.hash row hrow))
  have hnewline := newline_mem_material row
  rw [← hcat, List.mem_append] at hnewline
  exact hnewline.elim hx.newline_not_mem hy.newline_not_mem

end inputs

theorem ne_nil_of_computeMerkleRoot {hashes : List Str} {root : Str}
    (h : computeMerkleRoot hashes = some root) : hashes ≠ [] := by
  intro hnil
  rw [hnil] at h
  exact absurd h (by simp [computeMerkleRoot, MerkleTree.root, MerkleTree.climb])

/-- **Equal roots, equal rows**: two lists of accepted rows of a stream with distinct versions and
the same Merkle root carry the same entries, unless SHA-256 collides on the texts hashed. -/
theorem forall₂_of_merkleRoot_eq {s root : Str} {l m : List StorageCommit}
    (hsha : Set.InjOn Sha256.hexdigest {x | x ∈ anchorInputs l ++ anchorInputs m})
    (hl : Accepted s l) (hm : Accepted s m) (hlv : (l.map StorageCommit.version).Nodup)
    (hmv : (m.map StorageCommit.version).Nodup)
    (hlroot : computeMerkleRoot (l.map StorageCommit.entryHash) = some root)
    (hmroot : computeMerkleRoot (m.map StorageCommit.entryHash) = some root) :
    List.Forall₂ SameEntry l m := by
  have hlin (row : StorageCommit) (hrow : row ∈ l) :
      row.material ∈ {x | x ∈ anchorInputs l ++ anchorInputs m} :=
    List.mem_append_left _ (List.mem_append_left _ (List.mem_map_of_mem hrow))
  have hmin (row : StorageCommit) (hrow : row ∈ m) :
      row.material ∈ {x | x ∈ anchorInputs l ++ anchorInputs m} :=
    List.mem_append_right _ (List.mem_append_left _ (List.mem_map_of_mem hrow))
  let S : Set (Str × Str) := {p | p ∈ merklePairs l ++ merklePairs m}
  have hdigest : ∀ p ∈ S, IsDigest p.1 ∧ IsDigest p.2 := fun p hp ↦
    (List.mem_append.mp hp).elim (hl.isDigest_pairs p) (hm.isDigest_pairs p)
  have hSin : ∀ p ∈ S, p.1 ++ p.2 ∈ {x | x ∈ anchorInputs l ++ anchorInputs m} := by
    intro p hp
    rcases List.mem_append.mp hp with hp | hp
    · exact List.mem_append_left _ (List.mem_append_right _ (List.mem_map_of_mem hp))
    · exact List.mem_append_right _ (List.mem_append_right _ (List.mem_map_of_mem hp))
  have hleaf : ∀ a ∈ l.map StorageCommit.entryHash ++ m.map StorageCommit.entryHash,
      ∀ p ∈ S, merkleNode p.1 p.2 ≠ a := by
    intro a ha p hp
    obtain ⟨hx, hy⟩ := hdigest p hp
    rcases List.mem_append.mp ha with ha | ha
    · exact hl.merkleNode_ne hsha hlin hx hy (hSin p hp) a ha
    · exact hm.merkleNode_ne hsha hmin hx hy (hSin p hp) a ha
  have hhashes : l.map StorageCommit.entryHash = m.map StorageCommit.entryHash := by
    refine MerkleTree.root_inj (merkleNode_injOn hsha hdigest hSin)
      (hl.hashes_nodup hsha hlin hlv) (hm.hashes_nodup hsha hmin hmv)
      (ne_nil_of_computeMerkleRoot hlroot) (ne_nil_of_computeMerkleRoot hmroot)
      (fun p hp ↦ ?_) (fun p hp ↦ ?_) hleaf (hlroot.trans hmroot.symm)
    · rw [List.length_map] at hp
      exact List.mem_append_left _ hp
    · rw [List.length_map] at hp
      exact List.mem_append_right _ hp
  exact forall₂_of_map_eq hhashes fun a ha b hb h ↦
    hl.sameEntry hm hsha ha hb (hlin a ha) (hmin b hb) h

/-- **Chain and anchor together bind the anchored rows.**  Let `record` be an anchor of an honest
reachable state `c`, and let `st` hold any other content of the stream, with pairwise distinct
versions.  If `verify_chain` accepts that content and `verify_anchor` the record on it, then its
rows up to the anchored version carry, in order, the versions, pointers and hashes of the anchored
commits. -/
theorem anchor_binding {ι : Type} [DecidableEq ι] {F : Fernet} {c : System ι} (hc : Reachable F c)
    {record : AnchorRecord}
    (hrecord : (∃ i, c.locals i = .anchor (.returned record)) ∨ record ∈ c.shared.anchors)
    {st : Store} (hversions : ((st.stream record.streamId).map StorageCommit.version).Nodup)
    (hsha : Set.InjOn Sha256.hexdigest
      {x | x ∈ anchorInputs (st.selectUpTo record.streamId record.version) ++
        anchorInputs (c.shared.selectUpTo record.streamId record.version)})
    (hok : (verifyChain st record.streamId).ok = true)
    (hanchor : verifyAnchor st record = true) :
    List.Forall₂ SameEntry (st.selectUpTo record.streamId record.version)
      (c.shared.selectUpTo record.streamId record.version) := by
  obtain ⟨hst, hlocals⟩ := hc.auditOk
  have hhonest : c.shared.AnchorOk record.streamId record.version record.merkleRoot := by
    rcases hrecord with ⟨i, hi⟩ | hr
    · have hlocal := hlocals i
      rw [hi] at hlocal
      exact hlocal
    · exact hst.anchors record hr
  have hsub (st : Store) : st.selectUpTo record.streamId record.version ⊆
      st.selectStream record.streamId := by
    intro row hrow
    rw [Store.selectUpTo, List.mem_insertionSort, List.mem_filter] at hrow
    exact (List.mem_insertionSort _).mpr hrow.1
  have hnodup {st : Store} (h : ((st.stream record.streamId).map StorageCommit.version).Nodup) :
      ((st.selectUpTo record.streamId record.version).map StorageCommit.version).Nodup := by
    rw [Store.selectUpTo, ((List.perm_insertionSort _ _).map _).nodup_iff]
    exact h.sublist (List.filter_sublist.map _)
  have hs := hst.log record.streamId
  refine forall₂_of_merkleRoot_eq hsha
    ((Accepted.of_verifyChain hok).of_subset (hsub st))
    ((Accepted.of_verifyChain (congrArg ChainVerificationResult.ok hs.verifyChain)).of_subset
      (hsub c.shared))
    (hnodup hversions) (hnodup ?_) (verifyAnchorRows_eq_true.mp hanchor).2
    (verifyAnchorRows_eq_true.mp (hhonest.verifyAnchor hst.log)).2
  exact (hs.numbered.pairwise.imp fun hab ↦ ne_of_lt hab).map _ fun _ _ h ↦ h

/-! ### The two results at work

The digests of the stream that the two writers of `raceEnd` have left, and of its Merkle tree. -/

/-- The digest of the first row. -/
def firstDigest : Str := "9c80cca62c8a3190126d6984b07c6f3f7cfcf5877482addce8e2f60011cf6dcb".toList

/-- The digest of the second row. -/
def secondDigest : Str :=
  "5124192734208212ca9ce7812a531c274fd2d9e42fc520b95ac64b6884d5c696".toList

/-- The digest of the pair. -/
def pairDigest : Str := "6444b252ba800e0b8b56982faa78726eaadde72c5b88e031d44af0df50c6d455".toList

set_option maxRecDepth 20000 in
theorem firstRow_entryHash : firstRow.entryHash = firstDigest := by decide +kernel

set_option maxRecDepth 20000 in
theorem secondRow_entryHash : secondRow.entryHash = secondDigest := by decide +kernel

set_option maxRecDepth 20000 in
theorem merkleNode_digests : merkleNode firstDigest secondDigest = pairDigest := by decide +kernel

/-- The rows of the stream. -/
def raceRows : List StorageCommit := [firstRow.column, secondRow.column]

theorem raceRows_hash : ∀ row ∈ raceRows, row.recomputed = row.entryHash := by
  intro row hrow
  simp only [raceRows, List.mem_cons, List.not_mem_nil, or_false] at hrow
  rcases hrow with rfl | rfl
  · exact ((spanTask []).sealed_commit 1 none noon).hash
  · exact ((spanTask _).sealed_commit 2 (some firstRow.entryHash) noon).hash

/-- No two of the texts hashed for the stream and its anchor collide. -/
theorem raceRows_injOn :
    Set.InjOn Sha256.hexdigest {x | x ∈ anchorInputs raceRows ++ anchorInputs raceRows} := by
  have hinputs : anchorInputs raceRows = [firstRow.column.material, secondRow.column.material,
    firstRow.entryHash ++ secondRow.entryHash] := rfl
  have hfirst : Sha256.hexdigest firstRow.column.material = firstDigest := by
    rw [← StorageCommit.recomputed_eq, raceRows_hash _ (by simp [raceRows])]
    exact firstRow_entryHash
  have hsecond : Sha256.hexdigest secondRow.column.material = secondDigest := by
    rw [← StorageCommit.recomputed_eq, raceRows_hash _ (by simp [raceRows])]
    exact secondRow_entryHash
  have hpair : Sha256.hexdigest (firstRow.entryHash ++ secondRow.entryHash) = pairDigest := by
    rw [firstRow_entryHash, secondRow_entryHash]
    exact merkleNode_digests
  have hnodup : ((anchorInputs raceRows).map Sha256.hexdigest).Nodup := by
    rw [hinputs]
    simp only [List.map_cons, List.map_nil, hfirst, hsecond, hpair]
    decide
  intro x hx y hy h
  exact List.inj_on_of_nodup_map hnodup (by simpa using hx) (by simpa using hy) h

/-- A row somebody added to a copy of the stream, skipping two versions. -/
def forgedRow : StorageCommit := (spanTask []).commit 5 (some secondRow.entryHash) noon

/-- The same stream in another file, with that row. -/
def forgedStore : Store :=
  { raceEnd with database := "copy.db".toList, commits := raceRows ++ [forgedRow.column] }

theorem forged_accepted : (verifyChain forgedStore "spans".toList).ok = true := by
  have hrows : forgedStore.selectStream "spans".toList = raceRows ++ [forgedRow.column] := rfl
  rw [verifyChain, hrows]
  refine verifyRows_ok.mpr ⟨⟨rfl, rfl, rfl, trivial⟩, fun row hrow ↦ ?_⟩
  rcases List.mem_append.mp hrow with hrow | hrow
  · exact raceRows_hash row hrow
  · rw [List.mem_singleton.mp hrow]
    exact ((spanTask []).sealed_commit 5 (some secondRow.entryHash) noon).hash

/-- The forged store still holds the anchored rows. -/
theorem forged_anchor_binding :
    List.Forall₂ SameEntry (forgedStore.selectUpTo "spans".toList 2)
      (raceEnd.selectUpTo "spans".toList 2) := by
  obtain ⟨c, hc, hst⟩ := raceAnchor_reachable ⟨fun _ _ p ↦ p, fun _ t ↦ some t⟩
  have hrecord : raceAnchor ∈ c.shared.anchors := by simp [hst]
  have hforged : forgedStore.selectUpTo "spans".toList 2 = raceRows := rfl
  have hhonest : c.shared.selectUpTo "spans".toList 2 = raceRows := by
    rw [hst]
    rfl
  have hroot : computeMerkleRoot (raceRows.map StorageCommit.entryHash) =
    some (merkleNode firstRow.entryHash secondRow.entryHash) := rfl
  have hverify : verifyAnchor forgedStore raceAnchor = true :=
    verifyAnchorRows_eq_true.mpr ⟨rfl, hforged ▸ hroot⟩
  have hversions : ((forgedStore.stream raceAnchor.streamId).map StorageCommit.version).Nodup :=
    show ([1, 2, 5] : List ℤ).Nodup by decide
  have h := anchor_binding hc (Or.inr hrecord) hversions
    (show Set.InjOn _ {x | x ∈ anchorInputs (forgedStore.selectUpTo "spans".toList 2) ++
      anchorInputs (c.shared.selectUpTo "spans".toList 2)} by
        rw [hforged, hhonest]; exact raceRows_injOn) forged_accepted hverify
  rw [hst] at h
  exact h

/-- A copy of the stream that ends in the same hash is the same stream. -/
theorem copy_chain_binding :
    List.Forall₂ SameEntry (raceEnd.selectStream "spans".toList)
      (({ raceEnd with database := "copy.db".toList } : Store).selectStream "spans".toList) := by
  have hok : (verifyRows none raceRows).ok = true :=
    verifyRows_ok.mpr ⟨⟨rfl, rfl, trivial⟩, raceRows_hash⟩
  refine chain_binding (raceRows_injOn.mono fun x hx ↦ ?_) hok hok rfl
  rcases List.mem_append.mp hx with hx | hx
  · exact List.mem_append_left _ (List.mem_append_left _ hx)
  · exact List.mem_append_right _ (List.mem_append_left _ hx)

end WiseTraceLoom
