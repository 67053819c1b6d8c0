import WiseTraceLoom.Audit.Binding
import WiseTraceLoom.Lib.MerklePadding

/-!
# What the hashes leave open

`Audit.Binding` says what the hashes bind together with what is known of a whole stream.  Taken on
their own they bind less.

## What is here

* A Merkle root is the root of the *padded* list: `[a, b, c]` and `[a, b, c, c]` have the same one.
  `merkleRoot_inj_iff` is the exact statement, that equal roots mean equal lists except where two
  different lists have the same padding.
* The text that is hashed for a commit joins its fields by newlines, without escaping them, and
  writes no tenant like the empty one.  `entryHash_inj_iff` says which commits are still the only
  ones with their hash: those whose kind of event is a single line, whose tenant is there, is not
  empty and is a single line, and, for the first commit of a stream, whose stream has no line `1`
  after its first line.  For a later commit the hash of the one before it is in the text, and
  so is the stream.
-/

set_option autoImplicit false

namespace WiseTraceLoom

open NumberedLog HashChain Interleaving

/-! ## Merkle roots -/

/-- The texts `compute_merkle_root` hashes. -/
def merkleInputs (leafHashes : List Str) : List Str :=
  (MerkleTree.hashed merkleNode leafHashes.length leafHashes).map fun p ↦ p.1 ++ p.2

/-- **When a root determines its leaves**: equal roots mean equal lists, unless the lists differ and
have the same padding. -/
theorem merkleRoot_inj_iff {l m : List Str} (hl : l ≠ []) (hm : m ≠ [])
    (hdigest : ∀ a ∈ l ++ m, IsDigest a)
    (hsha : Set.InjOn Sha256.hexdigest {x | x ∈ merkleInputs l ++ merkleInputs m})
    (hleaf : ∀ a ∈ l ++ m, ∀ x ∈ merkleInputs l ++ merkleInputs m, Sha256.hexdigest x ≠ a) :
    (computeMerkleRoot l = computeMerkleRoot m → l = m) ↔
      l = m ∨ MerkleTree.pad l ≠ MerkleTree.pad m := by
  let pairs (l : List Str) := MerkleTree.hashed merkleNode l.length l
  let S : Set (Str × Str) := {p | p ∈ pairs l ++ pairs m}
  have hSin (p : Str × Str) (hp : p ∈ S) : p.1 ++ p.2 ∈ merkleInputs l ++ merkleInputs m := by
    rcases List.mem_append.mp hp with hp | hp
    · exact List.mem_append_left _ (List.mem_map.mpr ⟨p, hp, rfl⟩)
    · exact List.mem_append_right _ (List.mem_map.mpr ⟨p, hp, rfl⟩)
  have hSdigest (p : Str × Str) (hp : p ∈ S) : IsDigest p.1 ∧ IsDigest p.2 := by
    rcases List.mem_append.mp hp with hp | hp
    · exact MerkleTree.forall_hashed (fun _ _ ↦ isDigest_hexdigest _)
        (fun a ha ↦ hdigest a (List.mem_append_left _ ha)) p hp
    · exact MerkleTree.forall_hashed (fun _ _ ↦ isDigest_hexdigest _)
        (fun a ha ↦ hdigest a (List.mem_append_right _ ha)) p hp
  have hroot : computeMerkleRoot l = computeMerkleRoot m ↔ MerkleTree.pad l = MerkleTree.pad m :=
    MerkleTree.root_eq_root_iff (merkleNode_injOn hsha hSdigest hSin) hl hm
      (fun p hp ↦ List.mem_append_left _ hp) (fun p hp ↦ List.mem_append_right _ hp)
      fun a ha p hp ↦ hleaf a ha _ (hSin p hp)
  rw [hroot]
  tauto

/-- A leaf. -/
def leafOf (c : Char) : Str := List.replicate 64 c

/-- The digest of two leaves. -/
def leavesDigest : Str :=
  "fa0dafbf43f1f551e536353e9d1a942a8e86e41a0b58dfeaf264ef217f6b862a".toList

/-- The digest of the last leaf and its copy. -/
def copyDigest : Str :=
  "e5dc28d67309c1f3b41b160e5e06c7881007cde8f74949c9cf6c890ad1bdd032".toList

/-- The digest of the two. -/
def topDigest : Str := "f372961e0178fea099eb05057b8b6a363a21f7ee2456e6e17a8f92990d01d1f9".toList

set_option maxRecDepth 20000 in
theorem hexdigest_leaves : Sha256.hexdigest (leafOf 'a' ++ leafOf 'b') = leavesDigest := by
  decide +kernel

set_option maxRecDepth 20000 in
theorem hexdigest_copy : Sha256.hexdigest (leafOf 'c' ++ leafOf 'c') = copyDigest := by
  decide +kernel

set_option maxRecDepth 20000 in
theorem hexdigest_top : Sha256.hexdigest (leavesDigest ++ copyDigest) = topDigest := by
  decide +kernel

/-- Three leaves. -/
def threeLeaves : List Str := [leafOf 'a', leafOf 'b', leafOf 'c']

/-- The same leaves, and the last one once more. -/
def fourLeaves : List Str := threeLeaves ++ [leafOf 'c']

/-- What is hashed for three leaves is what is hashed for four. -/
theorem merkleInputs_leaves : merkleInputs threeLeaves =
      [leafOf 'a' ++ leafOf 'b', leafOf 'c' ++ leafOf 'c', leavesDigest ++ copyDigest] ∧
    merkleInputs fourLeaves = merkleInputs threeLeaves := by
  have hthree (a b c : Str) :
      merkleInputs [a, b, c] = [a ++ b, c ++ c, merkleNode a b ++ merkleNode c c] := rfl
  have hfour (a b c : Str) : merkleInputs ([a, b, c] ++ [c]) = merkleInputs [a, b, c] := rfl
  refine ⟨?_, hfour _ _ _⟩
  rw [threeLeaves, hthree, merkleNode, merkleNode, hexdigest_leaves, hexdigest_copy]

/-- The digests of these texts. -/
theorem map_hexdigest_leaves : (merkleInputs threeLeaves).map Sha256.hexdigest =
    [leavesDigest, copyDigest, topDigest] := by
  rw [merkleInputs_leaves.1]
  simp only [List.map_cons, List.map_nil, hexdigest_leaves, hexdigest_copy, hexdigest_top]

theorem leaves_isDigest : ∀ a ∈ threeLeaves ++ fourLeaves, IsDigest a := by
  have hleaf (c : Char) (hc : Sha256.isHex c = true) : IsDigest (leafOf c) :=
    ⟨List.length_replicate, fun d hd ↦ by rwa [List.eq_of_mem_replicate hd]⟩
  intro a ha
  simp only [threeLeaves, fourLeaves, List.mem_append, List.mem_cons, List.not_mem_nil,
    or_false] at ha
  rcases ha with (rfl | rfl | rfl) | (rfl | rfl | rfl) | rfl <;> exact hleaf _ rfl

theorem mem_leaves_inputs {x : Str} :
    x ∈ merkleInputs threeLeaves ++ merkleInputs fourLeaves ↔ x ∈ merkleInputs threeLeaves := by
  rw [merkleInputs_leaves.2, List.mem_append, or_self]

theorem leaves_injOn :
    Set.InjOn Sha256.hexdigest {x | x ∈ merkleInputs threeLeaves ++ merkleInputs fourLeaves} := by
  have hnodup : ((merkleInputs threeLeaves).map Sha256.hexdigest).Nodup := by
    rw [map_hexdigest_leaves]
    decide
  intro x hx y hy h
  exact List.inj_on_of_nodup_map hnodup (mem_leaves_inputs.mp hx) (mem_leaves_inputs.mp hy) h

theorem leaves_ne_hexdigest : ∀ a ∈ threeLeaves ++ fourLeaves,
    ∀ x ∈ merkleInputs threeLeaves ++ merkleInputs fourLeaves, Sha256.hexdigest x ≠ a := by
  have hne : ∀ a ∈ threeLeaves ++ fourLeaves, ∀ d ∈ [leavesDigest, copyDigest, topDigest],
      d ≠ a := by decide
  intro a ha x hx
  have hdigest := List.mem_map_of_mem (f := Sha256.hexdigest) (mem_leaves_inputs.mp hx)
  rw [map_hexdigest_leaves] at hdigest
  exact hne a ha _ hdigest

/-- **Two different lists of leaves with the same root.** -/
theorem merkle_collision : ¬∀ l m : List Str, l ≠ [] → m ≠ [] → (∀ a ∈ l ++ m, IsDigest a) →
    Set.InjOn Sha256.hexdigest {x | x ∈ merkleInputs l ++ merkleInputs m} →
    (∀ a ∈ l ++ m, ∀ x ∈ merkleInputs l ++ merkleInputs m, Sha256.hexdigest x ≠ a) →
    computeMerkleRoot l = computeMerkleRoot m → l = m := by
  intro h
  have hroot (a b c : Str) : computeMerkleRoot [a, b, c] = computeMerkleRoot ([a, b, c] ++ [c]) :=
    rfl
  have heq := h threeLeaves fourLeaves (by simp [threeLeaves]) (by simp [fourLeaves])
    leaves_isDigest leaves_injOn leaves_ne_hexdigest (hroot _ _ _)
  exact absurd (congrArg List.length heq) (by decide)

/-- The roots of the three and of the four leaves do not determine them. -/
theorem merkleRoot_threeLeaves :
    (computeMerkleRoot threeLeaves = computeMerkleRoot fourLeaves → threeLeaves = fourLeaves) ↔
      threeLeaves = fourLeaves ∨ MerkleTree.pad threeLeaves ≠ MerkleTree.pad fourLeaves :=
  merkleRoot_inj_iff (by simp [threeLeaves]) (by simp [fourLeaves]) leaves_isDigest leaves_injOn
    leaves_ne_hexdigest

/-! ## Commits -/

/-- What `compute_entry_hash` is given. -/
def StorageCommit.entry (row : StorageCommit) :
    Option Str × Str × ℤ × Str × Option Str × Str × Str :=
  (row.prevHash, row.streamId, row.version, row.recordType, row.tenantId, isoUtc row.committedAt,
    row.payload)

/-- In some run of some threads, `row` was appended to its stream right after the rows `before`. -/
def Appended (before : List StorageCommit) (row : StorageCommit) : Prop :=
  ∃ (F : Fernet) (ι : Type) (_ : DecidableEq ι) (c : System ι), Reachable F c ∧
    before ++ [row] <+: c.shared.stream row.streamId

/-- The text `t` goes on after `s` with the line `k`. -/
def NextLine (k s t : Str) : Prop :=
  ∃ r, t = s ++ '\n' :: r ∧ (r = k ∨ ∃ r', r = k ++ '\n' :: r')

/-- Nothing else has the hash of this commit. -/
structure StorageCommit.Unambiguous (row : StorageCommit) : Prop where
  /-- The kind of event is a single line. -/
  recordType : '\n' ∉ row.recordType
  /-- There is a tenant, and it is a single line. -/
  tenantId : ∃ t, row.tenantId = some t ∧ t ≠ [] ∧ '\n' ∉ t
  /-- A stream that is named in the first commit does not go on, after some line, with the version
  of that commit. -/
  streamId : row.prevHash = none → ∀ s, ¬NextLine ['1'] s row.streamId

/-! ### What appends produce -/

/-- A date is written on a single line. -/
theorem newline_not_mem_isoUtc (dt : Datetime) : '\n' ∉ isoUtc dt := by
  have hpad := @Text.not_mem_zeroPad '\n' (by decide) (by decide)
  have hoffset (n : ℤ) : '\n' ∉ isoOffset n := by
    rw [isoOffset]
    split_ifs <;> simp [hpad]
  rw [isoUtc, Datetime.isoformat]
  cases dt.utcoffset with
  | none => split_ifs <;> simp [hpad, hoffset]
  | some n => split_ifs <;> simp [hpad, hoffset]

theorem StorageCommit.Sealed.newline_not_mem {row : StorageCommit} (h : row.Sealed) :
    '\n' ∉ row.payload := by
  obtain ⟨payload, hpayload⟩ := h.json
  rw [hpayload]
  exact fun hmem ↦ absurd (Json.isPrintable_of_mem_dumps hmem) (by decide)

/-- A commit is read back without its offset. -/
theorem Reachable.naive {ι : Type} [DecidableEq ι] {F : Fernet} {c : System ι}
    (h : Reachable F c) : ∀ row ∈ c.shared.commits, row.committedAt.utcoffset = none := by
  obtain ⟨database, hrun⟩ := h
  refine hrun.invariant
    (I := fun c ↦ ∀ row ∈ c.shared.commits, row.committedAt.utcoffset = none) ?_
    (by simp [System.init, Store.create])
  intro d i s' t' hd hstep row hrow
  rcases hstep.append_or with ⟨a, a', -, -, happend⟩ | ⟨hcommits, -⟩
  · rcases happend.effect with rfl | ⟨t, k, v, p, now, -, hins⟩
    · exact hd row hrow
    · obtain ⟨-, rfl⟩ := Store.insertCommit_eq_some hins
      rcases List.mem_append.mp hrow with hrow | hrow
      · exact hd row hrow
      · rw [List.mem_singleton.mp hrow]
        rfl
  · rw [Config.set_shared, hcommits] at hrow
    exact hd row hrow

theorem Appended.streamOk {before : List StorageCommit} {row : StorageCommit}
    (h : Appended before row) : StreamOk (before ++ [row]) := by
  obtain ⟨F, ι, _, c, hc, hrows⟩ := h
  have hlog : StreamOk (c.shared.stream row.streamId) := hc.auditOk.1.log row.streamId
  exact StreamOk.of_prefix hlog hrows

theorem Appended.row {before : List StorageCommit} {row : StorageCommit}
    (h : Appended before row) : ∀ r ∈ before ++ [row],
      r.streamId = row.streamId ∧ r.committedAt.utcoffset = none := by
  obtain ⟨F, ι, _, c, hc, hrows⟩ := h
  intro r hr
  have hmem := hrows.subset hr
  rw [Store.stream, List.mem_filter] at hmem
  exact ⟨by simpa using hmem.2, hc.naive r hmem.1⟩

/-- A sealed row is one that an append can insert. -/
theorem StorageCommit.Sealed.exists_commit {row : StorageCommit} (hsealed : row.Sealed)
    (hnaive : row.committedAt.utcoffset = none) : ∃ payload : Payload,
      ((⟨row.streamId, row.recordType, row.tenantId, 1, payload⟩ : AppendTask).commit row.version
        row.prevHash row.committedAt.toTimestamp).column = row := by
  obtain ⟨hhash, payload, hpayload⟩ := hsealed
  obtain ⟨streamId, version, recordType, tenantId, text, ⟨now, offset⟩, prevHash, entryHash⟩ := row
  obtain rfl : offset = none := hnaive
  obtain rfl : text = Json.dumps (.obj payload) := hpayload
  exact ⟨payload, congrArg (StorageCommit.mk _ _ _ _ _ _ _) hhash⟩

/-- Appending a commit to a stream, with nothing else going on. -/
theorem Reachable.commit {F : Fernet} {c : System Unit} (hc : Reachable F c)
    (hidle : c.locals () = .idle) {row : StorageCommit}
    (hnaive : row.committedAt.utcoffset = none) (hsealed : row.Sealed)
    (hversion : row.version = (c.shared.stream row.streamId).length + 1)
    (hprev : row.prevHash = tip StorageCommit.entryHash (c.shared.stream row.streamId)) :
    ∃ d : System Unit, Reachable F d ∧ d.locals () = .idle ∧
      d.shared.commits = c.shared.commits ++ [row] := by
  obtain ⟨payload, hrow⟩ := hsealed.exists_commit hnaive
  let a : AppendArgs := ⟨row.streamId, row.recordType, payload, row.tenantId, 1⟩
  let t : AppendTask := ⟨row.streamId, row.recordType, row.tenantId, 1, payload⟩
  let now := row.committedAt.toTimestamp
  have hstream := hc.auditOk.1.log row.streamId
  have hnext : nextVersion c.shared t.streamId = row.version := hversion ▸ hstream.nextVersion
  have hlookup : prevEntryHash c.shared t.streamId row.version = .ok row.prevHash := by
    rw [hstream.prevEntryHash ⟨by omega, by omega⟩, hprev, Store.tipBefore,
      List.take_of_length_le (by omega)]
  have hinsert := Store.insertCommit_next (t := t) hstream row.prevHash now
  rw [hnext] at hinsert
  have hmask : AppendStep c.shared (.called a) c.shared (.ready t 0) :=
    .mask (fun p ↦ .ok (.dict p)) rfl
  have hversioned := (Solo.step .refl hmask).step (.readVersion Nat.one_pos)
  rw [hnext] at hversioned
  have hsolo := ((hversioned.step (.readPrev hlookup)).step (.stamp now)).step (.commit hinsert)
  have hstart : SystemStep F c.shared (c.locals ()) c.shared (.append (.called a)) :=
    hidle ▸ .start (.append a)
  have hrun := (Steps.thread (.refl : Runs F c c) () hstart).trans
    (Runs.append () rfl (Config.set_locals_self _ _ _ _) hsolo)
  refine ⟨_, hc.trans (Steps.thread hrun () .stop), Config.set_locals_self _ _ _ _, ?_⟩
  show c.shared.commits ++ [(t.commit row.version row.prevHash now).column] = _
  rw [hrow]

/-- **Every list of rows that looks like what appends leave is what some appends leave.** -/
theorem appended_of_streamOk {before : List StorageCommit} {row : StorageCommit}
    (hok : StreamOk (before ++ [row]))
    (hrow : ∀ r ∈ before ++ [row], r.streamId = row.streamId ∧ r.committedAt.utcoffset = none) :
    Appended before row := by
  let F : Fernet := ⟨fun _ _ p ↦ p, fun _ t ↦ some t⟩
  have hall (rows : List StorageCommit) (hrows : rows <+: before ++ [row]) :
      ∃ c : System Unit, Reachable F c ∧ c.locals () = .idle ∧ c.shared.commits = rows := by
    induction rows using List.reverseRecOn with
    | nil => exact ⟨System.init Unit [], ⟨[], .refl⟩, rfl, rfl⟩
    | append_singleton rows r ih =>
      obtain ⟨c, hc, hidle, hcommits⟩ := ih ((List.prefix_append _ _).trans hrows)
      have hokr := hok.of_prefix hrows
      have hr := hrow r (hrows.subset (by simp))
      have hstream : c.shared.stream r.streamId = rows := by
        rw [Store.stream, hcommits]
        refine List.filter_eq_self.mpr fun r' hr' ↦ ?_
        rw [(hrow r' (hrows.subset (by simp [hr']))).1, hr.1]
        simp
      obtain ⟨d, hd, hdidle, hdcommits⟩ := hc.commit hidle hr.2 (hokr.sealed r (by simp))
        (hstream ▸ (numbered_concat.mp hokr.numbered).2)
        (hstream ▸ (linked_concat.mp hokr.linked).2)
      exact ⟨d, hd, hdidle, hcommits ▸ hdcommits⟩
  obtain ⟨c, hc, -, hcommits⟩ := hall _ (List.prefix_refl _)
  refine ⟨F, Unit, inferInstance, c, hc, ?_⟩
  rw [Store.stream, hcommits, List.filter_eq_self.mpr fun r hr ↦ by rw [(hrow r hr).1]; simp]

/-! ### Taking the text apart -/

/-- Two texts with the same line after some lines: the lines before are the same, or one text goes
on with that line after all of the other. -/
theorem nextLine_cases {k s t x y : Str} (hk : '\n' ∉ k)
    (h : s ++ '\n' :: (k ++ '\n' :: x) = t ++ '\n' :: (k ++ '\n' :: y)) :
    s = t ∨ NextLine k s t ∨ NextLine k t s := by
  have hnext {s r x y : Str} (h : '\n' :: (k ++ '\n' :: x) = r ++ '\n' :: (k ++ '\n' :: y)) :
      s = s ++ r ∨ NextLine k s (s ++ r) := by
    cases r with
    | nil => exact Or.inl (List.append_nil s).symm
    | cons c r =>
      rw [List.cons_append, List.cons.injEq] at h
      obtain ⟨rfl, h⟩ := h
      refine Or.inr ⟨r, rfl, ?_⟩
      rcases List.append_eq_append_iff.mp h with ⟨u, hr, hu⟩ | ⟨u, hku, hu⟩
      · cases u with
        | nil => exact Or.inl (by rw [hr, List.append_nil])
        | cons c u =>
          rw [List.cons_append, List.cons.injEq] at hu
          exact Or.inr ⟨u, by rw [hr, hu.1]⟩
      · cases u with
        | nil => exact Or.inl (by rw [hku, List.append_nil])
        | cons c u =>
          rw [List.cons_append, List.cons.injEq] at hu
          exact absurd (by rw [hku, ← hu.1]; simp) hk
  rcases List.append_eq_append_iff.mp h with ⟨r, ht, hr⟩ | ⟨r, hs, hr⟩
  · rw [ht]
    exact (hnext hr).imp_right Or.inl
  · rw [hs]
    exact (hnext hr).imp Eq.symm Or.inr

/-- A text does not go on with two different lines. -/
theorem NextLine.unique {s t : Str} (h₁ : NextLine ['1'] s t) (h₂ : NextLine ['2'] s t) :
    False := by
  obtain ⟨r, rfl, hr⟩ := h₁
  obtain ⟨r', hrr, hr'⟩ := h₂
  have hsame := List.cons_injective (List.append_cancel_left hrr)
  subst hsame
  rcases hr with rfl | ⟨u, rfl⟩ <;> rcases hr' with h | ⟨u', h⟩ <;> simp at h

theorem NextLine.length_lt {k s t : Str} (h : NextLine k s t) : s.length < t.length := by
  obtain ⟨r, rfl, -⟩ := h
  simp

/-- The text that is hashed for a row, field by field. -/
theorem StorageCommit.material_lines (row : StorageCommit) : row.material =
    row.prevHash.getD [] ++ '\n' :: (row.streamId ++ '\n' :: (Text.ofInt row.version ++
      '\n' :: (row.recordType ++ '\n' :: (row.tenantId.getD [] ++
        '\n' :: (isoUtc row.committedAt ++ '\n' :: row.payload))))) := by
  simp [material, entryMaterial, Text.join, List.intercalate, List.intersperse]

/-- A row whose text can be taken apart at both ends. -/
structure StorageCommit.Lined (row : StorageCommit) : Prop where
  pointer : IsPointer row.prevHash
  payload : '\n' ∉ row.payload

/-- The number of line breaks in the text of a row. -/
theorem StorageCommit.Lined.count_material {row : StorageCommit} (h : row.Lined) :
    row.material.count '\n' = row.streamId.count '\n' + row.recordType.count '\n' +
      (row.tenantId.getD []).count '\n' + 6 := by
  have hprev := List.count_eq_zero.mpr h.pointer.newline_not_mem
  have hversion := List.count_eq_zero.mpr (newline_not_mem_ofInt row.version)
  have hiso := List.count_eq_zero.mpr (newline_not_mem_isoUtc row.committedAt)
  have hpayload := List.count_eq_zero.mpr h.payload
  simp only [material_lines, List.count_append, List.count_cons, hprev, hversion, hiso, hpayload,
    beq_self_eq_true, if_true]
  omega

/-- Two rows with the same text point at the same row, and if they have the same version too, the
rest after the pointer is the same. -/
theorem StorageCommit.Lined.of_material_eq {a b : StorageCommit} (ha : a.Lined) (hb : b.Lined)
    (h : a.material = b.material) : a.prevHash = b.prevHash ∧ (a.version = b.version →
      a.streamId = b.streamId ∨ NextLine (Text.ofInt a.version) a.streamId b.streamId ∨
        NextLine (Text.ofInt a.version) b.streamId a.streamId) := by
  rw [a.material_lines, b.material_lines] at h
  obtain ⟨hprev, hrest⟩ := Text.append_sep_inj ha.pointer.newline_not_mem
    hb.pointer.newline_not_mem h
  refine ⟨ha.pointer.getD_inj hb.pointer hprev, fun hversion ↦ ?_⟩
  rw [hversion] at hrest ⊢
  exact nextLine_cases (newline_not_mem_ofInt _) hrest

/-- A row whose kind of event and tenant are single lines is given by its text and its stream. -/
theorem StorageCommit.Lined.entry_eq {a b : StorageCommit} (ha : a.Lined) (hb : b.Lined)
    (htype : '\n' ∉ a.recordType) (htenant : ∃ t, a.tenantId = some t ∧ t ≠ [] ∧ '\n' ∉ t)
    (hstream : a.streamId = b.streamId) (h : a.material = b.material) : b.entry = a.entry := by
  obtain ⟨t, hat, htne, htline⟩ := htenant
  obtain ⟨hversion, hprev⟩ := material_inj ha.pointer hb.pointer hstream h
  have hcount := congrArg (List.count '\n') h
  rw [ha.count_material, hb.count_material, hat, Option.getD_some, List.count_eq_zero.mpr htype,
    List.count_eq_zero.mpr htline, hstream] at hcount
  have htypeb : '\n' ∉ b.recordType := List.count_eq_zero.mp (by omega)
  have htenantb : '\n' ∉ b.tenantId.getD [] := List.count_eq_zero.mp (by omega)
  rw [a.material_lines, b.material_lines, hprev, hstream, hversion, hat] at h
  have hlines := List.cons_injective (List.append_cancel_left (List.cons_injective
    (List.append_cancel_left (List.cons_injective (List.append_cancel_left h)))))
  obtain ⟨htypes, hlines⟩ := Text.append_sep_inj htype htypeb hlines
  obtain ⟨htenants, hlines⟩ := Text.append_sep_inj htline htenantb hlines
  obtain ⟨hiso, hpayload⟩ := Text.append_sep_inj (newline_not_mem_isoUtc _)
    (newline_not_mem_isoUtc _) hlines
  have hbt : b.tenantId = some t := by
    cases hb : b.tenantId with
    | none =>
      rw [hb] at htenants
      exact absurd htenants htne
    | some u =>
      rw [hb] at htenants
      exact congrArg some htenants.symm
  rw [entry, entry, hprev, hstream, hversion, htypes, hat, hbt, hiso, hpayload]

theorem StreamOk.lined {rows : List StorageCommit} (h : StreamOk rows) : ∀ r ∈ rows, r.Lined :=
  fun r hr ↦ ⟨isPointer_of_linked (by rintro _ ⟨⟩) h.linked
    (fun row hrow ↦ (h.sealed row hrow).hash) r hr, (h.sealed r hr).newline_not_mem⟩

/-- Two streams that end in the same hash have the same texts, row by row, unless SHA-256
collides. -/
theorem StreamOk.chainInputs_eq {l m : List StorageCommit} (hl : StreamOk l) (hm : StreamOk m)
    (hsha : Set.InjOn Sha256.hexdigest {x | x ∈ chainInputs l ++ chainInputs m})
    (htip : tip StorageCommit.entryHash l = tip StorageCommit.entryHash m) :
    chainInputs l = chainInputs m := by
  have hforall : List.Forall₂ (fun a b ↦ a.material = b.material) l m := by
    refine hl.linked.forall₂ hm.linked (fun a ha b hb hab ↦ ?_) htip
    have hmaterial : a.material = b.material := by
      refine hsha (List.mem_append_left _ (List.mem_map_of_mem ha))
        (List.mem_append_right _ (List.mem_map_of_mem hb)) ?_
      rw [← StorageCommit.recomputed_eq, ← StorageCommit.recomputed_eq, (hl.sealed a ha).hash,
        (hm.sealed b hb).hash, hab]
    exact ⟨hmaterial, ((hl.lined a ha).of_material_eq (hm.lined b hb) hmaterial).1⟩
  rw [chainInputs, chainInputs, ← List.forall₂_eq_eq_eq, List.forall₂_map_left_iff,
    List.forall₂_map_right_iff]
  exact hforall

/-- The texts of the first two rows determine the stream: it cannot go on with the line `1` and with
the line `2`. -/
theorem StreamOk.streamId_eq {l m : List StorageCommit} {s s' : Str} (hl : StreamOk l)
    (hm : StreamOk m) (hs : ∀ r ∈ l, r.streamId = s) (hs' : ∀ r ∈ m, r.streamId = s')
    (hlength : 2 ≤ l.length) (h : chainInputs l = chainInputs m) : s = s' := by
  have htwo {l : List StorageCommit} (hlength : 2 ≤ l.length) :
      ∃ a₁ a₂ rest, l = a₁ :: a₂ :: rest := by
    match l, hlength with
    | a₁ :: a₂ :: rest, _ => exact ⟨a₁, a₂, rest, rfl⟩
  have hlength' : m.length = l.length := by
    simpa [chainInputs] using (congrArg List.length h).symm
  obtain ⟨a₁, a₂, l, rfl⟩ := htwo hlength
  obtain ⟨b₁, b₂, m, rfl⟩ := htwo (hlength'.symm ▸ hlength)
  obtain ⟨h₁, htail⟩ := List.cons.inj h
  obtain ⟨h₂, -⟩ := List.cons.inj htail
  obtain ⟨hva₁, hva₂, -⟩ := hl.numbered
  obtain ⟨hvb₁, hvb₂, -⟩ := hm.numbered
  have hcases₁ := ((hl.lined a₁ (by simp)).of_material_eq (hm.lined b₁ (by simp)) h₁).2
    (hva₁.trans hvb₁.symm)
  have hcases₂ := ((hl.lined a₂ (by simp)).of_material_eq (hm.lined b₂ (by simp)) h₂).2
    (hva₂.trans hvb₂.symm)
  rw [hs a₁ (by simp), hs' b₁ (by simp), hva₁, show Text.ofInt 1 = ['1'] from rfl] at hcases₁
  rw [hs a₂ (by simp), hs' b₂ (by simp), hva₂, show Text.ofInt (1 + 1) = ['2'] from rfl] at hcases₂
  rcases hcases₁ with h | h | h
  · exact h
  · rcases hcases₂ with h' | h' | h'
    · exact h'
    · exact (h.unique h').elim
    · exact absurd h.length_lt (by have := h'.length_lt; omega)
  · rcases hcases₂ with h' | h' | h'
    · exact h'
    · exact absurd h.length_lt (by have := h'.length_lt; omega)
    · exact (h.unique h').elim

/-- The stream of an unambiguous first commit is the only one. -/
theorem StorageCommit.Unambiguous.streamId_eq {a b : StorageCommit} (h : a.Unambiguous)
    (ha : a.Lined) (hb : b.Lined) (hprev : a.prevHash = none) (hva : a.version = 1)
    (hvb : b.version = 1) (hmaterial : a.material = b.material) : a.streamId = b.streamId := by
  have hcases := (ha.of_material_eq hb hmaterial).2 (hva.trans hvb.symm)
  rw [hva, show Text.ofInt 1 = ['1'] from rfl] at hcases
  rcases hcases with heq | hnext | hnext
  · exact heq
  · -- the text of `b` would have one line more than that of `a`
    obtain ⟨t, hat, -, htline⟩ := h.tenantId
    have hcount := congrArg (List.count '\n') hmaterial
    rw [ha.count_material, hb.count_material, hat, Option.getD_some,
      List.count_eq_zero.mpr h.recordType, List.count_eq_zero.mpr htline] at hcount
    obtain ⟨r, hr, -⟩ := hnext
    rw [hr, List.count_append, List.count_cons_self] at hcount
    omega
  · exact absurd hnext (h.streamId hprev _)

/-! ### Commits with the same hash -/

variable {before : List StorageCommit} {row : StorageCommit}

theorem Appended.version (h : Appended before row) : row.version = before.length + 1 :=
  (numbered_concat.mp h.streamOk.numbered).2

theorem Appended.before_eq_nil (h : Appended before row) : row.prevHash = none ↔ before = [] := by
  rw [(linked_concat.mp h.streamOk.linked).2, tip_eq_none]

/-- A commit with other labels but the same text can be appended in the same place. -/
theorem Appended.relabel (h : Appended before row) {s y : Str} {t : Option Str}
    (hs : s = row.streamId ∨ before = [])
    (hmaterial : StorageCommit.material
      { row with streamId := s, recordType := y, tenantId := t } = row.material) :
    Appended before { row with streamId := s, recordType := y, tenantId := t } := by
  have hok := h.streamOk
  have hrow := h.row
  have hbefore : StreamOk before := hok.of_prefix (List.prefix_append _ _)
  refine appended_of_streamOk (hbefore.concat h.version (linked_concat.mp hok.linked).2
    ⟨?_, (hok.sealed row (by simp)).json⟩) fun r hr ↦ ?_
  · rw [StorageCommit.recomputed_eq, hmaterial]
    exact (hok.sealed row (by simp)).hash
  · rcases List.mem_append.mp hr with hbefore | hlast
    · rcases hs with rfl | rfl
      · exact hrow r (List.mem_append_left _ hbefore)
      · cases hbefore
    · rw [List.mem_singleton.mp hlast]
      exact ⟨rfl, (hrow row (by simp)).2⟩

/-- A commit that cannot be relabelled without a change to its text is unambiguous. -/
theorem Appended.unambiguous (h : Appended before row)
    (hsame : ∀ (s y : Str) (t : Option Str), s = row.streamId ∨ before = [] →
      StorageCommit.material { row with streamId := s, recordType := y, tenantId := t } =
        row.material → s = row.streamId ∧ y = row.recordType ∧ t = row.tenantId) :
    row.Unambiguous := by
  refine ⟨fun hline ↦ ?_, ?_, fun hprev s hnext ↦ ?_⟩
  · obtain ⟨x, y, hxy⟩ := List.append_of_mem hline
    have := (hsame row.streamId x (some (y ++ '\n' :: row.tenantId.getD [])) (Or.inl rfl) (by
      simp [StorageCommit.material_lines, hxy])).2.1
    simp [hxy] at this
  · cases htenant : row.tenantId with
    | none =>
      have := (hsame row.streamId row.recordType (some []) (Or.inl rfl) (by
        simp [StorageCommit.material_lines, htenant])).2.2
      simp [htenant] at this
    | some t =>
      refine ⟨t, rfl, fun hnil ↦ ?_, fun hline ↦ ?_⟩
      · have := (hsame row.streamId row.recordType none (Or.inl rfl) (by
          simp [StorageCommit.material_lines, htenant, hnil])).2.2
        simp [htenant] at this
      · obtain ⟨x, y, hxy⟩ := List.append_of_mem hline
        have := (hsame row.streamId (row.recordType ++ '\n' :: x) (some y) (Or.inl rfl) (by
          simp [StorageCommit.material_lines, htenant, hxy])).2.1
        simp at this
  · have hnil := h.before_eq_nil.mp hprev
    have hversion : Text.ofInt row.version = ['1'] := by
      rw [h.version, hnil]
      rfl
    obtain ⟨r, hr, rfl | ⟨r', rfl⟩⟩ := hnext
    · have := (hsame s ('1' :: '\n' :: row.recordType) row.tenantId (Or.inr hnil) (by
        simp [StorageCommit.material_lines, hversion, hr])).1
      simp [hr] at this
    · have := (hsame s (r' ++ '\n' :: '1' :: '\n' :: row.recordType) row.tenantId (Or.inr hnil) (by
        simp [StorageCommit.material_lines, hversion, hr])).1
      simp [hr] at this

/-- An unambiguous commit is the only one with its hash, unless SHA-256 collides on the texts of
the two streams. -/
theorem StorageCommit.Unambiguous.entry_eq {before' : List StorageCommit} {row' : StorageCommit}
    (hrow : row.Unambiguous) (h : Appended before row) (h' : Appended before' row')
    (hsha : Set.InjOn Sha256.hexdigest
      {x | x ∈ chainInputs (before ++ [row]) ++ chainInputs (before' ++ [row'])})
    (hhash : row'.entryHash = row.entryHash) : row'.entry = row.entry := by
  have hok := h.streamOk
  have hok' := h'.streamOk
  have hinputs := hok.chainInputs_eq hok' hsha (by rw [tip_concat, tip_concat, hhash])
  have hlength : before.length = before'.length := by
    simpa [chainInputs] using congrArg List.length hinputs
  have hlast : row.material = row'.material := by
    rw [chainInputs, chainInputs, List.map_append, List.map_append] at hinputs
    exact List.singleton_injective (List.append_inj_right' hinputs rfl)
  have hlined := hok.lined row (by simp)
  have hlined' := hok'.lined row' (by simp)
  refine hlined.entry_eq hlined' hrow.recordType hrow.tenantId ?_ hlast
  cases before with
  | nil =>
    have hversion' : row'.version = 1 := by rw [h'.version, ← hlength]; rfl
    exact hrow.streamId_eq hlined hlined' (h.before_eq_nil.mpr rfl) h.version hversion' hlast
  | cons a before =>
    exact hok.streamId_eq hok' (fun r hr ↦ (h.row r hr).1) (fun r hr ↦ (h'.row r hr).1)
      (by simp) hinputs

/-- **When a hash determines its commit**: every commit with the same hash, on whatever stream and
after whatever rows, agrees in all seven fields, exactly if the commit is unambiguous. -/
theorem entryHash_inj_iff (h : Appended before row)
    (hsha : Set.InjOn Sha256.hexdigest {x | x ∈ chainInputs (before ++ [row])}) :
    (∀ before' row', Appended before' row' →
      Set.InjOn Sha256.hexdigest
        {x | x ∈ chainInputs (before ++ [row]) ++ chainInputs (before' ++ [row'])} →
      row'.entryHash = row.entryHash → row'.entry = row.entry) ↔ row.Unambiguous := by
  refine ⟨fun hall ↦ h.unambiguous fun s y t hs hmaterial ↦ ?_,
    fun hrow before' row' h' hsha' hhash ↦ hrow.entry_eq h h' hsha' hhash⟩
  -- the relabelled commit hashes the same texts
  have hinputs : chainInputs (before ++
      [{ row with streamId := s, recordType := y, tenantId := t }]) =
      chainInputs (before ++ [row]) := by
    rw [chainInputs, chainInputs, List.map_append, List.map_append]
    exact congrArg (_ ++ [·]) hmaterial
  have heq := hall before _ (h.relabel hs hmaterial) (by
    rw [hinputs]
    exact hsha.mono fun x hx ↦ (List.mem_append.mp hx).elim id id) rfl
  simp only [StorageCommit.entry, Prod.mk.injEq] at heq
  exact ⟨heq.2.1, heq.2.2.2.1, heq.2.2.2.2.1⟩

/-- The first row of a stream, without a tenant. -/
def untenantedRow : StorageCommit :=
  ((⟨"spans".toList, "llm_span".toList, none, 1, []⟩ : AppendTask).commit 1 none noon).column

/-- The same event, of the tenant whose name is empty. -/
def emptyTenantRow : StorageCommit := { untenantedRow with tenantId := some [] }

theorem untenantedRow_appended : Appended [] untenantedRow := by
  refine appended_of_streamOk (streamOk_nil.concat rfl rfl (AppendTask.sealed_commit _ _ _ _)) ?_
  intro r hr
  rw [List.nil_append, List.mem_singleton] at hr
  rw [hr]
  exact ⟨rfl, rfl⟩

theorem untenantedRow_injOn :
    Set.InjOn Sha256.hexdigest {x | x ∈ chainInputs ([] ++ [untenantedRow])} :=
  fun _ hx _ hy _ ↦ (List.mem_singleton.mp hx).trans (List.mem_singleton.mp hy).symm

/-- **Two different commits with the same hash**: one of no tenant and one of the empty tenant. -/
theorem tenant_collision : ¬∀ before row before' row', Appended before row →
    Appended before' row' →
    Set.InjOn Sha256.hexdigest
      {x | x ∈ chainInputs (before ++ [row]) ++ chainInputs (before' ++ [row'])} →
    row'.entryHash = row.entryHash → row'.entry = row.entry := by
  intro h
  have happended : Appended [] emptyTenantRow := untenantedRow_appended.relabel (Or.inl rfl) rfl
  have heq := h [] untenantedRow [] emptyTenantRow untenantedRow_appended happended
    (untenantedRow_injOn.mono fun x hx ↦ (List.mem_append.mp hx).elim id id) rfl
  have htenant : (some [] : Option Str) = none := congrArg (fun e ↦ e.2.2.2.2.1) heq
  cases htenant

/-- Without a tenant a commit is not the only one with its hash. -/
theorem entryHash_untenantedRow : (∀ before' row', Appended before' row' →
      Set.InjOn Sha256.hexdigest
        {x | x ∈ chainInputs ([] ++ [untenantedRow]) ++ chainInputs (before' ++ [row'])} →
      row'.entryHash = untenantedRow.entryHash → row'.entry = untenantedRow.entry) ↔
    untenantedRow.Unambiguous :=
  entryHash_inj_iff untenantedRow_appended untenantedRow_injOn

end WiseTraceLoom
