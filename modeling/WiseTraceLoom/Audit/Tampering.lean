import WiseTraceLoom.Audit.Binding

/-!
# Where tampering is found

`verify_chain` returns the first version that it finds broken.  That need not be a row that has been
changed: rows that were written anew, with hashes that fit, are accepted, and the chain is broken
behind them.  But it cannot be far behind.  As long as a row further on is still the old one, or
only its hash is, the version that is returned is not beyond that row; and nothing is returned up to
there unless something has been changed up to there (`tampering_located`).
-/

set_option autoImplicit false

namespace WiseTraceLoom

open NumberedLog HashChain

/-! ## The loop on a longer list -/

/-- Accepted rows are gone past. -/
theorem verifyRows_append {p : Option Str} {rows : List StorageCommit}
    (h : (verifyRows p rows).ok = true) (later : List StorageCommit) :
    verifyRows p (rows ++ later) =
      verifyRows ((tip StorageCommit.entryHash rows).or p) later := by
  induction rows generalizing p with
  | nil => rfl
  | cons row rows ih =>
    rw [verifyRows] at h
    split_ifs at h with hprev hhash
    rw [List.cons_append, verifyRows, if_neg hprev, if_neg hhash, ih h]
    rcases List.eq_nil_or_concat rows with rfl | ⟨front, last, rfl⟩
    · rfl
    · rw [List.concat_eq_append, ← List.cons_append, tip_concat, tip_concat]
      rfl

/-- What is broken is broken whatever comes later. -/
theorem verifyRows_append_of_broken {p : Option Str} {rows : List StorageCommit}
    (h : (verifyRows p rows).ok ≠ true) (later : List StorageCommit) :
    verifyRows p (rows ++ later) = verifyRows p rows := by
  induction rows generalizing p with
  | nil => exact absurd rfl h
  | cons row rows ih =>
    rw [List.cons_append, verifyRows, verifyRows]
    rw [verifyRows] at h
    split_ifs at h ⊢
    · rfl
    · rfl
    · exact ih h

/-- The version that is returned is one of a row. -/
theorem verifyRows_version {p : Option Str} {rows : List StorageCommit} {v : ℤ}
    (h : (verifyRows p rows).brokenAtVersion = some v) : ∃ row ∈ rows, row.version = v := by
  induction rows generalizing p with
  | nil => cases h
  | cons row rows ih =>
    rw [verifyRows] at h
    split_ifs at h
    · exact ⟨row, List.mem_cons_self, Option.some.inj h⟩
    · exact ⟨row, List.mem_cons_self, Option.some.inj h⟩
    · obtain ⟨r, hr, hv⟩ := ih h
      exact ⟨r, List.mem_cons_of_mem _ hr, hv⟩

theorem exists_version_of_broken {p : Option Str} {rows : List StorageCommit}
    (h : (verifyRows p rows).ok ≠ true) : ∃ v, (verifyRows p rows).brokenAtVersion = some v := by
  induction rows generalizing p with
  | nil => exact absurd rfl h
  | cons row rows ih =>
    rw [verifyRows] at h ⊢
    split_ifs at h ⊢
    · exact ⟨_, rfl⟩
    · exact ⟨_, rfl⟩
    · exact ih h

/-! ## The rows up to a version -/

section Distinct

variable {st : Store} {s : Str} (hversions : ((st.stream s).map StorageCommit.version).Nodup)

theorem Store.mem_selectStream {row : StorageCommit} :
    row ∈ st.selectStream s ↔ row ∈ st.stream s := List.mem_insertionSort _

theorem Store.mem_selectUpTo {row : StorageCommit} {v : ℤ} :
    row ∈ st.selectUpTo s v ↔ row ∈ st.selectStream s ∧ row.version ≤ v := by
  rw [Store.selectUpTo, List.mem_insertionSort, List.mem_filter, Store.mem_selectStream]
  simp

theorem Store.selectUpTo_sorted (v : ℤ) :
    (st.selectUpTo s v).Pairwise fun a b ↦ a.version ≤ b.version :=
  List.pairwise_insertionSort _ _

include hversions

/-- Rows with the same version are the same. -/
theorem Store.eq_of_version {a b : StorageCommit} (ha : a ∈ st.selectStream s)
    (hb : b ∈ st.selectStream s) (h : a.version = b.version) : a = b :=
  List.inj_on_of_nodup_map hversions (Store.mem_selectStream.mp ha) (Store.mem_selectStream.mp hb) h

/-- The rows up to a version come first. -/
theorem Store.selectStream_split (v : ℤ) : ∃ later,
    st.selectStream s = st.selectUpTo s v ++ later ∧ ∀ row ∈ later, v < row.version := by
  let later := ((st.stream s).filter fun row ↦ !decide (row.version ≤ v)).insertionSort
    fun a b ↦ a.version ≤ b.version
  have hlater : ∀ row ∈ later, v < row.version := fun row hrow ↦ by
    rw [List.mem_insertionSort, List.mem_filter] at hrow
    simpa using hrow.2
  refine ⟨later, ?_, hlater⟩
  have hperm : (st.selectStream s).Perm (st.selectUpTo s v ++ later) :=
    (List.perm_insertionSort _ _).trans <| .trans (List.filter_append_perm _ _).symm
      ((List.perm_insertionSort _ _).symm.append (List.perm_insertionSort _ _).symm)
  refine hperm.eq_of_pairwise (fun a b ha hb hab hba ↦ ?_) (List.pairwise_insertionSort _ _)
    (List.pairwise_append.mpr ⟨Store.selectUpTo_sorted v, List.pairwise_insertionSort _ _, ?_⟩)
  · exact Store.eq_of_version hversions ha (hperm.mem_iff.mpr hb) (le_antisymm hab hba)
  · intro a ha b hb
    exact (Store.mem_selectUpTo.mp ha).2.trans (hlater b hb).le

/-- The last of them is the one with that version. -/
theorem Store.tip_selectUpTo {row : StorageCommit} (hrow : row ∈ st.selectStream s) :
    tip StorageCommit.entryHash (st.selectUpTo s row.version) = some row.entryHash := by
  have hmem : row ∈ st.selectUpTo s row.version := Store.mem_selectUpTo.mpr ⟨hrow, le_rfl⟩
  rcases List.eq_nil_or_concat (st.selectUpTo s row.version) with hnil | ⟨front, last, hlast⟩
  · rw [hnil] at hmem
    exact absurd hmem List.not_mem_nil
  · rw [List.concat_eq_append] at hlast
    have hsorted : (st.selectUpTo s row.version).Pairwise fun a b ↦ a.version ≤ b.version :=
      Store.selectUpTo_sorted row.version
    have hlastmem : last ∈ st.selectUpTo s row.version := by
      rw [hlast]
      exact List.mem_append_right _ (List.mem_singleton_self last)
    obtain ⟨hstream, hle⟩ := Store.mem_selectUpTo.mp hlastmem
    have hge : row.version ≤ last.version := by
      rw [hlast] at hmem hsorted
      rcases List.mem_append.mp hmem with hfront | hsingle
      · exact (List.pairwise_append.mp hsorted).2.2 row hfront last (List.mem_singleton_self last)
      · rw [List.mem_singleton.mp hsingle]
    rw [hlast, tip_concat, Store.eq_of_version hversions hstream hrow (le_antisymm hle hge)]

end Distinct

/-! ## The result -/

theorem Accepted.of_verifyRows {s : Str} {rows : List StorageCommit}
    (hs : ∀ row ∈ rows, row.streamId = s) (h : (verifyRows none rows).ok = true) :
    Accepted s rows := by
  obtain ⟨hlinked, hhash⟩ := verifyRows_ok.mp h
  exact ⟨hs, isPointer_of_linked (by rintro h ⟨⟩) hlinked hhash, fun row hrow ↦
    (hhash row hrow).symm⟩

/-- Rows with the same entries are accepted as well. -/
theorem verifyRows_of_sameEntry {p : Option Str} {l m : List StorageCommit}
    (hsame : List.Forall₂ SameEntry l m) (h : (verifyRows p m).ok = true) :
    (verifyRows p l).ok = true := by
  induction hsame generalizing p with
  | nil => rfl
  | @cons a b l m hab _ ih =>
    rw [verifyRows] at h ⊢
    have hrecomputed : a.recomputed = b.recomputed := by
      rw [a.recomputed_eq, b.recomputed_eq, hab.material]
    rw [hab.prevHash, hrecomputed, hab.entryHash]
    split_ifs at h ⊢
    exact ih h

/-- **Tampering is found where it is, or before the next row that is left.**  Let `st` hold anything
for a stream of an honest reachable state, with pairwise distinct versions, and let `kept` be a row
of it with the hash of an honest `row`.  Then `verify_chain` returns a version up to that of `kept`
exactly if the rows up to `kept` are not the entries up to `row`, one for one. -/
theorem tampering_located {ι : Type} [DecidableEq ι] {F : Fernet} {c : System ι}
    (hc : Reachable F c) {st : Store} {s : Str}
    (hversions : ((st.stream s).map StorageCommit.version).Nodup)
    (hsha : Set.InjOn Sha256.hexdigest
      {x | x ∈ chainInputs (st.selectStream s) ++ chainInputs (c.shared.selectStream s)})
    {row kept : StorageCommit} (hrow : row ∈ c.shared.selectStream s)
    (hkept : kept ∈ st.selectStream s) (hhash : kept.entryHash = row.entryHash) :
    (∃ v ≤ kept.version, (verifyChain st s).brokenAtVersion = some v) ↔
      ¬ List.Forall₂ SameEntry (st.selectUpTo s kept.version)
        (c.shared.selectUpTo s row.version) := by
  have hs := hc.auditOk.1.log s
  have hhonest : ((c.shared.stream s).map StorageCommit.version).Nodup :=
    (hs.numbered.pairwise.imp fun hab ↦ ne_of_lt hab).map _ fun _ _ h ↦ h
  obtain ⟨later, hsplit, hlater⟩ := Store.selectStream_split hversions kept.version
  obtain ⟨honestLater, hhonestSplit, -⟩ := Store.selectStream_split hhonest row.version
  -- the honest rows are accepted
  have haccepted : (verifyRows none (c.shared.selectUpTo s row.version)).ok = true := by
    have hall : (verifyChain c.shared s).ok = true := by rw [hs.verifyChain]
    by_contra hbroken
    rw [verifyChain, hhonestSplit, verifyRows_append_of_broken hbroken] at hall
    exact hbroken hall
  rw [verifyChain, hsplit]
  constructor
  · rintro ⟨v, hv, hbroken⟩ hsame
    rw [verifyRows_append (verifyRows_of_sameEntry hsame haccepted)] at hbroken
    obtain ⟨r, hr, rfl⟩ := verifyRows_version hbroken
    exact absurd (hlater r hr) (not_lt.mpr hv)
  · intro hdiffer
    have hbroken : (verifyRows none (st.selectUpTo s kept.version)).ok ≠ true := fun hok ↦ by
      have hstream (st : Store) (v : ℤ) : ∀ r ∈ st.selectUpTo s v, r.streamId = s := fun r hr ↦ by
        have hmem := Store.mem_selectStream.mp (Store.mem_selectUpTo.mp hr).1
        rw [Store.stream, List.mem_filter] at hmem
        simpa using hmem.2
      have hl := Accepted.of_verifyRows (hstream st _) hok
      have hm := Accepted.of_verifyRows (hstream c.shared _) haccepted
      refine hdiffer ((verifyRows_ok.mp hok).1.forall₂ (verifyRows_ok.mp haccepted).1
        (fun a ha b hb hab ↦ ?_) ?_)
      · have hsame : SameEntry a b := hl.sameEntry hm hsha ha hb
          (List.mem_append_left _ (List.mem_map_of_mem (Store.mem_selectUpTo.mp ha).1))
          (List.mem_append_right _ (List.mem_map_of_mem (Store.mem_selectUpTo.mp hb).1)) hab
        exact ⟨hsame, hsame.prevHash⟩
      · rw [Store.tip_selectUpTo hversions hkept, Store.tip_selectUpTo hhonest hrow, hhash]
    rw [verifyRows_append_of_broken hbroken]
    obtain ⟨v, hv⟩ := exists_version_of_broken hbroken
    obtain ⟨r, hr, rfl⟩ := verifyRows_version hv
    exact ⟨r.version, (Store.mem_selectUpTo.mp hr).2, hv⟩

/-- The stream of the two writers without its first row. -/
def shortenedStore : Store := { raceEnd with commits := [secondRow.column] }

/-- That the first row is gone is found at the second one. -/
theorem tampering_shortened : ∃ v ≤ 2,
    (verifyChain shortenedStore "spans".toList).brokenAtVersion = some v := by
  obtain ⟨c, hc, hst⟩ := race_reachable ⟨fun _ _ p ↦ p, fun _ t ↦ some t⟩
  have hhonest : c.shared.selectStream "spans".toList = raceRows := by
    rw [hst]
    rfl
  have hrows : shortenedStore.selectStream "spans".toList = [secondRow.column] := rfl
  have hupto : c.shared.selectUpTo "spans".toList 2 = raceRows := by
    rw [hst]
    rfl
  have hsha : Set.InjOn Sha256.hexdigest
      {x | x ∈ chainInputs (shortenedStore.selectStream "spans".toList) ++
        chainInputs (c.shared.selectStream "spans".toList)} := by
    rw [hrows, hhonest]
    refine raceRows_injOn.mono fun x hx ↦ ?_
    have hsub : chainInputs [secondRow.column] ⊆ chainInputs raceRows :=
      List.map_subset _ (List.subset_cons_self _ _)
    rcases List.mem_append.mp hx with hx | hx
    · exact List.mem_append_left _ (List.mem_append_left _ (hsub hx))
    · exact List.mem_append_left _ (List.mem_append_left _ hx)
  have hmem : secondRow.column ∈ c.shared.selectStream "spans".toList := by
    rw [hhonest]
    exact List.mem_cons_of_mem _ (List.mem_singleton_self _)
  have hversions :
      ((shortenedStore.stream "spans".toList).map StorageCommit.version).Nodup :=
    show ([2] : List ℤ).Nodup by decide
  refine (tampering_located hc hversions hsha hmem
    (hrows ▸ List.mem_singleton_self _) rfl).mpr fun hsame ↦ ?_
  have hlength := hsame.length_eq
  have hversion : secondRow.column.version = 2 := rfl
  rw [hversion, hupto] at hlength
  exact absurd hlength (by decide)

end WiseTraceLoom
