import Mathlib.Data.List.AList
import Mathlib.Data.List.Sort

/-!
# Making room for a backup

Two ways to keep a bounded number of backups, in a table of them.

* `AList.shift` renames: the entry `name i` becomes `name (i + 1)`, the last one first, so that none
  of the renamed ones is overwritten by another.  `lookup_shift` says where an entry goes,
  `lookup_shift_of_ne` which ones stay, and `lookup_of_shift` that no entry comes from elsewhere.
* `outdated` deletes: it lists all but the latest `n` names.  A name is among them if and only if
  `n` others are later (`mem_outdated`); the others are the end of the sorted list
  (`mem_drop_insertionSort`).
-/

set_option autoImplicit false

/-! ## All but the latest -/

section Outdated

universe u

variable {α : Type u} [LinearOrder α] {l : List α} {n : ℕ} {x : α}

/-- All but the latest `n` of `l`. -/
def outdated (n : ℕ) (l : List α) : List α := (l.insertionSort (· ≤ ·)).take (l.length - n)

/-- Those of `l` that are later than `x`. -/
def laterThan (x : α) (l : List α) : List α := l.filter fun y ↦ x < y

theorem mem_laterThan {y : α} : y ∈ laterThan x l ↔ y ∈ l ∧ x < y := by
  rw [laterThan, List.mem_filter, decide_eq_true_iff]

theorem mem_of_mem_outdated (h : x ∈ outdated n l) : x ∈ l :=
  (List.perm_insertionSort _ l).subset (List.mem_of_mem_take h)

theorem pairwise_lt_insertionSort (h : l.Nodup) : (l.insertionSort (· ≤ ·)).Pairwise (· < ·) := by
  have hsort : (l.insertionSort (· ≤ ·)).Pairwise (· ≤ ·) := List.pairwise_insertionSort _ l
  have hnodup : (l.insertionSort (· ≤ ·)).Nodup := (List.perm_insertionSort _ l).nodup_iff.mpr h
  exact (hsort.and hnodup).imp fun h ↦ lt_of_le_of_ne h.1 h.2

/-- **A name is outdated** if and only if `n` others are later. -/
theorem mem_outdated (h : l.Nodup) (hx : x ∈ l) :
    x ∈ outdated n l ↔ n ≤ (laterThan x l).length := by
  have hperm := List.perm_insertionSort (· ≤ ·) l
  have hlt := pairwise_lt_insertionSort h
  obtain ⟨a, b, hab⟩ := List.append_of_mem (hperm.mem_iff.mpr hx)
  rw [hab, List.pairwise_append, List.pairwise_cons] at hlt
  obtain ⟨-, ⟨hb, -⟩, ha⟩ := hlt
  have hxa : x ∉ a := fun hmem ↦ lt_irrefl x (ha x hmem x (List.mem_cons_self))
  have hlater : (laterThan x l).length = b.length := by
    rw [laterThan, ← (hperm.filter _).length_eq, hab, List.filter_append,
      List.filter_cons_of_neg (by simp)]
    have hfa : a.filter (fun y ↦ decide (x < y)) = [] := by
      refine List.filter_eq_nil_iff.mpr fun y hy ↦ ?_
      simpa using (ha y hy x List.mem_cons_self).le
    have hfb : b.filter (fun y ↦ decide (x < y)) = b :=
      List.filter_eq_self.mpr fun y hy ↦ by simpa using hb y hy
    rw [hfa, hfb, List.nil_append]
  have hlen : l.length = a.length + (b.length + 1) := by
    rw [← hperm.length_eq, hab, List.length_append, List.length_cons]
  rw [outdated, hab, hlater, hlen, List.take_append, List.mem_append]
  constructor
  · rintro (hmem | hmem)
    · exact absurd (List.mem_of_mem_take hmem) hxa
    · have hpos := List.length_pos_of_mem hmem
      rw [List.length_take, List.length_cons] at hpos
      omega
  · intro hn
    right
    have hsucc : a.length + (b.length + 1) - n - a.length = b.length - n + 1 := by omega
    rw [hsucc, List.take_succ_cons]
    exact List.mem_cons_self

/-- A list with distinct members is sorted into the one list that has them in order. -/
theorem insertionSort_eq_of_mem_iff {m : List α} (hl : l.Nodup) (hm : m.Pairwise (· < ·))
    (h : ∀ x, x ∈ l ↔ x ∈ m) : l.insertionSort (· ≤ ·) = m := by
  have hperm : (l.insertionSort (· ≤ ·)).Perm m := (List.perm_insertionSort _ l).trans
    ((List.perm_ext_iff_of_nodup hl (hm.imp ne_of_lt)).mpr h)
  exact hperm.eq_of_pairwise (fun a b _ _ hab hba ↦ le_antisymm hab hba)
    (List.pairwise_insertionSort _ l) (hm.imp le_of_lt)

/-- What is not outdated are the latest. -/
theorem mem_drop_insertionSort (h : l.Nodup) :
    x ∈ (l.insertionSort (· ≤ ·)).drop (l.length - n) ↔ x ∈ l ∧ x ∉ outdated n l := by
  have hperm := List.perm_insertionSort (· ≤ ·) l
  have hnodup : (l.insertionSort (· ≤ ·)).Nodup := hperm.nodup_iff.mpr h
  constructor
  · intro hx
    exact ⟨hperm.subset (List.mem_of_mem_drop hx), fun hout ↦
      List.disjoint_take_drop hnodup le_rfl hout hx⟩
  · rintro ⟨hx, hout⟩
    have hmem : x ∈ l.insertionSort (· ≤ ·) := hperm.mem_iff.mpr hx
    rw [← List.take_append_drop (l.length - n) (l.insertionSort (· ≤ ·)), List.mem_append] at hmem
    exact hmem.resolve_left hout

/-- The names that make another outdated are not outdated themselves. -/
theorem exists_latest (h : l.Nodup) (hx : x ∈ l) (hn : n ≤ (laterThan x l).length) :
    ∃ d : List α, d.Nodup ∧ d.length = n ∧ ∀ y ∈ d, y ∈ l ∧ x < y ∧ y ∉ outdated n l := by
  have hperm := List.perm_insertionSort (· ≤ ·) l
  have hlt := pairwise_lt_insertionSort h
  have hnodup : (l.insertionSort (· ≤ ·)).Nodup := hperm.nodup_iff.mpr h
  refine ⟨(l.insertionSort (· ≤ ·)).drop (l.length - n), hnodup.sublist (List.drop_sublist _ _), ?_,
    fun y hy ↦ ⟨hperm.subset (List.mem_of_mem_drop hy), ?_, fun hout ↦ ?_⟩⟩
  · have hle := hn.trans (List.length_filter_le _ l)
    rw [List.length_drop, hperm.length_eq]
    omega
  · rw [← List.take_append_drop (l.length - n) (l.insertionSort (· ≤ ·)),
      List.pairwise_append] at hlt
    exact hlt.2.2 x ((mem_outdated h hx).mpr hn) y hy
  · exact List.disjoint_take_drop hnodup le_rfl hout hy

end Outdated

namespace AList

universe u v

variable {κ : Type u} {β : Type v} [DecidableEq κ] {b : AList fun _ : κ ↦ β} {i j k : κ} {x : β}

/-- The entry `i`, if there is one, becomes the entry `j`, in place of what was there. -/
def move (b : AList fun _ : κ ↦ β) (i j : κ) : AList fun _ : κ ↦ β :=
  match b.lookup i with
  | none => b
  | some x => (b.erase i).insert j x

theorem lookup_move (h : b.lookup i = some x) : (b.move i j).lookup j = some x := by
  rw [move, h]
  exact lookup_insert _

theorem lookup_move_of_ne (hi : k ≠ i) (hj : k ≠ j) : (b.move i j).lookup k = b.lookup k := by
  rw [move]
  split
  · rfl
  · rw [lookup_insert_ne hj, lookup_erase_ne hi]

theorem lookup_of_erase (h : (b.erase j).lookup k = some x) : b.lookup k = some x := by
  have hk : k ≠ j := by
    rintro rfl
    rw [lookup_erase] at h
    exact Option.some_ne_none x h.symm
  rwa [lookup_erase_ne hk] at h

theorem lookup_of_move (h : (b.move i j).lookup k = some x) :
    b.lookup k = some x ∨ b.lookup i = some x := by
  rw [move] at h
  split at h
  · exact .inl h
  · rename_i y hy
    by_cases hk : k = j
    · subst hk
      rw [lookup_insert] at h
      exact .inr (hy.trans h)
    · rw [lookup_insert_ne hk] at h
      exact .inl (lookup_of_erase h)

theorem mem_of_move (h : k ∈ b.move i j) : k ∈ b ∨ k = j := by
  rw [move] at h
  split at h
  · exact .inl h
  · rcases (mem_insert _).mp h with h | h
    · exact .inr h
    · exact .inl (mem_erase.mp h).2

/-- The table without the entries `l`. -/
def eraseAll (b : AList fun _ : κ ↦ β) (l : List κ) : AList fun _ : κ ↦ β :=
  l.foldl (fun b k ↦ b.erase k) b

theorem mem_eraseAll {l : List κ} : k ∈ b.eraseAll l ↔ k ∈ b ∧ k ∉ l := by
  induction l generalizing b with
  | nil => simp [eraseAll]
  | cons j l ih =>
    have hcons : b.eraseAll (j :: l) = (b.erase j).eraseAll l := rfl
    rw [hcons, ih, mem_erase, List.mem_cons]
    tauto

theorem lookup_eraseAll {l : List κ} (h : k ∉ l) : (b.eraseAll l).lookup k = b.lookup k := by
  induction l generalizing b with
  | nil => rfl
  | cons j l ih =>
    rw [List.mem_cons, not_or] at h
    have hcons : b.eraseAll (j :: l) = (b.erase j).eraseAll l := rfl
    rw [hcons, ih h.2, lookup_erase_ne h.1]

theorem lookup_of_eraseAll {l : List κ} (h : (b.eraseAll l).lookup k = some x) :
    b.lookup k = some x := by
  induction l generalizing b with
  | nil => exact h
  | cons j l ih => exact lookup_of_erase (ih h)

/-! ## Shifting -/

variable {name : ℕ → κ} {m : ℕ}

/-- The entries `name m`, …, `name 1` move one place up, in this order. -/
def shift (name : ℕ → κ) : ℕ → AList (fun _ : κ ↦ β) → AList fun _ : κ ↦ β
  | 0, b => b
  | m + 1, b => shift name m (b.move (name (m + 1)) (name (m + 2)))

/-- An entry that is none of the numbered ones stays. -/
theorem lookup_shift_of_ne (hk : ∀ i, 1 ≤ i → i ≤ m + 1 → k ≠ name i) :
    (shift name m b).lookup k = b.lookup k := by
  induction m generalizing b with
  | zero => rfl
  | succ m ih =>
    rw [shift, ih fun i h1 hi ↦ hk i h1 (Nat.le_succ_of_le hi)]
    exact lookup_move_of_ne (hk _ (Nat.le_add_left 1 m) (Nat.le_succ _)) (hk _ (by omega) le_rfl)

/-- A numbered entry goes one place up. -/
theorem lookup_shift (hname : Function.Injective name) {i : ℕ} (h1 : 1 ≤ i) (hi : i ≤ m)
    (h : b.lookup (name i) = some x) : (shift name m b).lookup (name (i + 1)) = some x := by
  induction m generalizing b with
  | zero => omega
  | succ m ih =>
    rw [shift]
    rcases Nat.lt_or_eq_of_le hi with hlt | rfl
    · refine ih (Nat.le_of_lt_succ hlt) ?_
      rw [lookup_move_of_ne (hname.ne (by omega)) (hname.ne (by omega)), h]
    · -- moved to the last place, which the moves after this one do not touch
      rw [lookup_shift_of_ne fun j _ hj ↦ hname.ne (by omega), lookup_move h]

/-- A place stays empty if nothing is before it. -/
theorem lookup_shift_none (hname : Function.Injective name) {i : ℕ} (hi : i ≤ m)
    (h : b.lookup (name i) = none) (hnext : b.lookup (name (i + 1)) = none) :
    (shift name m b).lookup (name (i + 1)) = none := by
  induction m generalizing b with
  | zero => exact hnext
  | succ m ih =>
    rw [shift]
    cases hlast : b.lookup (name (m + 1)) with
    | none =>
      have hmove : b.move (name (m + 1)) (name (m + 2)) = b := by rw [move, hlast]
      rw [hmove]
      rcases Nat.lt_or_eq_of_le hi with hlt | rfl
      · exact ih (Nat.le_of_lt_succ hlt) h hnext
      · rwa [lookup_shift_of_ne fun j _ hj ↦ hname.ne (by omega)]
    | some x =>
      have hne (j : ℕ) (hj : b.lookup (name j) = none) : j ≠ m + 1 := by
        rintro rfl
        rw [hlast] at hj
        exact Option.some_ne_none x hj
      have hlt := hne i h
      have hlt' := hne (i + 1) hnext
      refine ih (by omega) ?_ ?_
      · rwa [lookup_move_of_ne (hname.ne hlt) (hname.ne (by omega))]
      · rwa [lookup_move_of_ne (hname.ne hlt') (hname.ne (by omega))]

/-- The only names that come in are those of numbers. -/
theorem mem_of_shift (h : k ∈ shift name m b) : k ∈ b ∨ ∃ i ≤ m, k = name (i + 1) := by
  induction m generalizing b with
  | zero => exact .inl h
  | succ m ih =>
    rcases ih h with h | ⟨i, hi, rfl⟩
    · exact (mem_of_move h).imp_right fun h ↦ ⟨m + 1, le_rfl, h⟩
    · exact .inr ⟨i, Nat.le_succ_of_le hi, rfl⟩

/-- No entry comes from elsewhere. -/
theorem lookup_of_shift (h : (shift name m b).lookup k = some x) :
    b.lookup k = some x ∨ ∃ i, b.lookup (name i) = some x := by
  induction m generalizing b with
  | zero => exact .inl h
  | succ m ih =>
    rcases ih h with h | ⟨i, h⟩
    · exact (lookup_of_move h).imp_right fun h ↦ ⟨_, h⟩
    · rcases lookup_of_move h with h | h
      · exact .inr ⟨_, h⟩
      · exact .inr ⟨_, h⟩

end AList
