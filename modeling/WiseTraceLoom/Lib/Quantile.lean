import Mathlib.Algebra.Order.Floor.Ring
import Mathlib.Data.List.Sort
import Mathlib.Data.Rat.Floor

/-!
# Quantiles by nearest rank

The quantile of order `φ` of a list is the element at which counting from the smallest one reaches
the fraction `φ` of the list: at least so many are up to it, and fewer are below it.  `IsQuantile`
says this by counting alone, without an order of the list, and that is enough for a quantile to be
the only one, to be that of every rearrangement of the list, and to grow with the list.

Where it is found is another matter: in the sorted list, at the position `⌈φ * n⌉ - 1`, which is
`rank φ n`.

## What is here

* `IsQuantile.perm`, `IsQuantile.le_of_forall₂`, `IsQuantile.unique`: what follows from the counts.
* `countP_of_pairwise`: how many elements of a sorted list are below the one at a position, and how
  many are up to it.
* `isQuantile_of_getElem?`: nearest rank.
-/

set_option autoImplicit false

namespace Quantile

universe u

variable {α : Type u} [LinearOrder α] {φ : ℚ} {l m : List α} {r r' : α}

/-- An element that a fraction `φ` of the list does not exceed, and less than that fraction is
below. -/
structure IsQuantile (φ : ℚ) (l : List α) (r : α) : Prop where
  /-- It is one of the list. -/
  mem : r ∈ l
  /-- At least the fraction is up to it. -/
  le : φ * l.length ≤ l.countP (· ≤ r)
  /-- Less than the fraction is below it. -/
  lt : (l.countP (· < r) : ℚ) < φ * l.length

instance (φ : ℚ) (l : List α) (r : α) : Decidable (IsQuantile φ l r) :=
  decidable_of_iff (r ∈ l ∧ φ * l.length ≤ l.countP (· ≤ r) ∧
    (l.countP (· < r) : ℚ) < φ * l.length) ⟨fun h ↦ ⟨h.1, h.2.1, h.2.2⟩, fun h ↦ ⟨h.1, h.2, h.3⟩⟩

/-! ## What the counts say -/

/-- **A rearrangement has the same quantiles.** -/
theorem IsQuantile.perm (h : IsQuantile φ l r) (hperm : l.Perm m) : IsQuantile φ m r where
  mem := hperm.mem_iff.mp h.mem
  le := by
    rw [← hperm.length_eq, ← hperm.countP_eq]
    exact h.le
  lt := by
    rw [← hperm.length_eq, ← hperm.countP_eq]
    exact h.lt

/-- Elements that get larger get above a bound. -/
theorem countP_le_of_forall₂ (h : List.Forall₂ (· ≤ ·) l m) (x : α) :
    m.countP (· ≤ x) ≤ l.countP (· ≤ x) := by
  induction h with
  | nil => exact le_rfl
  | @cons a b l m hab _ ih =>
    rw [List.countP_cons, List.countP_cons]
    by_cases hb : b ≤ x
    · simpa [hb, hab.trans hb] using ih
    · simpa [hb] using ih.trans (Nat.le_add_right _ _)

/-- **A quantile does not get smaller** when the elements get larger. -/
theorem IsQuantile.le_of_forall₂ (h : IsQuantile φ l r) (h' : IsQuantile φ m r')
    (hlm : List.Forall₂ (· ≤ ·) l m) : r ≤ r' := by
  by_contra hlt
  rw [not_le] at hlt
  -- what is up to `r'` is below `r`, and that is too little
  have hcount : m.countP (· ≤ r') ≤ l.countP (· < r) := by
    refine (countP_le_of_forall₂ hlm r').trans (List.countP_mono_left fun x _ hx ↦ ?_)
    exact decide_eq_true ((of_decide_eq_true hx).trans_lt hlt)
  have hfew : φ * l.length < φ * l.length :=
    calc φ * l.length = φ * m.length := by rw [hlm.length_eq]
      _ ≤ m.countP (· ≤ r') := h'.le
      _ ≤ l.countP (· < r) := by exact_mod_cast hcount
      _ < φ * l.length := h.lt
  exact lt_irrefl _ hfew

/-- **There is at most one quantile.** -/
theorem IsQuantile.unique (h : IsQuantile φ l r) (h' : IsQuantile φ l r') : r = r' :=
  le_antisymm (h.le_of_forall₂ h' (List.forall₂_refl l)) (h'.le_of_forall₂ h (List.forall₂_refl l))

/-! ## Nearest rank -/

/-- **Ranks in a sorted list**: no more than `i` elements are below the one at `i`, and more than
`i` are up to it. -/
theorem countP_of_pairwise {i : ℕ} (hl : l.Pairwise (· ≤ ·)) (hi : l[i]? = some r) :
    l.countP (· < r) ≤ i ∧ i < l.countP (· ≤ r) := by
  induction l generalizing i with
  | nil => cases hi
  | cons a l ih =>
    obtain ⟨ha, hl⟩ := List.pairwise_cons.mp hl
    rw [List.countP_cons, List.countP_cons]
    cases i with
    | zero =>
      obtain rfl := Option.some.inj hi
      have hnone : l.countP (· < a) = 0 :=
        List.countP_eq_zero.mpr fun b hb hlt ↦ (ha b hb).not_gt (of_decide_eq_true hlt)
      simp [hnone]
    | succ i =>
      rw [List.getElem?_cons_succ] at hi
      obtain ⟨hbelow, hupto⟩ := ih hl hi
      have har : a ≤ r := ha r (List.mem_of_getElem? hi)
      refine ⟨?_, by simpa [har] using hupto⟩
      split_ifs <;> omega

/-- The position of the quantile among `n` elements in their order. -/
def rank (φ : ℚ) (n : ℕ) : ℕ := ⌈φ * n⌉₊ - 1

theorem rank_lt {n : ℕ} (hφ : φ ≤ 1) (hn : 0 < n) : rank φ n < n := by
  have hceil : ⌈φ * n⌉₊ ≤ n := by
    rw [Nat.ceil_le]
    exact mul_le_of_le_one_left (Nat.cast_nonneg _) hφ
  rw [rank]
  omega

/-- The position in integers, where it might be negative. -/
theorem rank_cast (hφ : 0 ≤ φ) (n : ℕ) : (rank φ n : ℤ) = max 0 (⌈φ * n⌉ - 1) := by
  have hceil : (⌈φ * n⌉₊ : ℤ) = ⌈φ * n⌉ :=
    Int.natCast_ceil_eq_ceil (mul_nonneg hφ (Nat.cast_nonneg _))
  rw [rank]
  omega

/-- **Nearest rank**: the quantile is at its position in the sorted list. -/
theorem isQuantile_of_getElem? (hφ : 0 < φ)
    (h : (l.insertionSort (· ≤ ·))[rank φ l.length]? = some r) : IsQuantile φ l r := by
  have hperm : (l.insertionSort (· ≤ ·)).Perm l := List.perm_insertionSort _ l
  obtain ⟨hbelow, hupto⟩ := countP_of_pairwise (List.pairwise_insertionSort _ l) h
  rw [hperm.countP_eq, rank] at hbelow hupto
  have hmem : r ∈ l := hperm.mem_iff.mp (List.mem_of_getElem? h)
  have hlength : (0 : ℚ) < l.length := by exact_mod_cast List.length_pos_of_mem hmem
  have hrank : 0 < ⌈φ * l.length⌉₊ := Nat.ceil_pos.mpr (mul_pos hφ hlength)
  exact ⟨hmem, Nat.ceil_le.mp (by omega), Nat.lt_ceil.mp (by omega)⟩

end Quantile
