import Mathlib.Algebra.Order.Group.Int
import Mathlib.Algebra.Order.Group.Unbundled.Int
import Mathlib.Data.List.Sort

/-!
# Gap-free numbered lists

A list of rows is *numbered* when its rows carry the numbers `1, 2, …, n`, in that order: the shape
an append-only log has when each new row takes the number after the largest one present and no two
rows may share a number.  `numbered_concat` is that step.  Everything a reader of such a log asks,
its largest number, the row with a given number, the rows up to a number and the rows after it, is
then read off the position in the list.
-/

set_option autoImplicit false

namespace NumberedLog

universe u

variable {α : Type u} (num : α → Int)

/-- The rows carry the numbers `k, k + 1, …`. -/
def NumberedFrom : Int → List α → Prop
  | _, [] => True
  | k, a :: l => num a = k ∧ NumberedFrom (k + 1) l

/-- The rows carry the numbers `1, …, n`. -/
def Numbered (l : List α) : Prop := NumberedFrom num 1 l

variable {num}

@[simp] theorem numberedFrom_nil (k : Int) : NumberedFrom num k [] := trivial

@[simp] theorem numberedFrom_cons {k : Int} {a : α} {l : List α} :
    NumberedFrom num k (a :: l) ↔ num a = k ∧ NumberedFrom num (k + 1) l := Iff.rfl

@[simp] theorem numbered_nil : Numbered num [] := trivial

theorem numberedFrom_append {k : Int} {l m : List α} :
    NumberedFrom num k (l ++ m) ↔ NumberedFrom num k l ∧ NumberedFrom num (k + l.length) m := by
  induction l generalizing k with
  | nil => simp
  | cons a l ih =>
    have hk : k + 1 + (l.length : Int) = k + ((a :: l).length : Int) := by
      rw [List.length_cons]; omega
    rw [List.cons_append, numberedFrom_cons, numberedFrom_cons, ih, hk, and_assoc]

/-- **Appending the next number.** -/
theorem numbered_concat {l : List α} {a : α} :
    Numbered num (l ++ [a]) ↔ Numbered num l ∧ num a = l.length + 1 := by
  rw [Numbered, numberedFrom_append, Numbered, numberedFrom_cons]
  simp only [numberedFrom_nil, and_true, add_comm]

/-- The start of a numbered list is numbered. -/
theorem Numbered.of_prefix {l m : List α} (h : Numbered num m) (hlm : l <+: m) :
    Numbered num l := by
  obtain ⟨t, rfl⟩ := hlm
  exact (numberedFrom_append.mp h).1

theorem NumberedFrom.bounds {k : Int} {l : List α} (h : NumberedFrom num k l) {a : α}
    (ha : a ∈ l) : k ≤ num a ∧ num a < k + l.length := by
  induction l generalizing k with
  | nil => simp at ha
  | cons b l ih =>
    rw [numberedFrom_cons] at h
    rw [List.length_cons]
    rcases List.mem_cons.mp ha with rfl | ha
    · omega
    · have := ih h.2 ha
      omega

theorem Numbered.bounds {l : List α} (h : Numbered num l) {a : α} (ha : a ∈ l) :
    1 ≤ num a ∧ num a ≤ l.length := by
  have := NumberedFrom.bounds h ha
  omega

/-- Changing rows without changing their numbers. -/
theorem NumberedFrom.map {k : Int} {l : List α} (h : NumberedFrom num k l) {f : α → α}
    (hf : ∀ a, num (f a) = num a) : NumberedFrom num k (l.map f) := by
  induction l generalizing k with
  | nil => trivial
  | cons a l ih => exact ⟨(hf a).trans h.1, ih h.2⟩

theorem Numbered.map {l : List α} (h : Numbered num l) {f : α → α}
    (hf : ∀ a, num (f a) = num a) : Numbered num (l.map f) := NumberedFrom.map h hf

/-- A number determines its row. -/
theorem NumberedFrom.injOn {k : Int} {l : List α} (h : NumberedFrom num k l) {a b : α} (ha : a ∈ l)
    (hb : b ∈ l) (hab : num a = num b) : a = b := by
  induction l generalizing k with
  | nil => simp at ha
  | cons c l ih =>
    have hfirst {d : α} (hd : d ∈ l) : num c ≠ num d := by
      have := (NumberedFrom.bounds h.2 hd).1
      have := h.1
      omega
    rcases List.mem_cons.mp ha with hac | ha
    · rcases List.mem_cons.mp hb with hbc | hb
      · rw [hac, hbc]
      · exact absurd (hac ▸ hab) (hfirst hb)
    · rcases List.mem_cons.mp hb with hbc | hb
      · exact absurd (hbc ▸ hab.symm) (hfirst ha)
      · exact ih h.2 ha hb

/-- The numbers of a numbered list, as a list. -/
theorem NumberedFrom.map_num {k : Int} {l : List α} (h : NumberedFrom num k l) :
    l.map num = (List.range l.length).map fun i : ℕ ↦ k + (i : Int) := by
  induction l generalizing k with
  | nil => rfl
  | cons a l ih =>
    rw [numberedFrom_cons] at h
    rw [List.map_cons, ih h.2, List.length_cons, List.range_succ_eq_map, List.map_cons, h.1,
      List.map_map]
    refine congrArg₂ _ (by simp) (List.map_congr_left fun i _ ↦ ?_)
    simp only [Function.comp_apply]
    omega

/-- **No gap and no duplicate**: the numbers are `1, …, n`. -/
theorem Numbered.map_num {l : List α} (h : Numbered num l) :
    l.map num = (List.range l.length).map fun i : ℕ ↦ (i : Int) + 1 := by
  rw [NumberedFrom.map_num h]
  exact List.map_congr_left fun i _ ↦ by omega

/-- A numbered list is strictly increasing. -/
theorem NumberedFrom.pairwise {k : Int} {l : List α} (h : NumberedFrom num k l) :
    l.Pairwise fun a b ↦ num a < num b := by
  induction l generalizing k with
  | nil => exact List.Pairwise.nil
  | cons a l ih =>
    rw [numberedFrom_cons] at h
    refine List.pairwise_cons.mpr ⟨fun b hb ↦ ?_, ih h.2⟩
    have := (h.2.bounds hb).1
    omega

theorem Numbered.pairwise {l : List α} (h : Numbered num l) :
    l.Pairwise fun a b ↦ num a < num b := NumberedFrom.pairwise h

/-- Sorting a numbered list by its numbers changes nothing. -/
theorem Numbered.insertionSort_eq {l : List α} (h : Numbered num l) :
    l.insertionSort (fun a b ↦ num a ≤ num b) = l :=
  (h.pairwise.imp fun hab ↦ hab.le).insertionSort_eq

/-- The row with number `v` is the only one with it. -/
theorem NumberedFrom.filter_eq {k v : Int} {l : List α} (h : NumberedFrom num k l) (hk : k ≤ v)
    (hv : v < k + l.length) : ∃ a ∈ l, num a = v ∧ l.filter (fun b ↦ decide (num b = v)) = [a] := by
  induction l generalizing k with
  | nil => rw [List.length_nil] at hv; omega
  | cons b l ih =>
    rw [numberedFrom_cons] at h
    rw [List.length_cons] at hv
    by_cases hb : num b = v
    · refine ⟨b, by simp, hb, ?_⟩
      have hnone : l.filter (fun b ↦ decide (num b = v)) = [] := by
        rw [List.filter_eq_nil_iff]
        intro c hc
        have := (h.2.bounds hc).1
        simp only [decide_eq_true_eq]
        omega
      rw [List.filter_cons_of_pos (by simpa using hb), hnone]
    · obtain ⟨a, ha, hav, hfilter⟩ := ih h.2 (by omega) (by omega)
      exact ⟨a, List.mem_cons_of_mem _ ha, hav, by
        rw [List.filter_cons_of_neg (by simpa using hb), hfilter]⟩

theorem Numbered.filter_eq {v : Int} {l : List α} (h : Numbered num l) (hk : 1 ≤ v)
    (hv : v ≤ l.length) : ∃ a ∈ l, num a = v ∧ l.filter (fun b ↦ decide (num b = v)) = [a] :=
  NumberedFrom.filter_eq h hk (by omega)

/-- The rows numbered up to `v` are the first `v` rows. -/
theorem NumberedFrom.filter_le {k : Int} {l : List α} (h : NumberedFrom num k l) (v : Int) :
    l.filter (fun a ↦ decide (num a ≤ v)) = l.take (v + 1 - k).toNat := by
  induction l generalizing k with
  | nil => simp
  | cons a l ih =>
    rw [numberedFrom_cons] at h
    by_cases hav : num a ≤ v
    · have hn : (v + 1 - k).toNat = (v + 1 - (k + 1)).toNat + 1 := by omega
      rw [List.filter_cons_of_pos (by simpa using hav), ih h.2, hn, List.take_succ_cons]
    · have hn : (v + 1 - k).toNat = 0 := by omega
      have hn' : (v + 1 - (k + 1)).toNat = 0 := by omega
      rw [List.filter_cons_of_neg (by simpa using hav), ih h.2, hn, hn', List.take_zero,
        List.take_zero]

theorem Numbered.filter_le {l : List α} (h : Numbered num l) (v : Int) :
    l.filter (fun a ↦ decide (num a ≤ v)) = l.take v.toNat := by
  rw [NumberedFrom.filter_le h v]
  congr 1
  omega

/-- **Splicing.**  The rows numbered up to `b`, followed by the rows numbered above `b` and up to
`v`, are the rows numbered up to `v`. -/
theorem NumberedFrom.filter_splice {k : Int} {l : List α} (h : NumberedFrom num k l) {b v : Int}
    (hbv : b ≤ v) :
    l.filter (fun a ↦ decide (num a ≤ b)) ++
        l.filter (fun a ↦ decide (b < num a) && decide (num a ≤ v)) =
      l.filter (fun a ↦ decide (num a ≤ v)) := by
  induction l generalizing k with
  | nil => rfl
  | cons a l ih =>
    rw [numberedFrom_cons] at h
    by_cases hab : num a ≤ b
    · have hlow : ¬ b < num a := by omega
      have hav : num a ≤ v := by omega
      simpa [hab, hlow, hav] using ih h.2
    · have hnone : l.filter (fun a ↦ decide (num a ≤ b)) = [] := by
        rw [List.filter_eq_nil_iff]
        intro c hc
        have := (h.2.bounds hc).1
        simp only [decide_eq_true_eq]
        omega
      have hall : l.filter (fun a ↦ decide (b < num a) && decide (num a ≤ v)) =
          l.filter (fun a ↦ decide (num a ≤ v)) := by
        refine List.filter_congr fun c hc ↦ ?_
        have hcb : b < num c := by
          have := (h.2.bounds hc).1
          omega
        simp [hcb]
      have hlow : b < num a := by omega
      simp [hab, hlow, hnone, hall, List.filter_cons]

theorem Numbered.filter_splice {l : List α} (h : Numbered num l) {b v : Int} (hbv : b ≤ v) :
    l.filter (fun a ↦ decide (num a ≤ b)) ++
        l.filter (fun a ↦ decide (b < num a) && decide (num a ≤ v)) =
      l.filter (fun a ↦ decide (num a ≤ v)) :=
  NumberedFrom.filter_splice h hbv

/-- The last row carries the largest number, and there are as many rows as that number says. -/
theorem Numbered.num_getLast {l : List α} (h : Numbered num l) (hl : l ≠ []) :
    num (l.getLast hl) = l.length := by
  have hsplit := List.dropLast_concat_getLast hl
  rw [← hsplit, numbered_concat] at h
  have hlen : l.dropLast.length + 1 = l.length := by
    have := List.length_pos_iff.mpr hl
    rw [List.length_dropLast]
    omega
  rw [h.2, ← hlen]
  push_cast
  rfl

/-- The largest number present, `0` for an empty list, is the length. -/
theorem Numbered.max?_getD {l : List α} (h : Numbered num l) :
    (l.map num).max?.getD 0 = l.length := by
  cases hl : l with
  | nil => rfl
  | cons a m =>
    rw [← hl]
    have hne : l ≠ [] := by simp [hl]
    have hmax : (l.map num).max? = some (l.length : Int) := by
      rw [List.max?_eq_some_iff]
      refine ⟨?_, fun b hb ↦ ?_⟩
      · exact List.mem_map.mpr ⟨l.getLast hne, List.getLast_mem hne, h.num_getLast hne⟩
      · obtain ⟨c, hc, rfl⟩ := List.mem_map.mp hb
        exact (h.bounds hc).2
    rw [hmax, Option.getD_some]

/-- A key that does not decrease along a numbered list does not decrease with the number. -/
theorem Numbered.key_le {κ : Type u} [Preorder κ] {key : α → κ} {l : List α} (h : Numbered num l)
    (hkey : l.Pairwise fun a b ↦ key a ≤ key b) {a b : α} (ha : a ∈ l) (hb : b ∈ l)
    (hab : num a ≤ num b) : key a ≤ key b := by
  obtain ⟨i, hi, rfl⟩ := List.mem_iff_getElem.mp ha
  obtain ⟨j, hj, rfl⟩ := List.mem_iff_getElem.mp hb
  rcases lt_trichotomy i j with hij | rfl | hji
  · exact List.pairwise_iff_getElem.mp hkey i j hi hj hij
  · exact le_rfl
  · exact absurd hab (List.pairwise_iff_getElem.mp h.pairwise j i hj hi hji).not_ge

/-- Along such a list, the rows up to a bound on the key are the rows up to the largest number among
them. -/
theorem Numbered.filter_key_le {κ : Type u} [LinearOrder κ] {key : α → κ} {l : List α}
    (h : Numbered num l) (hkey : l.Pairwise fun a b ↦ key a ≤ key b) {T : κ} {v : Int}
    (hmax : ((l.filter fun a ↦ key a ≤ T).map num).max? = some v) :
    (l.filter fun a ↦ num a ≤ v) = l.filter fun a ↦ key a ≤ T := by
  obtain ⟨hmem, hle⟩ := List.max?_eq_some_iff.mp hmax
  obtain ⟨top, htop, rfl⟩ := List.mem_map.mp hmem
  obtain ⟨htop, hT⟩ := List.mem_filter.mp htop
  refine List.filter_congr fun a ha ↦ decide_eq_decide.mpr ⟨fun hav ↦ ?_, fun haT ↦ ?_⟩
  · exact (h.key_le hkey ha htop hav).trans (of_decide_eq_true hT)
  · exact hle _ (List.mem_map_of_mem (List.mem_filter.mpr ⟨ha, decide_eq_true haT⟩))

end NumberedLog
