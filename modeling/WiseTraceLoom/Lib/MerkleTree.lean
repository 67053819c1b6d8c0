import Mathlib.Data.List.Nodup
import Mathlib.Data.Set.Function

/-!
# Merkle roots with a self-paired last element

A level of the tree is a list; its parent level hashes the elements two by two, and an odd last
element is paired with itself.  `root` climbs until at most one element is left.

Such a root does not determine the leaves: `[a, b, c]` and `[a, b, c, c]` have the same one.  It
does among lists of **pairwise distinct** leaves (`root_inj`), if hashing is injective on the pairs
that are actually hashed and no leaf is itself the hash of such a pair.  Distinctness is what an odd
level needs, and it is handed down from each level to its parents; the second condition is what
separates trees of different heights.  Hashing is only asked to be injective on a set `S` that
contains the finitely many pairs of `hashed`: a hash with outputs of fixed length cannot be
injective outright.
-/

set_option autoImplicit false

namespace MerkleTree

universe u

variable {α : Type u}

/-- The pairs hashed at one level.  An odd last element pairs with itself. -/
def pairUp : List α → List (α × α)
  | [] => []
  | [a] => [(a, a)]
  | a :: b :: l => (a, b) :: pairUp l

variable (node : α → α → α)

/-- The level above `l`. -/
def parents (l : List α) : List α := (pairUp l).map fun p ↦ node p.1 p.2

/-- The level reached after at most `n` steps up, stopping at a level with one element. -/
def climb : ℕ → List α → List α
  | 0, l => l
  | n + 1, l => if l.length ≤ 1 then l else climb n (parents node l)

/-- All levels on the way, the leaves first. -/
def levels : ℕ → List α → List (List α)
  | 0, l => [l]
  | n + 1, l => if l.length ≤ 1 then [l] else l :: levels n (parents node l)

/-- All pairs hashed on the way. -/
def hashed : ℕ → List α → List (α × α)
  | 0, _ => []
  | n + 1, l => if l.length ≤ 1 then [] else pairUp l ++ hashed n (parents node l)

/-- The Merkle root, if there are any leaves.  Every level is shorter than the one below it, so as
many steps as there are leaves are enough. -/
def root (l : List α) : Option α := (climb node l.length l).head?

variable {node}

/-! ## One level -/

theorem length_pairUp (l : List α) : (pairUp l).length = (l.length + 1) / 2 := by
  induction l using pairUp.induct with
  | case1 => simp [pairUp]
  | case2 a => simp [pairUp]
  | case3 a b l ih =>
    simp only [pairUp, List.length_cons, ih]
    omega

@[simp] theorem length_parents (l : List α) : (parents node l).length = (l.length + 1) / 2 := by
  rw [parents, List.length_map, length_pairUp]

theorem mem_of_mem_pairUp {l : List α} {p : α × α} (hp : p ∈ pairUp l) : p.1 ∈ l ∧ p.2 ∈ l := by
  induction l using pairUp.induct with
  | case1 => simp [pairUp] at hp
  | case2 a =>
    simp only [pairUp, List.mem_singleton] at hp
    simp [hp]
  | case3 a b l ih =>
    rcases List.mem_cons.mp hp with rfl | hp
    · simp
    · exact ⟨by simp [(ih hp).1], by simp [(ih hp).2]⟩

theorem pairUp_nodup {l : List α} (h : l.Nodup) : (pairUp l).Nodup := by
  induction l using pairUp.induct with
  | case1 => exact List.nodup_nil
  | case2 a => exact List.nodup_singleton _
  | case3 a b l ih =>
    have ha : a ∉ l := fun hal ↦ (List.nodup_cons.mp h).1 (List.mem_cons_of_mem b hal)
    refine List.nodup_cons.mpr ⟨fun hp ↦ ha (mem_of_mem_pairUp hp).1, ih ?_⟩
    exact (List.nodup_cons.mp (List.nodup_cons.mp h).2).2

/-- A level of distinct elements can be read back off its pairs.  Without distinctness it cannot:
an odd level and the same level with its last element repeated have the same pairs. -/
theorem pairUp_inj {l m : List α} (hl : l.Nodup) (hm : m.Nodup) (h : pairUp l = pairUp m) :
    l = m := by
  induction l using pairUp.induct generalizing m with
  | case1 =>
    match m, h with
    | [], _ => rfl
    | [b], h => simp [pairUp] at h
    | b :: c :: m, h => simp [pairUp] at h
  | case2 a =>
    match m, h with
    | [b], h => simpa [pairUp] using h
    | b :: c :: m, h =>
      simp only [pairUp, List.cons.injEq, Prod.mk.injEq] at h
      exact absurd hm (by simp [← h.1.1, ← h.1.2])
  | case3 a b l ih =>
    match m, h with
    | [c], h =>
      simp only [pairUp, List.cons.injEq, Prod.mk.injEq] at h
      exact absurd hl (by simp [h.1.1, h.1.2])
    | c :: d :: m, h =>
      simp only [pairUp, List.cons.injEq, Prod.mk.injEq] at h
      obtain ⟨⟨rfl, rfl⟩, h⟩ := h
      rw [ih (List.nodup_cons.mp (List.nodup_cons.mp hl).2).2
        (List.nodup_cons.mp (List.nodup_cons.mp hm).2).2 h]

/-! ## The whole tree -/

variable {S : Set (α × α)}

theorem parents_nodup {l : List α} (hS : S.InjOn fun p ↦ node p.1 p.2) (hl : l.Nodup)
    (h : ∀ p ∈ pairUp l, p ∈ S) : (parents node l).Nodup :=
  (pairUp_nodup hl).map_on fun p hp q hq ↦ @hS p (h p hp) q (h q hq)

theorem eq_of_map_node_eq {s t : List (α × α)} (hS : S.InjOn fun p ↦ node p.1 p.2)
    (hs : ∀ p ∈ s, p ∈ S) (ht : ∀ p ∈ t, p ∈ S)
    (h : s.map (fun p ↦ node p.1 p.2) = t.map fun p ↦ node p.1 p.2) : s = t := by
  induction s generalizing t with
  | nil => exact (List.map_eq_nil_iff.mp h.symm).symm
  | cons p s ih =>
    cases t with
    | nil => simp at h
    | cons q t =>
      rw [List.map_cons, List.map_cons, List.cons.injEq] at h
      rw [hS (hs p (by simp)) (ht q (by simp)) h.1,
        ih (fun x hx ↦ hs x (by simp [hx])) (fun x hx ↦ ht x (by simp [hx])) h.2]

theorem parents_inj {l m : List α} (hS : S.InjOn fun p ↦ node p.1 p.2) (hl : l.Nodup)
    (hm : m.Nodup) (hlS : ∀ p ∈ pairUp l, p ∈ S) (hmS : ∀ p ∈ pairUp m, p ∈ S)
    (h : parents node l = parents node m) : l = m :=
  pairUp_inj hl hm (eq_of_map_node_eq hS hlS hmS h)

theorem climb_mem_levels (n : ℕ) (l : List α) : climb node n l ∈ levels node n l := by
  induction n generalizing l with
  | zero => simp [climb, levels]
  | succ n ih =>
    rw [climb, levels]
    split
    · simp
    · exact List.mem_cons_of_mem _ (ih _)

theorem levels_succ {n : ℕ} {l : List α} (h : 1 < l.length) :
    levels node (n + 1) l = l :: levels node n (parents node l) := by
  rw [levels, if_neg (by omega)]

theorem hashed_succ {n : ℕ} {l : List α} (h : 1 < l.length) :
    hashed node (n + 1) l = pairUp l ++ hashed node n (parents node l) := by
  rw [hashed, if_neg (by omega)]

theorem levels_nodup {n : ℕ} {l : List α} (hS : S.InjOn fun p ↦ node p.1 p.2) (hl : l.Nodup)
    (h : ∀ p ∈ hashed node n l, p ∈ S) : ∀ k ∈ levels node n l, k.Nodup := by
  induction n generalizing l with
  | zero => simpa [levels] using hl
  | succ n ih =>
    by_cases hlen : 1 < l.length
    · rw [hashed_succ hlen] at h
      rw [levels_succ hlen]
      have hparents : (parents node l).Nodup := parents_nodup hS hl fun p hp ↦ h p (by simp [hp])
      exact List.forall_mem_cons.mpr ⟨hl, ih hparents fun p hp ↦ h p (by simp [hp])⟩
    · rw [levels, if_pos (by omega)]
      simpa using hl

/-- Every level but the leaves is the parent of a level, and the pairs of that level were hashed. -/
theorem exists_child {n : ℕ} {l k : List α} (hlen : 1 < l.length)
    (hk : k ∈ levels node n (parents node l)) :
    ∃ j ∈ levels node (n + 1) l, parents node j = k ∧
      ∀ p ∈ pairUp j, p ∈ hashed node (n + 1) l := by
  rw [levels_succ hlen, hashed_succ hlen]
  induction n generalizing l with
  | zero =>
    rw [levels, List.mem_singleton] at hk
    exact ⟨l, by simp, hk.symm, fun p hp ↦ by simp [hp]⟩
  | succ n ih =>
    by_cases hlen2 : 1 < (parents node l).length
    · rw [levels_succ hlen2] at hk ⊢
      rw [hashed_succ hlen2]
      rcases List.mem_cons.mp hk with rfl | hk
      · exact ⟨l, by simp, rfl, fun p hp ↦ by simp [hp]⟩
      · obtain ⟨j, hj, hjk, hjs⟩ := ih hlen2 hk
        exact ⟨j, List.mem_cons_of_mem _ hj, hjk, fun p hp ↦ List.mem_append_right _ (hjs p hp)⟩
    · rw [levels, if_pos (by omega), List.mem_singleton] at hk
      exact ⟨l, by simp, hk.symm, fun p hp ↦ by simp [hp]⟩

/-- What holds of the leaves and of every hash holds of everything that is hashed. -/
theorem forall_hashed {P : α → Prop} (hnode : ∀ a b, P (node a b)) {n : ℕ} {l : List α}
    (hleaf : ∀ a ∈ l, P a) : ∀ p ∈ hashed node n l, P p.1 ∧ P p.2 := by
  induction n generalizing l with
  | zero => simp [hashed]
  | succ n ih =>
    intro p hp
    rw [hashed] at hp
    split_ifs at hp
    · simp at hp
    · rcases List.mem_append.mp hp with hp | hp
      · exact ⟨hleaf _ (mem_of_mem_pairUp hp).1, hleaf _ (mem_of_mem_pairUp hp).2⟩
      · refine ih (fun a ha ↦ ?_) p hp
        obtain ⟨q, -, rfl⟩ := List.mem_map.mp ha
        exact hnode _ _

/-- **Comparing two trees from the top.**  Equal tops mean that the leaves of one tree are a level
of the other. -/
theorem mem_levels_of_climb_eq {n k : ℕ} {l m : List α} (hS : S.InjOn fun p ↦ node p.1 p.2)
    (hl : l.Nodup) (hm : m.Nodup) (hlS : ∀ p ∈ hashed node n l, p ∈ S)
    (hmS : ∀ p ∈ hashed node k m, p ∈ S) (htop : climb node n l = climb node k m) :
    l ∈ levels node k m ∨ m ∈ levels node n l := by
  -- a tree that has already reached its top is found among the levels of the other one
  have hleft : climb node n l = l → l ∈ levels node k m ∨ m ∈ levels node n l := fun h ↦
    Or.inl (h ▸ htop ▸ climb_mem_levels k m)
  have hright : climb node k m = m → l ∈ levels node k m ∨ m ∈ levels node n l := fun h ↦
    Or.inr (h ▸ htop ▸ climb_mem_levels n l)
  induction n generalizing k l m with
  | zero => exact hleft rfl
  | succ n ih =>
    by_cases hlen : 1 < l.length
    · cases k with
      | zero => exact hright rfl
      | succ k =>
        by_cases hlen2 : 1 < m.length
        · rw [climb, climb, if_neg (by omega), if_neg (by omega)] at htop
          have hnl := levels_nodup hS hl hlS
          have hnm := levels_nodup hS hm hmS
          rw [hashed_succ hlen] at hlS
          rw [hashed_succ hlen2] at hmS
          have hpl : ∀ p ∈ pairUp l, p ∈ S := fun p hp ↦ hlS p (by simp [hp])
          have hpm : ∀ p ∈ pairUp m, p ∈ S := fun p hp ↦ hmS p (by simp [hp])
          have hmem := ih (parents_nodup hS hl hpl) (parents_nodup hS hm hpm)
            (fun p hp ↦ hlS p (by simp [hp])) (fun p hp ↦ hmS p (by simp [hp])) htop
            (fun h ↦ Or.inl (h ▸ htop ▸ climb_mem_levels k _))
            (fun h ↦ Or.inr (h ▸ htop ▸ climb_mem_levels n _))
          rw [← hashed_succ hlen] at hlS
          rw [← hashed_succ hlen2] at hmS
          rcases hmem with hmem | hmem
          · obtain ⟨j, hj, hjl, hjs⟩ := exists_child hlen2 hmem
            exact Or.inl (parents_inj hS hl (hnm j hj) hpl (fun p hp ↦ hmS p (hjs p hp))
              hjl.symm ▸ hj)
          · obtain ⟨j, hj, hjm, hjs⟩ := exists_child hlen hmem
            exact Or.inr (parents_inj hS hm (hnl j hj) hpm (fun p hp ↦ hlS p (hjs p hp))
              hjm.symm ▸ hj)
        · exact hright (by rw [climb, if_pos (by omega)])
    · exact hleft (by rw [climb, if_pos (by omega)])

/-- If the leaves of one tree are a level of another and no leaf is a hash, they are its leaves. -/
theorem eq_of_mem_levels {n : ℕ} {l m : List α} (hne : l ≠ [])
    (hleaf : ∀ a ∈ l, ∀ p ∈ hashed node n m, node p.1 p.2 ≠ a) (h : l ∈ levels node n m) :
    l = m := by
  cases n with
  | zero => simpa [levels] using h
  | succ n =>
    by_cases hlen : 1 < m.length
    · rw [levels_succ hlen] at h
      rcases List.mem_cons.mp h with rfl | h
      · rfl
      · obtain ⟨j, -, hj, hjs⟩ := exists_child hlen h
        obtain ⟨a, ha⟩ := List.exists_mem_of_ne_nil l hne
        have ha' := ha
        rw [← hj, parents, List.mem_map] at ha'
        obtain ⟨p, hp, hpa⟩ := ha'
        exact absurd hpa (hleaf a ha p (hjs p hp))
    · rw [levels, if_pos (by omega)] at h
      simpa using h

theorem length_climb {n : ℕ} {l : List α} (h : l.length ≤ n + 1) (hne : l ≠ []) :
    (climb node n l).length = 1 := by
  have hpos := List.length_pos_iff.mpr hne
  induction n generalizing l with
  | zero => rw [climb]; omega
  | succ n ih =>
    rw [climb]
    split
    · omega
    · have hpar : 0 < (parents node l).length := by rw [length_parents]; omega
      exact ih (by rw [length_parents]; omega) (List.length_pos_iff.mp hpar) hpar

/-- **The root binds distinct leaves.** -/
theorem root_inj {l m : List α} (hS : S.InjOn fun p ↦ node p.1 p.2) (hl : l.Nodup)
    (hm : m.Nodup) (hlne : l ≠ []) (hmne : m ≠ [])
    (hlS : ∀ p ∈ hashed node l.length l, p ∈ S) (hmS : ∀ p ∈ hashed node m.length m, p ∈ S)
    (hleaf : ∀ a ∈ l ++ m, ∀ p ∈ S, node p.1 p.2 ≠ a) (hroot : root node l = root node m) :
    l = m := by
  have htop : climb node l.length l = climb node m.length m := by
    have hltop : (climb node l.length l).length = 1 := length_climb (Nat.le_succ l.length) hlne
    have hmtop : (climb node m.length m).length = 1 := length_climb (Nat.le_succ m.length) hmne
    obtain ⟨a, ha⟩ := List.length_eq_one_iff.mp hltop
    obtain ⟨b, hb⟩ := List.length_eq_one_iff.mp hmtop
    rw [root, root, ha, hb, List.head?_cons, List.head?_cons, Option.some_inj] at hroot
    rw [ha, hb, hroot]
  rcases mem_levels_of_climb_eq hS hl hm hlS hmS htop with hmem | hmem
  · exact eq_of_mem_levels hlne
      (fun a ha p hp ↦ hleaf a (by simp [ha]) p (hmS p hp)) hmem
  · exact (eq_of_mem_levels hmne
      (fun a ha p hp ↦ hleaf a (by simp [ha]) p (hlS p hp)) hmem).symm

end MerkleTree
