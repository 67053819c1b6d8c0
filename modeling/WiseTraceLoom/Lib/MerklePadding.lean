import WiseTraceLoom.Lib.MerkleTree

/-!
# What a Merkle root with padding determines

A level of odd length is completed with a copy of its last element, so two lists of leaves with the
same completed levels have the same root.  `pad` says which leaves the tree really has: it pairs the
leaves up, pads the list of pairs, and takes the pairs apart again.  `root_eq_root_iff` is the
statement that nothing else goes wrong: if hashing is injective on the pairs that are hashed and no
leaf is a hash, then two roots are equal exactly if the padded lists are.

The proof looks at the tree itself, with the constructor `Tree.node` in place of the hash.  Equal
roots mean equal trees (`Tree.eval_inj`), and the fringe of the tree is the padded list
(`fringe_climb`).
-/

set_option autoImplicit false

namespace MerkleTree

universe u

variable {α β : Type u} {node : α → α → α}

/-! ## Padding -/

/-- The components of a list of pairs. -/
def unpair (l : List (α × α)) : List α := l.flatMap fun p ↦ [p.1, p.2]

/-- The leaves of the tree of `n` levels, those that were added to odd levels included. -/
def padTo : ℕ → {α : Type u} → List α → List α
  | 0, _, l => l
  | n + 1, _, l => if l.length ≤ 1 then l else unpair (padTo n (pairUp l))

/-- The leaves of the tree over `l`. -/
def pad (l : List α) : List α := padTo l.length l

example : pad [1, 2, 3, 4, 5, 6] = [1, 2, 3, 4, 5, 6, 5, 6] := by decide

theorem pairUp_unpair (l : List (α × α)) : pairUp (unpair l) = l := by
  induction l with
  | nil => rfl
  | cons p l ih =>
    show (p.1, p.2) :: pairUp (unpair l) = p :: l
    rw [ih]

theorem pairUp_map (f : α → β) (l : List α) :
    pairUp (l.map f) = (pairUp l).map (Prod.map f f) := by
  induction l using pairUp.induct with
  | case1 => rfl
  | case2 a => rfl
  | case3 a b l ih =>
    rw [List.map_cons, List.map_cons, pairUp, pairUp, ih]
    rfl

theorem length_unpair (l : List (α × α)) : (unpair l).length = 2 * l.length := by
  induction l with
  | nil => rfl
  | cons p l ih =>
    show (unpair l).length + 2 = 2 * (l.length + 1)
    omega

theorem unpair_map (f : α → β) (l : List (α × α)) :
    unpair (l.map (Prod.map f f)) = (unpair l).map f := by
  rw [unpair, unpair, List.flatMap_map, List.map_flatMap]
  rfl

theorem padTo_map (n : ℕ) (f : α → β) (l : List α) : padTo n (l.map f) = (padTo n l).map f := by
  induction n generalizing α β with
  | zero => rfl
  | succ n ih =>
    rw [padTo, padTo, List.length_map]
    split_ifs
    · rfl
    · rw [pairUp_map, ih, unpair_map]

theorem padTo_ne_nil {n : ℕ} {l : List α} (h : l ≠ []) : padTo n l ≠ [] := by
  induction n generalizing α with
  | zero => exact h
  | succ n ih =>
    rw [padTo]
    split_ifs
    · exact h
    · have hpos := List.length_pos_iff.mpr h
      have hpairs : pairUp l ≠ [] := List.length_pos_iff.mp (by rw [length_pairUp]; omega)
      have hpad := List.length_pos_iff.mpr (ih hpairs)
      exact List.length_pos_iff.mp (by rw [length_unpair]; omega)

/-- More steps than it takes to get to the top change nothing. -/
theorem padTo_eq {n k : ℕ} {l : List α} (h : l.length ≤ n + 1) (hk : l.length ≤ k + 1) :
    padTo n l = padTo k l := by
  induction n generalizing α k with
  | zero =>
    cases k with
    | zero => rfl
    | succ k => rw [padTo, padTo, if_pos h]
  | succ n ih =>
    cases k with
    | zero => rw [padTo, padTo, if_pos hk]
    | succ k =>
      rw [padTo, padTo]
      split_ifs with hlen
      · rfl
      · have hpairs : (pairUp l).length ≤ n + 1 ∧ (pairUp l).length ≤ k + 1 := by
          rw [length_pairUp]
          omega
        rw [ih hpairs.1 hpairs.2]

theorem climb_eq {n k : ℕ} {l : List α} (h : l.length ≤ n + 1) (hk : l.length ≤ k + 1) :
    climb node n l = climb node k l := by
  induction n generalizing l k with
  | zero =>
    cases k with
    | zero => rfl
    | succ k => rw [climb, climb, if_pos h]
  | succ n ih =>
    cases k with
    | zero => rw [climb, climb, if_pos hk]
    | succ k =>
      rw [climb, climb]
      split_ifs with hlen
      · rfl
      · have hparents : (parents node l).length ≤ n + 1 ∧ (parents node l).length ≤ k + 1 := by
          rw [length_parents]
          omega
        exact ih hparents.1 hparents.2

/-- **Padding does not change the root.** -/
theorem climb_padTo (n : ℕ) (l : List α) : climb node n (padTo n l) = climb node n l := by
  induction n generalizing l with
  | zero => rfl
  | succ n ih =>
    by_cases hlen : l.length ≤ 1
    · rw [padTo, if_pos hlen]
    · have hne : pairUp l ≠ [] :=
        List.length_pos_iff.mp (by rw [length_pairUp]; omega)
      have hpad : ¬(unpair (padTo n (pairUp l))).length ≤ 1 := by
        have hpos := List.length_pos_iff.mpr (padTo_ne_nil (n := n) hne)
        rw [length_unpair]
        omega
      rw [padTo, if_neg hlen, climb, if_neg hpad, climb, if_neg hlen, parents, pairUp_unpair,
        ← padTo_map, ih]
      rfl

/-! ## Trees -/

/-- A tree, whose leaves are hashes. -/
inductive Tree (α : Type u) : Type u where
  | leaf (a : α)
  | node (l r : Tree α)

/-- The hash of a tree. -/
def Tree.eval (node : α → α → α) : Tree α → α
  | .leaf a => a
  | .node l r => node (l.eval node) (r.eval node)

/-- The leaves of a tree. -/
def Tree.fringe : Tree α → List α
  | .leaf a => [a]
  | .node l r => l.fringe ++ r.fringe

/-- What is hashed for a tree is in `S`, and no leaf is a hash of `S`. -/
def Tree.Within (node : α → α → α) (S : Set (α × α)) : Tree α → Prop
  | .leaf a => ∀ p ∈ S, node p.1 p.2 ≠ a
  | .node l r => (l.eval node, r.eval node) ∈ S ∧ l.Within node S ∧ r.Within node S

variable {S : Set (α × α)}

/-- **The hash determines the tree**, if hashing is injective on what is hashed and no leaf is a
hash. -/
theorem Tree.eval_inj (hS : S.InjOn fun p ↦ node p.1 p.2) {s t : Tree α} (hs : s.Within node S)
    (ht : t.Within node S) (h : s.eval node = t.eval node) : s = t := by
  induction s generalizing t with
  | leaf a =>
    cases t with
    | leaf b => exact congrArg Tree.leaf h
    | node l r => exact absurd h.symm (hs _ ht.1)
  | node l r ihl ihr =>
    cases t with
    | leaf b => exact absurd h (ht _ hs.1)
    | node l' r' =>
      have hpair : (l.eval node, r.eval node) = (l'.eval node, r'.eval node) := hS hs.1 ht.1 h
      rw [Prod.mk.injEq] at hpair
      rw [ihl hs.2.1 ht.2.1 hpair.1, ihr hs.2.2 ht.2.2 hpair.2]

/-! ## The tree over a list -/

theorem parents_map (ts : List (Tree α)) :
    (parents Tree.node ts).map (Tree.eval node) = parents node (ts.map (Tree.eval node)) := by
  rw [parents, parents, pairUp_map, List.map_map, List.map_map]
  rfl

/-- Hashing the trees at the end is hashing on the way. -/
theorem climb_map (n : ℕ) (ts : List (Tree α)) :
    (climb Tree.node n ts).map (Tree.eval node) = climb node n (ts.map (Tree.eval node)) := by
  induction n generalizing ts with
  | zero => rfl
  | succ n ih =>
    rw [climb, climb, List.length_map]
    split_ifs
    · rfl
    · rw [ih, parents_map]

/-- The fringe of the tree is the padded list. -/
theorem fringe_climb (n : ℕ) (ts : List (Tree α)) :
    (climb Tree.node n ts).flatMap Tree.fringe = (padTo n ts).flatMap Tree.fringe := by
  induction n generalizing ts with
  | zero => rfl
  | succ n ih =>
    rw [climb, padTo]
    split_ifs
    · rfl
    · rw [ih, parents, padTo_map, unpair, List.flatMap_map, List.flatMap_assoc]
      refine List.flatMap_congr fun p _ ↦ ?_
      rw [List.flatMap_cons, List.flatMap_cons, List.flatMap_nil, List.append_nil]
      rfl

theorem within_climb {n : ℕ} {ts : List (Tree α)} (hts : ∀ t ∈ ts, t.Within node S)
    (hhashed : ∀ p ∈ hashed node n (ts.map (Tree.eval node)), p ∈ S) :
    ∀ t ∈ climb Tree.node n ts, t.Within node S := by
  induction n generalizing ts with
  | zero => exact hts
  | succ n ih =>
    rw [climb]
    rw [hashed, List.length_map] at hhashed
    split_ifs at hhashed ⊢ with hlen
    · exact hts
    · rw [← parents_map] at hhashed
      refine ih (fun t ht ↦ ?_) fun p hp ↦ hhashed p (List.mem_append_right _ hp)
      obtain ⟨p, hp, rfl⟩ := List.mem_map.mp ht
      obtain ⟨hl, hr⟩ := mem_of_mem_pairUp hp
      refine ⟨hhashed _ (List.mem_append_left _ ?_), hts _ hl, hts _ hr⟩
      rw [pairUp_map]
      exact List.mem_map_of_mem hp

/-- The tree over `l`. -/
theorem exists_tree {l : List α} (hne : l ≠ []) (hlS : ∀ p ∈ hashed node l.length l, p ∈ S)
    (hleaf : ∀ a ∈ l, ∀ p ∈ S, node p.1 p.2 ≠ a) : ∃ t : Tree α, t.Within node S ∧
      root node l = some (t.eval node) ∧ t.fringe = pad l := by
  have hleaves : (l.map Tree.leaf).map (Tree.eval node) = l := by
    rw [List.map_map]
    exact List.map_id l
  have hlen : (climb Tree.node l.length (l.map Tree.leaf)).length = 1 :=
    length_climb (by rw [List.length_map]; omega) (by simpa using hne)
  obtain ⟨t, ht⟩ := List.length_eq_one_iff.mp hlen
  refine ⟨t, ?_, ?_, ?_⟩
  · have hbase : ∀ u ∈ l.map (Tree.leaf : α → Tree α), u.Within node S := by
      intro u hu
      obtain ⟨a, ha, rfl⟩ := List.mem_map.mp hu
      exact hleaf a ha
    have hlS' : ∀ p ∈ hashed node l.length ((l.map Tree.leaf).map (Tree.eval node)), p ∈ S := by
      rwa [hleaves]
    exact within_climb hbase hlS' t (by simp [ht])
  · rw [root, ← hleaves, ← climb_map, hleaves, ht]
    rfl
  · have hfringe := fringe_climb l.length (l.map Tree.leaf)
    rw [ht, padTo_map, List.flatMap_map, List.flatMap_singleton] at hfringe
    rw [hfringe, pad]
    exact List.flatMap_singleton' _

/-- The root is that of the padded list. -/
theorem root_eq_climb_pad {n : ℕ} {l : List α} (h : l.length ≤ n) :
    root node l = (climb node n (pad l)).head? := by
  have hpad : pad l = padTo n l := padTo_eq (Nat.le_succ _) (Nat.le_succ_of_le h)
  rw [root, hpad, climb_padTo, climb_eq (Nat.le_succ _) (Nat.le_succ_of_le h)]

/-- **Equal roots are equal padded lists**, unless a hash collides or a leaf is a hash. -/
theorem root_eq_root_iff {l m : List α} (hS : S.InjOn fun p ↦ node p.1 p.2) (hlne : l ≠ [])
    (hmne : m ≠ []) (hlS : ∀ p ∈ hashed node l.length l, p ∈ S)
    (hmS : ∀ p ∈ hashed node m.length m, p ∈ S)
    (hleaf : ∀ a ∈ l ++ m, ∀ p ∈ S, node p.1 p.2 ≠ a) :
    root node l = root node m ↔ pad l = pad m := by
  constructor
  · intro h
    obtain ⟨s, hs, hsroot, hsfringe⟩ := exists_tree hlne hlS fun a ha ↦ hleaf a (by simp [ha])
    obtain ⟨t, ht, htroot, htfringe⟩ := exists_tree hmne hmS fun a ha ↦ hleaf a (by simp [ha])
    rw [hsroot, htroot, Option.some_inj] at h
    rw [← hsfringe, ← htfringe, Tree.eval_inj hS hs ht h]
  · intro h
    rw [root_eq_climb_pad (Nat.le_max_left l.length m.length), h,
      ← root_eq_climb_pad (Nat.le_max_right l.length m.length)]

end MerkleTree
