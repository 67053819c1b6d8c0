import Mathlib.Data.List.Forall2
import Mathlib.Data.List.Induction

/-!
# Chains of rows linked by hashes

Each row of a chain carries a hash of its own and a pointer `prev` to the hash of the row before it,
`none` for the first.  `Linked p l` says that the pointers of `l` are right when the row before `l`
has hash `p`.

The point of such a chain is **binding** (`Linked.forall₂`): if equal hashes mean equal contents,
pointer included, then whoever knows the last hash knows the whole chain.  The proof walks both
chains backwards from their ends; the case where one runs out first is excluded because a first row
points at nothing and a later row points at something.
-/

set_option autoImplicit false

namespace HashChain

universe u v

variable {α : Type u} {η : Type v} (prev : α → Option η) (hash : α → η)

/-- Every row points at the hash of the row before it, and the first one at `p`. -/
def Linked : Option η → List α → Prop
  | _, [] => True
  | p, a :: l => prev a = p ∧ Linked (some (hash a)) l

/-- The hash a row appended to `l` has to point at. -/
def tip (l : List α) : Option η := l.getLast?.map hash

variable {prev hash}

@[simp] theorem linked_nil (p : Option η) : Linked prev hash p [] := trivial

@[simp] theorem linked_cons {p : Option η} {a : α} {l : List α} :
    Linked prev hash p (a :: l) ↔ prev a = p ∧ Linked prev hash (some (hash a)) l := Iff.rfl

@[simp] theorem tip_nil : tip hash ([] : List α) = none := rfl

@[simp] theorem tip_concat (l : List α) (a : α) : tip hash (l ++ [a]) = some (hash a) := by
  simp [tip]

theorem tip_eq_none {l : List α} : tip hash l = none ↔ l = [] := by
  simp [tip]

theorem linked_append {p : Option η} {l m : List α} :
    Linked prev hash p (l ++ m) ↔
      Linked prev hash p l ∧ Linked prev hash ((tip hash l).or p) m := by
  induction l generalizing p with
  | nil => simp
  | cons a l ih =>
    have htip : (tip hash (a :: l)).or p = (tip hash l).or (some (hash a)) := by
      rcases List.eq_nil_or_concat l with rfl | ⟨t, b, rfl⟩
      · rfl
      · rw [List.concat_eq_append, ← List.cons_append, tip_concat, tip_concat]
        rfl
    rw [List.cons_append, linked_cons, linked_cons, ih, and_assoc, htip]

/-- **Appending a row** that points at the tip. -/
theorem linked_concat {l : List α} {a : α} :
    Linked prev hash none (l ++ [a]) ↔ Linked prev hash none l ∧ prev a = tip hash l := by
  rw [linked_append, Option.or_none, linked_cons, and_iff_left (linked_nil _)]

/-- The start of a chain is a chain. -/
theorem Linked.of_prefix {p : Option η} {l m : List α} (h : Linked prev hash p m)
    (hlm : l <+: m) : Linked prev hash p l := by
  obtain ⟨t, rfl⟩ := hlm
  exact (linked_append.mp h).1

/-- Two neighbouring rows of a chain. -/
theorem Linked.getElem_succ {p : Option η} {l : List α} (h : Linked prev hash p l) (k : ℕ)
    (hk : k + 1 < l.length) : prev l[k + 1] = some (hash l[k]) := by
  induction l generalizing p k with
  | nil => simp at hk
  | cons a l ih =>
    obtain ⟨-, hl⟩ := linked_cons.mp h
    cases k with
    | zero =>
      cases l with
      | nil => simp at hk
      | cons b l => exact (linked_cons.mp hl).1
    | succ k => exact ih hl k (by simpa using hk)

/-- **Binding.**  If rows with equal hashes are related by `r` and point at the same hash, two
chains with the same tip are related row by row; in particular they have the same length. -/
theorem Linked.forall₂ {r : α → α → Prop} {l m : List α} (hl : Linked prev hash none l)
    (hm : Linked prev hash none m)
    (hr : ∀ a ∈ l, ∀ b ∈ m, hash a = hash b → r a b ∧ prev a = prev b)
    (htip : tip hash l = tip hash m) : List.Forall₂ r l m := by
  induction l using List.reverseRecOn generalizing m with
  | nil =>
    rw [tip_nil, eq_comm, tip_eq_none] at htip
    rw [htip]
    exact List.Forall₂.nil
  | append_singleton l a ih =>
    rcases List.eq_nil_or_concat m with rfl | ⟨t, b, rfl⟩
    · rw [tip_concat, tip_nil] at htip
      exact absurd htip (by simp)
    · rw [List.concat_eq_append] at *
      rw [tip_concat, tip_concat, Option.some_inj] at htip
      obtain ⟨hl', hpa⟩ := linked_concat.mp hl
      obtain ⟨hm', hpb⟩ := linked_concat.mp hm
      obtain ⟨hab, hprev⟩ := hr a (by simp) b (by simp) htip
      have htail : List.Forall₂ r l t :=
        ih hl' hm' (fun x hx y hy ↦ hr x (by simp [hx]) y (by simp [hy]))
          (by rw [← hpa, ← hpb, hprev])
      exact List.rel_append htail (List.Forall₂.cons hab List.Forall₂.nil)

end HashChain
