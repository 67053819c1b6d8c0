import Mathlib.Data.List.Basic

/-!
# Tables that only grow and age

`Grown r l l'` says that `l'` is `l` with rows added at the end, after each row of `l` has changed
along `r`.  With `r` the equality it is `l <+: l'`; with `r` a relation such as "the same row, or
the same row with its key destroyed" it is what a table goes through that is never deleted from and
whose rows may only move in one direction.
-/

set_option autoImplicit false

universe u

variable {α : Type u} {r : α → α → Prop}

/-- Every row of `l` is still at its place in `l'`, aged along `r`. -/
def Grown (r : α → α → Prop) (l l' : List α) : Prop :=
  ∀ (i : ℕ) (a : α), l[i]? = some a → ∃ b, l'[i]? = some b ∧ r a b

namespace Grown

theorem refl (hr : ∀ a, r a a) (l : List α) : Grown r l l := fun _ a ha ↦ ⟨a, ha, hr a⟩

theorem trans (hr : ∀ a b c, r a b → r b c → r a c) {l₁ l₂ l₃ : List α} (h₁ : Grown r l₁ l₂)
    (h₂ : Grown r l₂ l₃) : Grown r l₁ l₃ := by
  intro i a ha
  obtain ⟨b, hb, hab⟩ := h₁ i a ha
  obtain ⟨c, hc, hbc⟩ := h₂ i b hb
  exact ⟨c, hc, hr a b c hab hbc⟩

theorem append (hr : ∀ a, r a a) (l new : List α) : Grown r l (l ++ new) := fun _ a ha ↦
  ⟨a, List.getElem?_append_left (List.getElem?_eq_some_iff.mp ha).1 ▸ ha, hr a⟩

theorem map {f : α → α} {l : List α} (hf : ∀ a ∈ l, r a (f a)) : Grown r l (l.map f) :=
  fun i a ha ↦ ⟨f a, by rw [List.getElem?_map, ha, Option.map_some],
    hf a (List.mem_of_getElem? ha)⟩

/-- A row is still there, aged. -/
theorem exists_mem {l l' : List α} (h : Grown r l l') {a : α} (ha : a ∈ l) :
    ∃ b ∈ l', r a b := by
  obtain ⟨i, hi⟩ := List.mem_iff_getElem?.mp ha
  obtain ⟨b, hb, hab⟩ := h i a hi
  exact ⟨b, List.mem_of_getElem? hb, hab⟩

end Grown
