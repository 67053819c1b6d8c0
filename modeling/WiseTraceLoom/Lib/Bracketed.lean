import Mathlib.Data.List.Perm.Basic

/-!
# Bracketed lists

What is opened and closed in the course of a program whose blocks are nested, and left in whichever
way, is bracketed: what was opened last is closed first, and everything is closed in the end.

`Bracketed.perm` says that each label is closed as often as it is opened, and `Bracketed.closes`
that the bracket of a label is closed after all those that were opened inside.  `Nested` is about a
program that is still running, with some blocks open.
-/

set_option autoImplicit false

namespace Brackets

universe u

variable {α : Type u}

/-- One end of a block with this label. -/
inductive Bracket (α : Type u) where
  | opened (a : α)
  | closed (a : α)

namespace Bracket

/-- The label, if a block is opened. -/
def opens : Bracket α → Option α
  | opened a => some a
  | closed _ => none

/-- The label, if a block is closed. -/
def closes : Bracket α → Option α
  | opened _ => none
  | closed a => some a

end Bracket

/-- What is opened, in this order. -/
def opensOf (l : List (Bracket α)) : List α := l.filterMap Bracket.opens

/-- What is closed, in this order. -/
def closesOf (l : List (Bracket α)) : List α := l.filterMap Bracket.closes

@[simp] theorem opensOf_nil : opensOf ([] : List (Bracket α)) = [] := rfl

@[simp] theorem closesOf_nil : closesOf ([] : List (Bracket α)) = [] := rfl

@[simp] theorem opensOf_append (l l' : List (Bracket α)) :
    opensOf (l ++ l') = opensOf l ++ opensOf l' := List.filterMap_append

@[simp] theorem closesOf_append (l l' : List (Bracket α)) :
    closesOf (l ++ l') = closesOf l ++ closesOf l' := List.filterMap_append

/-- A block around these brackets. -/
def bracket (a : α) (l : List (Bracket α)) : List (Bracket α) := .opened a :: l ++ [.closed a]

@[simp] theorem opensOf_bracket (a : α) (l : List (Bracket α)) :
    opensOf (bracket a l) = a :: opensOf l := by
  simp [bracket, opensOf, Bracket.opens]

@[simp] theorem closesOf_bracket (a : α) (l : List (Bracket α)) :
    closesOf (bracket a l) = closesOf l ++ [a] := by
  rw [bracket, List.cons_append, closesOf, List.filterMap_cons_none rfl, List.filterMap_append]
  rfl

/-- Blocks one after the other, each with bracketed blocks inside. -/
inductive Bracketed : List (Bracket α) → Prop
  | nil : Bracketed []
  | append {l l' : List (Bracket α)} (h : Bracketed l) (h' : Bracketed l') : Bracketed (l ++ l')
  | block (a : α) {l : List (Bracket α)} (h : Bracketed l) : Bracketed (bracket a l)

namespace Bracketed

/-- **Everything is closed as often as it is opened.** -/
theorem perm {l : List (Bracket α)} (h : Bracketed l) : (closesOf l).Perm (opensOf l) := by
  induction h with
  | nil => exact List.Perm.refl _
  | append _ _ ih ih' =>
    rw [closesOf_append, opensOf_append]
    exact ih.append ih'
  | block a _ ih =>
    rw [closesOf_bracket, opensOf_bracket]
    exact (List.perm_append_singleton a _).trans (ih.cons a)

/-- **A block is closed after all blocks inside**: from where it is opened on, bracketed blocks
follow, and then it is closed. -/
theorem closes {l : List (Bracket α)} (h : Bracketed l) {a : α} {before after : List (Bracket α)}
    (hl : l = before ++ .opened a :: after) :
    ∃ inside rest, after = inside ++ .closed a :: rest ∧ Bracketed inside := by
  induction h generalizing before after with
  | nil => simp at hl
  | @append l l' h h' ih ih' =>
    rcases List.append_eq_append_iff.mp hl with ⟨m, rfl, hm⟩ | ⟨m, hm, hafter⟩
    · exact ih' hm
    · cases m with
      | nil =>
        have hl' : l' = [] ++ Bracket.opened a :: after := hafter.symm
        exact ih' hl'
      | cons b m =>
        obtain ⟨rfl, rfl⟩ := List.cons_eq_cons.mp hafter
        obtain ⟨inside, rest, rfl, hinside⟩ := ih hm
        exact ⟨inside, rest ++ l', by simp, hinside⟩
  | @block b l h ih =>
    cases before with
    | nil =>
      obtain ⟨hb, rfl⟩ := List.cons_eq_cons.mp hl
      obtain rfl := Bracket.opened.inj hb
      exact ⟨l, [], rfl, h⟩
    | cons c before =>
      obtain ⟨-, hl⟩ := List.cons_eq_cons.mp hl
      rcases List.append_eq_append_iff.mp hl with ⟨m, rfl, hm⟩ | ⟨m, hm, hafter⟩
      · -- the last bracket closes a block
        cases m with
        | nil => simp at hm
        | cons d m => simp at hm
      · cases m with
        | nil => simp at hafter
        | cons d m =>
          obtain ⟨rfl, rfl⟩ := List.cons_eq_cons.mp hafter
          obtain ⟨inside, rest, rfl, hinside⟩ := ih hm
          exact ⟨inside, rest ++ [.closed b], by simp, hinside⟩

end Bracketed

/-- The blocks with these labels are open, the innermost one first; in each of them there are blocks
that are closed. -/
inductive Nested : List α → List (Bracket α) → Prop
  | outside {l : List (Bracket α)} (h : Bracketed l) : Nested [] l
  | inside (a : α) {s : List α} {l l' : List (Bracket α)} (h : Nested s l) (h' : Bracketed l') :
      Nested (a :: s) (l ++ .opened a :: l')

namespace Nested

theorem bracketed {l : List (Bracket α)} (h : Nested [] l) : Bracketed l := by
  cases h with
  | outside h => exact h

theorem append {s : List α} {l l' : List (Bracket α)} (h : Nested s l) (h' : Bracketed l') :
    Nested s (l ++ l') := by
  cases h with
  | outside h => exact .outside (h.append h')
  | inside a h h'' =>
    rw [List.append_assoc, List.cons_append]
    exact .inside a h (h''.append h')

/-- One more block is opened. -/
theorem opened {s : List α} {l : List (Bracket α)} (h : Nested s l) (a : α) :
    Nested (a :: s) (l ++ [.opened a]) := .inside a h .nil

/-- The innermost block is closed. -/
theorem closed {s : List α} {l : List (Bracket α)} {a : α} (h : Nested (a :: s) l) :
    Nested s (l ++ [.closed a]) := by
  cases h with
  | inside _ h h' =>
    rw [List.append_assoc]
    exact h.append (.block a h')

end Nested

end Brackets
