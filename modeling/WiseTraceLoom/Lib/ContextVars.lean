import Mathlib.Data.List.Nodup
import Mathlib.Logic.Function.Basic
import Mathlib.Order.Basic
import Mathlib.Order.Nat

/-!
# Context variables

A context is a set of variables with their values.  Every task has a context of its own: a copy of
the one that was current when the task was made, or an empty one.  Setting a variable gives a token
that remembers the old value; resetting the variable with the token puts it back.  This can be done
once with each token, and only in the context in which it was made.

A *scope* is a list of variables that were set together, with the tokens for them.  `Held` says that
some scopes are open in a context, one inside the other.

* `Held.setAll` — opening a scope.
* `Held.resetAll` — closing the innermost scope never fails, and all variables are what they were
  before it was opened.
* `Held.apart` — what is done in other contexts makes no difference.
* `Opens.resetAll` — a scope that is opened and closed leaves no trace.
-/

set_option autoImplicit false

namespace ContextVars

universe u v

variable {ν : Type u} {β : Type v}

/-- What setting a variable returns. -/
structure Token (ν : Type u) (β : Type v) where
  /-- Which token it is. -/
  id : ℕ
  /-- The context in which it was made. -/
  context : ℕ
  /-- The variable that was set. -/
  var : ν
  /-- The value that the variable had, if it had one. -/
  old : Option β

/-- Why a variable cannot be reset. -/
inductive ResetError where
  | usedOnce
  | otherVariable
  | otherContext
  /-- The variable has no value to remove. -/
  | missing

/-- All contexts, by their numbers, and all tokens. -/
structure Vars (ν : Type u) (β : Type v) where
  /-- What a variable is in a context. -/
  value : ℕ → ν → Option β
  /-- The number of contexts. -/
  contexts : ℕ
  /-- Has a token of a context been used? -/
  used : ℕ → ℕ → Bool
  /-- The number of tokens. -/
  tokens : ℕ

/-- The variables of a scope, and their tokens. -/
abbrev Scope (ν : Type u) (β : Type v) := List (ν × Token ν β)

/-! ## Contexts -/

/-- A new context with these values. -/
def Vars.newContext (s : Vars ν β) (values : ν → Option β) : ℕ × Vars ν β :=
  (s.contexts, { s with
    value := Function.update s.value s.contexts values, contexts := s.contexts + 1 })

/-- Only the context `c` has changed. -/
structure Vars.Apart (c : ℕ) (s s' : Vars ν β) : Prop where
  value : ∀ d, d ≠ c → s'.value d = s.value d
  used : ∀ d, d ≠ c → s'.used d = s.used d
  contexts : s'.contexts = s.contexts
  tokens : s.tokens ≤ s'.tokens

theorem Vars.Apart.refl (c : ℕ) (s : Vars ν β) : s.Apart c s :=
  ⟨fun _ _ ↦ rfl, fun _ _ ↦ rfl, rfl, le_rfl⟩

theorem Vars.Apart.trans {c : ℕ} {s₁ s₂ s₃ : Vars ν β} (h : s₁.Apart c s₂) (h' : s₂.Apart c s₃) :
    s₁.Apart c s₃ :=
  ⟨fun d hd ↦ (h'.value d hd).trans (h.value d hd), fun d hd ↦ (h'.used d hd).trans (h.used d hd),
    h'.contexts.trans h.contexts, h.tokens.trans h'.tokens⟩

variable [DecidableEq ν]

/-! ## Variables -/

/-- Set a variable in the context `c`. -/
def Vars.set (s : Vars ν β) (c : ℕ) (x : ν) (b : β) : Token ν β × Vars ν β :=
  (⟨s.tokens, c, x, s.value c x⟩, { s with
    value := Function.update s.value c (Function.update (s.value c) x (some b))
    used := Function.update s.used c (Function.update (s.used c) s.tokens false)
    tokens := s.tokens + 1 })

/-- The token is used up. -/
def Vars.use (s : Vars ν β) (t : Token ν β) : Vars ν β :=
  { s with
    used := Function.update s.used t.context (Function.update (s.used t.context) t.id true) }

/-- The variable is what it was before. -/
def Vars.putBack (s : Vars ν β) (t : Token ν β) : Vars ν β :=
  { s with
    value := Function.update s.value t.context
      (Function.update (s.value t.context) t.var t.old) }

/-- Reset a variable in the context `c`. -/
def Vars.reset (s : Vars ν β) (c : ℕ) (x : ν) (t : Token ν β) : Except ResetError Unit × Vars ν β :=
  if s.used t.context t.id then (.error .usedOnce, s)
  else if t.var ≠ x then (.error .otherVariable, s)
  else if t.context ≠ c then (.error .otherContext, s)
  else match t.old, s.value c x with
    | none, none => (.error .missing, s.use t)
    | _, _ => (.ok (), (s.use t).putBack t)

/-- Set some variables one after the other. -/
def Vars.setAll (s : Vars ν β) (c : ℕ) : List (ν × β) → Scope ν β × Vars ν β
  | [] => ([], s)
  | (x, b) :: l =>
    let (t, s₁) := s.set c x b
    let (scope, s₂) := s₁.setAll c l
    ((x, t) :: scope, s₂)

/-- Reset the variables of a scope, in the order in which they were set. -/
def Vars.resetAll (s : Vars ν β) (c : ℕ) : Scope ν β → Except ResetError Unit × Vars ν β
  | [] => (.ok (), s)
  | (x, t) :: scope =>
    match s.reset c x t with
    | (.ok (), s') => s'.resetAll c scope
    | (.error e, s') => (.error e, s')

/-- The values after some assignments. -/
def assign : List (ν × β) → (ν → Option β) → ν → Option β
  | [], values => values
  | (x, b) :: l, values => assign l (Function.update values x (some b))

/-- The values before a scope was opened. -/
def restore : Scope ν β → (ν → Option β) → ν → Option β
  | [], values => values
  | (x, t) :: scope, values => Function.update (restore scope values) x t.old

theorem restore_update {scope : Scope ν β} {x : ν} (hx : x ∉ scope.map Prod.fst)
    (values : ν → Option β) (b : Option β) :
    restore scope (Function.update values x b) = Function.update (restore scope values) x b := by
  induction scope with
  | nil => rfl
  | cons e scope ih =>
    rw [List.map_cons, List.mem_cons, not_or] at hx
    rw [restore, restore, ih hx.2, Function.update_comm hx.1]

theorem assign_isSome {l : List (ν × β)} {values : ν → Option β} {x : ν}
    (h : x ∈ l.map Prod.fst ∨ values x ≠ none) : assign l values x ≠ none := by
  induction l generalizing values with
  | nil => simpa [assign] using h
  | cons e l ih =>
    obtain ⟨y, b⟩ := e
    refine ih ?_
    by_cases hxy : x = y
    · subst hxy
      simp
    · simpa [hxy] using h

/-! ## One variable -/

theorem Vars.set_apart (s : Vars ν β) (c : ℕ) (x : ν) (b : β) : s.Apart c (s.set c x b).2 :=
  ⟨fun _ hd ↦ Function.update_of_ne hd _ _, fun _ hd ↦ Function.update_of_ne hd _ _, rfl,
    Nat.le_succ _⟩

/-- The token can be used in the context `c`. -/
structure Vars.Usable (s : Vars ν β) (c : ℕ) (x : ν) (t : Token ν β) : Prop where
  context : t.context = c
  var : t.var = x
  id : t.id < s.tokens
  used : s.used c t.id = false

omit [DecidableEq ν] in
theorem Vars.Usable.mono {s s' : Vars ν β} {c : ℕ} {x : ν} {t : Token ν β} (h : s.Usable c x t)
    (hused : s'.used c t.id = s.used c t.id) (htokens : s.tokens ≤ s'.tokens) :
    s'.Usable c x t :=
  ⟨h.context, h.var, h.id.trans_le htokens, hused.trans h.used⟩

/-- **A usable token puts the old value back.** -/
theorem Vars.Usable.reset {s : Vars ν β} {c : ℕ} {x : ν} {t : Token ν β} (h : s.Usable c x t)
    (hx : s.value c x ≠ none) : s.reset c x t = (.ok (), (s.use t).putBack t) := by
  obtain ⟨rfl, rfl, -, hused⟩ := h
  obtain ⟨b, hb⟩ := Option.ne_none_iff_exists'.mp hx
  rw [Vars.reset, if_neg (by simp [hused]), if_neg (by simp), if_neg (by simp), hb]
  cases t.old <;> rfl

/-! ## Scopes -/

/-- These scopes are open in the context `c`, in which the variables have these values. -/
def Vars.Held (s : Vars ν β) (c : ℕ) : List (Scope ν β) → (ν → Option β) → Prop
  | [], _ => True
  | scope :: scopes, values =>
    ((scope.map Prod.fst).Nodup ∧ (scope.map fun e ↦ e.2.id).Nodup ∧
      ∀ e ∈ scope, s.Usable c e.1 e.2 ∧ values e.1 ≠ none) ∧
    (∀ e ∈ scope, ∀ outer ∈ scopes, ∀ e' ∈ outer, e.2.id ≠ e'.2.id) ∧
    s.Held c scopes (restore scope values)

theorem Vars.Held.mono {s s' : Vars ν β} {c : ℕ} {scopes : List (Scope ν β)}
    {values : ν → Option β} (h : s.Held c scopes values)
    (hused : ∀ scope ∈ scopes, ∀ e ∈ scope, s'.used c e.2.id = s.used c e.2.id)
    (htokens : s.tokens ≤ s'.tokens) : s'.Held c scopes values := by
  induction scopes generalizing values with
  | nil => trivial
  | cons scope scopes ih =>
    obtain ⟨⟨hvars, hids, htok⟩, hdisjoint, hrest⟩ := h
    rw [List.forall_mem_cons] at hused
    exact ⟨⟨hvars, hids, fun e he ↦ ⟨(htok e he).1.mono (hused.1 e he) htokens, (htok e he).2⟩⟩,
      hdisjoint, ih hrest hused.2⟩

/-- **Whatever is done in other contexts**, the scopes stay open. -/
theorem Vars.Held.apart {s s' : Vars ν β} {c d : ℕ} {scopes : List (Scope ν β)}
    {values : ν → Option β} (h : s.Held c scopes values) (hs : s.Apart d s') (hcd : c ≠ d) :
    s'.Held c scopes values :=
  h.mono (fun _ _ _ _ ↦ by rw [hs.used c hcd]) hs.tokens

theorem Vars.Held.id_lt {s : Vars ν β} {c : ℕ} {scopes : List (Scope ν β)} {values : ν → Option β}
    (h : s.Held c scopes values) : ∀ scope ∈ scopes, ∀ e ∈ scope, e.2.id < s.tokens := by
  induction scopes generalizing values with
  | nil => simp
  | cons scope scopes ih =>
    rw [List.forall_mem_cons]
    exact ⟨fun e he ↦ (h.1.2.2 e he).1.id, ih h.2.2⟩

/-- What setting variables does. -/
structure Vars.Opens (s : Vars ν β) (c : ℕ) (l : List (ν × β)) (scope : Scope ν β)
    (s' : Vars ν β) : Prop where
  apart : s.Apart c s'
  vars : scope.map Prod.fst = l.map Prod.fst
  ids : (scope.map fun e ↦ e.2.id).Nodup
  id : ∀ e ∈ scope, s.tokens ≤ e.2.id
  usable : ∀ e ∈ scope, s'.Usable c e.1 e.2
  value : s'.value c = assign l (s.value c)
  restore : restore scope (s'.value c) = s.value c
  used : ∀ n, n < s.tokens → s'.used c n = s.used c n

theorem Vars.setAll_opens (s : Vars ν β) (c : ℕ) {l : List (ν × β)}
    (hl : (l.map Prod.fst).Nodup) : s.Opens c l (s.setAll c l).1 (s.setAll c l).2 := by
  induction l generalizing s with
  | nil =>
    exact ⟨.refl c s, rfl, List.nodup_nil, by simp [Vars.setAll], by simp [Vars.setAll], rfl, rfl,
      fun _ _ ↦ rfl⟩
  | cons e l ih =>
    obtain ⟨x, b⟩ := e
    rw [List.map_cons, List.nodup_cons] at hl
    have hset := s.set_apart c x b
    have h := ih (s.set c x b).2 hl.2
    have hvalue : (s.set c x b).2.value c = Function.update (s.value c) x (some b) :=
      Function.update_self _ _ _
    have hused (n : ℕ) (hn : n ≠ s.tokens) : (s.set c x b).2.used c n = s.used c n := by
      simp only [Vars.set, Function.update_self]
      exact Function.update_of_ne hn _ _
    have htokens : (s.set c x b).2.tokens = s.tokens + 1 := rfl
    have hid (e : ν × Token ν β) (he : e ∈ ((s.set c x b).2.setAll c l).1) :
        s.tokens + 1 ≤ e.2.id := htokens ▸ h.id e he
    rw [Vars.setAll]
    refine ⟨hset.trans h.apart, ?_, ?_, ?_, ?_, ?_, ?_, ?_⟩
    · rw [List.map_cons, List.map_cons, h.vars]
    · rw [List.map_cons, List.nodup_cons]
      refine ⟨fun hmem ↦ ?_, h.ids⟩
      obtain ⟨e, he, heq⟩ := List.mem_map.mp hmem
      have hlt := hid e he
      rw [heq] at hlt
      exact absurd hlt (Nat.not_succ_le_self _)
    · rw [List.forall_mem_cons]
      exact ⟨le_rfl, fun e he ↦ (Nat.le_succ _).trans (hid e he)⟩
    · rw [List.forall_mem_cons]
      refine ⟨⟨rfl, rfl, h.apart.tokens, ?_⟩, h.usable⟩
      have hfresh : (s.set c x b).2.used c s.tokens = false := by
        simp only [Vars.set, Function.update_self]
      exact (h.used _ (Nat.lt_succ_self _)).trans hfresh
    · rw [h.value, hvalue, assign]
    · rw [ContextVars.restore, h.restore, hvalue, Vars.set, Function.update_idem,
        Function.update_eq_self]
    · intro n hn
      exact (h.used n (hn.trans (Nat.lt_succ_self _))).trans (hused n hn.ne)

/-- **Opening a scope**: the variables have their new values, and what they were can be had back. -/
theorem Vars.Held.setAll {s : Vars ν β} {c : ℕ} {scopes : List (Scope ν β)}
    (h : s.Held c scopes (s.value c)) {l : List (ν × β)} (hl : (l.map Prod.fst).Nodup) :
    s.Opens c l (s.setAll c l).1 (s.setAll c l).2 ∧
      (s.setAll c l).2.Held c ((s.setAll c l).1 :: scopes) ((s.setAll c l).2.value c) := by
  have hopens := s.setAll_opens c hl
  refine ⟨hopens, ⟨hopens.vars ▸ hl, hopens.ids, fun e he ↦ ⟨hopens.usable e he, ?_⟩⟩, ?_, ?_⟩
  · rw [hopens.value]
    exact assign_isSome (.inl (hopens.vars ▸ List.mem_map_of_mem he))
  · exact fun e he outer houter e' he' ↦
      ((h.id_lt outer houter e' he').trans_le (hopens.id e he)).ne'
  · rw [hopens.restore]
    exact h.mono (fun scope hscope e he ↦ hopens.used _ (h.id_lt scope hscope e he))
      hopens.apart.tokens

/-- What resetting a scope does. -/
structure Vars.Closes (s : Vars ν β) (c : ℕ) (scope : Scope ν β) (s' : Vars ν β) : Prop where
  apart : s.Apart c s'
  value : s'.value c = ContextVars.restore scope (s.value c)
  used : ∀ n, (∀ e ∈ scope, n ≠ e.2.id) → s'.used c n = s.used c n

theorem Vars.resetAll_closes {s : Vars ν β} {c : ℕ} {scope : Scope ν β}
    (hvars : (scope.map Prod.fst).Nodup) (hids : (scope.map fun e ↦ e.2.id).Nodup)
    (htok : ∀ e ∈ scope, s.Usable c e.1 e.2 ∧ s.value c e.1 ≠ none) :
    (s.resetAll c scope).1 = .ok () ∧ s.Closes c scope (s.resetAll c scope).2 := by
  induction scope generalizing s with
  | nil => exact ⟨rfl, .refl c s, rfl, fun _ _ ↦ rfl⟩
  | cons e scope ih =>
    obtain ⟨x, t⟩ := e
    rw [List.map_cons, List.nodup_cons] at hvars hids
    rw [List.forall_mem_cons] at htok
    obtain ⟨⟨ht, hx⟩, htok⟩ := htok
    have hreset := ht.reset hx
    obtain ⟨hcontext, hvar, hid, hused⟩ := ht
    dsimp only at hcontext hvar hid hused hvars hids
    subst hcontext hvar
    let s₁ := (s.use t).putBack t
    have happart : s.Apart t.context s₁ :=
      ⟨fun _ hd ↦ Function.update_of_ne hd _ _, fun _ hd ↦ Function.update_of_ne hd _ _, rfl,
        le_rfl⟩
    have hvalue : s₁.value t.context = Function.update (s.value t.context) t.var t.old :=
      Function.update_self _ _ _
    have hother (n : ℕ) (hn : n ≠ t.id) : s₁.used t.context n = s.used t.context n := by
      show Function.update s.used t.context _ t.context n = _
      rw [Function.update_self, Function.update_of_ne hn]
    have hnext := ih (s := s₁) hvars.2 hids.2 fun e he ↦ by
      have hne : e.2.id ≠ t.id := fun heq ↦ hids.1 (heq ▸ List.mem_map_of_mem he)
      have hvar : e.1 ≠ t.var := fun heq ↦ hvars.1 (heq ▸ List.mem_map_of_mem he)
      refine ⟨(htok e he).1.mono (hother _ hne) le_rfl, ?_⟩
      rw [hvalue, Function.update_of_ne hvar]
      exact (htok e he).2
    rw [Vars.resetAll, hreset]
    refine ⟨hnext.1, happart.trans hnext.2.apart, ?_, fun n hn ↦ ?_⟩
    · rw [hnext.2.value, hvalue, restore_update hvars.1, restore]
    · rw [List.forall_mem_cons] at hn
      exact (hnext.2.used n hn.2).trans (hother n hn.1)

/-- **Closing the innermost scope**: this never fails, and puts everything back. -/
theorem Vars.Held.resetAll {s : Vars ν β} {c : ℕ} {scope : Scope ν β} {scopes : List (Scope ν β)}
    (h : s.Held c (scope :: scopes) (s.value c)) :
    (s.resetAll c scope).1 = .ok () ∧ s.Closes c scope (s.resetAll c scope).2 ∧
      (s.resetAll c scope).2.Held c scopes ((s.resetAll c scope).2.value c) := by
  obtain ⟨⟨hvars, hids, htok⟩, hdisjoint, hrest⟩ := h
  obtain ⟨hok, hcloses⟩ := Vars.resetAll_closes hvars hids htok
  refine ⟨hok, hcloses, ?_⟩
  rw [hcloses.value]
  exact hrest.mono (fun outer houter e he ↦
    hcloses.used _ fun e' he' ↦ (hdisjoint e' he' outer houter e he).symm) hcloses.apart.tokens

/-- Everything that was there in the context `c` is as it was, and nothing has changed in any other
context. -/
structure Vars.Same (s : Vars ν β) (c : ℕ) (s' : Vars ν β) : Prop where
  apart : s.Apart c s'
  value : s'.value c = s.value c
  used : ∀ n, n < s.tokens → s'.used c n = s.used c n

omit [DecidableEq ν] in
theorem Vars.Same.refl (s : Vars ν β) (c : ℕ) : s.Same c s := ⟨.refl c s, rfl, fun _ _ ↦ rfl⟩

omit [DecidableEq ν] in
theorem Vars.Same.trans {s₁ s₂ s₃ : Vars ν β} {c : ℕ} (h : s₁.Same c s₂) (h' : s₂.Same c s₃) :
    s₁.Same c s₃ :=
  ⟨h.apart.trans h'.apart, h'.value.trans h.value, fun n hn ↦
    (h'.used n (hn.trans_le h.apart.tokens)).trans (h.used n hn)⟩

/-- **Opening a scope and closing it**: if in between everything was left as it was, nothing has
changed. -/
theorem Vars.Opens.resetAll {s s₁ s₂ : Vars ν β} {c : ℕ} {l : List (ν × β)} {scope : Scope ν β}
    (h : s.Opens c l scope s₁) (hl : (l.map Prod.fst).Nodup) (hsame : s₁.Same c s₂) :
    (s₂.resetAll c scope).1 = .ok () ∧ s.Same c (s₂.resetAll c scope).2 := by
  have htok : ∀ e ∈ scope, s₂.Usable c e.1 e.2 ∧ s₂.value c e.1 ≠ none := by
    intro e he
    have husable := h.usable e he
    refine ⟨husable.mono (hsame.used _ husable.id) hsame.apart.tokens, ?_⟩
    rw [hsame.value, h.value]
    exact assign_isSome (.inl (h.vars ▸ List.mem_map_of_mem he))
  obtain ⟨hok, hcloses⟩ := Vars.resetAll_closes (h.vars ▸ hl) h.ids htok
  refine ⟨hok, h.apart.trans (hsame.apart.trans hcloses.apart), ?_, fun n hn ↦ ?_⟩
  · rw [hcloses.value, hsame.value, h.restore]
  · have hold : ∀ e ∈ scope, n ≠ e.2.id := fun e he ↦ (hn.trans_le (h.id e he)).ne
    rw [hcloses.used n hold, hsame.used n (hn.trans_le h.apart.tokens), h.used n hn]

end ContextVars
