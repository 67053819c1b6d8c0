import Mathlib.Data.List.Forall2
import WiseTraceLoom.Lib.Scan

/-!
# Searching a text with separators

Where a separator, such as a replacement in brackets, stands between two texts, no match crosses it,
and the search in the whole is the search in the one text followed by the search in the other.  So
what can be said of a text by looking at its parts one by one can be said of the outcome of a
substitution by looking at the gaps of the search.

## What is here

* `similar_run` — the matcher does not look beyond a character that it does not accept.
* `Separator.found_append` — the search in two texts with a separator in between.
* `SplitsAt` — what can be said by looking at both sides of a separator, `SplitsAt.sub` for the
  outcome of a substitution and `SplitsAt.gaps` for a text that is cut first.
-/

set_option autoImplicit false

namespace Regex

variable {isWord : Char → Bool} {d : Char} {tail : Str}

/-! ## What comes behind -/

/-- No class of the expression accepts `d`, its boundaries are those of `isWord`, and no repetition
is without an upper bound. -/
def Local (isWord : Char → Bool) (d : Char) : Regex → Prop
  | cls p => p d = false
  | seq r s => r.Local isWord d ∧ s.Local isWord d
  | opt r => r.Local isWord d
  | rep r _ more => r.Local isWord d ∧ more ≠ none
  | boundary w => w = isWord

/-- Two places that differ in that `tail` follows at the second, and in what is not the nearest
character before them. -/
structure Similar (isWord : Char → Bool) (tail : Str) (x y : Cursor) : Prop where
  /-- Behind. -/
  after : y.after = x.after ++ tail
  /-- Before. -/
  before : beginsWord isWord y.before = beginsWord isWord x.before

theorem similar_exactly {f : Cursor → List Cursor}
    (hf : ∀ x y, Similar isWord tail x y → List.Forall₂ (Similar isWord tail) (f x) (f y)) (n : ℕ)
    {x y : Cursor} (h : Similar isWord tail x y) :
    List.Forall₂ (Similar isWord tail) (exactly f n x) (exactly f n y) := by
  induction n generalizing x y with
  | zero => exact .cons h .nil
  | succ n ih => exact List.rel_flatMap (hf x y h) fun _ _ ↦ ih

theorem similar_upTo {f : Cursor → List Cursor}
    (hf : ∀ x y, Similar isWord tail x y → List.Forall₂ (Similar isWord tail) (f x) (f y)) (n : ℕ)
    {x y : Cursor} (h : Similar isWord tail x y) :
    List.Forall₂ (Similar isWord tail) (upTo f n x) (upTo f n y) := by
  induction n generalizing x y with
  | zero => exact .cons h .nil
  | succ n ih => exact List.rel_append (List.rel_flatMap (hf x y h) fun _ _ ↦ ih) (.cons h .nil)

/-- **The matcher does not look beyond `d`.** -/
theorem similar_run (hd : isWord d = false) (htail : ∀ c ∈ tail.head?, c = d) {r : Regex}
    (hr : r.Local isWord d) {x y : Cursor} (h : Similar isWord tail x y) :
    List.Forall₂ (Similar isWord tail) (r.run x) (r.run y) := by
  induction r generalizing x y with
  | cls p =>
    obtain ⟨before, after⟩ := x
    obtain ⟨before', after'⟩ := y
    obtain rfl : after' = after ++ tail := h.after
    cases after with
    | nil =>
      cases tail with
      | nil => exact .nil
      | cons c z =>
        obtain rfl := htail c rfl
        have hc : p c = false := hr
        simp [run, hc]
    | cons c s =>
      by_cases hc : p c = true
      · simp only [run, List.cons_append, hc, if_true]
        exact .cons ⟨rfl, rfl⟩ .nil
      · simp [run, hc]
  | seq r s ihr ihs => exact List.rel_flatMap (ihr hr.1 h) fun _ _ h' ↦ ihs hr.2 h'
  | opt r ih => exact List.rel_append (ih hr h) (.cons h .nil)
  | rep r least more ih =>
    obtain ⟨hr, hmore⟩ := hr
    obtain ⟨m, rfl⟩ := Option.ne_none_iff_exists'.mp hmore
    exact List.rel_flatMap (similar_exactly (fun _ _ ↦ ih hr) least h)
      fun _ _ ↦ similar_upTo (fun _ _ ↦ ih hr) m
  | boundary w =>
    obtain rfl : w = isWord := hr
    have hafter : y.after.head?.any w = x.after.head?.any w := by
      rw [h.after]
      cases x.after with
      | nil =>
        cases tail with
        | nil => rfl
        | cons c z =>
          obtain rfl := htail c rfl
          exact hd
      | cons c s => rfl
    have hbefore : y.before.head?.any w = x.before.head?.any w := h.before
    rw [run, run, hafter, hbefore]
    split_ifs
    · exact .cons h .nil
    · exact .nil

theorem matchLength_similar (hd : isWord d = false) (htail : ∀ c ∈ tail.head?, c = d) {r : Regex}
    (hr : r.Local isWord d) {x y : Cursor} (h : Similar isWord tail x y) :
    r.matchLength y = r.matchLength x := by
  have hrun := similar_run hd htail hr h
  rw [matchLength, matchLength]
  generalize r.run x = xs at hrun ⊢
  generalize r.run y = ys at hrun ⊢
  cases hrun with
  | nil => rfl
  | cons hhead =>
    simp only [List.head?_cons, Option.map_some, h.after, hhead.after, List.length_append]
    congr 1
    omega

theorem le_of_matchLength {r : Regex} {x : Cursor} {n : ℕ} (h : r.matchLength x = some n) :
    n ≤ x.after.length := by
  obtain ⟨y, -, rfl⟩ := Option.map_eq_some_iff.mp h
  exact Nat.sub_le _ _

/-- **The search in a text goes on in what follows**, with the gap it has come to. -/
theorem from_append (hd : isWord d = false) (htail : ∀ c ∈ tail.head?, c = d) {r : Regex}
    (hr : r.Local isWord d) (n : ℕ) (a gap b b' : Str) (hn : a.length ≤ n)
    (hb : beginsWord isWord b = beginsWord isWord b') :
    findFrom r 0 gap b (a ++ tail) = findFrom r 0 gap b' a ++
        findFrom r 0 (restFrom r 0 gap b' a) (a.reverse ++ b) tail ∧
      restFrom r 0 gap b (a ++ tail) =
        restFrom r 0 (restFrom r 0 gap b' a) (a.reverse ++ b) tail := by
  induction n generalizing a gap b b' with
  | zero =>
    obtain rfl : a = [] := List.length_eq_zero_iff.mp (by omega)
    exact ⟨rfl, rfl⟩
  | succ n ih =>
    cases a with
    | nil => exact ⟨rfl, rfl⟩
    | cons c a =>
      rw [List.length_cons] at hn
      have hsame : r.matchLength ⟨b, c :: (a ++ tail)⟩ = r.matchLength ⟨b', c :: a⟩ :=
        matchLength_similar hd htail hr ⟨rfl, hb⟩
      by_cases hmatch : ∃ k, r.matchLength ⟨b', c :: a⟩ = some (k + 1)
      · obtain ⟨k, hk⟩ := hmatch
        have hka : k ≤ a.length := by
          have := le_of_matchLength hk
          rw [List.length_cons] at this
          omega
        obtain ⟨hfind, hrest, -⟩ := from_of_match gap hk
        obtain ⟨hfind', hrest', -⟩ := from_of_match gap (hsame.trans hk)
        rw [List.take_append_of_le_length hka, List.drop_append_of_le_length hka] at hfind' hrest'
        obtain ⟨ihf, ihr⟩ := ih (a.drop k) [] ((c :: a.take k).reverse ++ b)
          ((c :: a.take k).reverse ++ b') (by rw [List.length_drop]; omega) (by
            rw [beginsWord_append_of_ne (by simp), beginsWord_append_of_ne (by simp)])
        have hback : (a.drop k).reverse ++ ((c :: a.take k).reverse ++ b) =
            (c :: a).reverse ++ b := by
          rw [← List.append_assoc, ← List.reverse_append, List.cons_append, List.take_append_drop]
        rw [List.cons_append, hfind', hrest', hfind, hrest, ihf, ihr, hback, List.cons_append]
        exact ⟨rfl, rfl⟩
      · push Not at hmatch
        obtain ⟨hfind, hrest, -⟩ := from_of_no_match gap hmatch
        have hmatch' : ∀ k, r.matchLength ⟨b, c :: (a ++ tail)⟩ ≠ some (k + 1) := by rwa [hsame]
        obtain ⟨hfind', hrest', -⟩ := from_of_no_match gap hmatch'
        obtain ⟨ihf, ihr⟩ := ih a (c :: gap) (c :: b) (c :: b') (by omega) rfl
        have hback : a.reverse ++ c :: b = (c :: a).reverse ++ b := by simp
        rw [List.cons_append, hfind', hrest', hfind, hrest, ihf, ihr, hback]
        exact ⟨rfl, rfl⟩

/-- **The search passes over what no match contains.** -/
theorem from_of_not_accepts {r : Regex} {sep : Str}
    (hsep : ∀ c ∈ sep, r.accepts c = false) (gap b z : Str) :
    findFrom r 0 gap b (sep ++ z) = findFrom r 0 (sep.reverse ++ gap) (sep.reverse ++ b) z ∧
      restFrom r 0 gap b (sep ++ z) =
        restFrom r 0 (sep.reverse ++ gap) (sep.reverse ++ b) z := by
  induction sep generalizing gap b with
  | nil => exact ⟨rfl, rfl⟩
  | cons c sep ih =>
    have hnone : ∀ n, r.matchLength ⟨b, c :: (sep ++ z)⟩ ≠ some (n + 1) := by
      intro n hn
      have hm := (exists_of_matchLength hn).mem_language
      have := accepts_of_mem_language hm c (by simp)
      rw [hsep c List.mem_cons_self] at this
      cases this
    obtain ⟨hfind, hrest, -⟩ := from_of_no_match gap hnone
    obtain ⟨ihf, ihr⟩ := ih (fun e he ↦ hsep e (List.mem_cons_of_mem c he)) (c :: gap) (c :: b)
    have hback (s : Str) : sep.reverse ++ c :: s = (c :: sep).reverse ++ s := by simp
    rw [hback, hback] at ihf ihr
    rw [List.cons_append, hfind, hrest]
    exact ⟨ihf, ihr⟩

/-- The gap so far belongs to the first gap. -/
theorem from_gap (r : Regex) (n : ℕ) {z : Str} (hn : z.length ≤ n) (gap b : Str) :
    findFrom r 0 gap b z =
        (findFrom r 0 [] b z).modifyHead (fun p ↦ (gap.reverse ++ p.1, p.2)) ∧
      (findFrom r 0 gap b z).map Prod.fst ++ [(restFrom r 0 gap b z).reverse] =
        ((findFrom r 0 [] b z).map Prod.fst ++ [(restFrom r 0 [] b z).reverse]).modifyHead
          (gap.reverse ++ ·) := by
  induction n generalizing z gap b with
  | zero =>
    obtain rfl : z = [] := List.length_eq_zero_iff.mp (by omega)
    simp [findFrom, restFrom]
  | succ n ih =>
    cases z with
    | nil => simp [findFrom, restFrom]
    | cons c z =>
      rw [List.length_cons] at hn
      by_cases hmatch : ∃ k, r.matchLength ⟨b, c :: z⟩ = some (k + 1)
      · obtain ⟨k, hk⟩ := hmatch
        obtain ⟨hfind, hrest, -⟩ := from_of_match gap hk
        obtain ⟨hfind', hrest', -⟩ := from_of_match [] hk
        rw [hfind, hrest, hfind', hrest']
        simp
      · push Not at hmatch
        obtain ⟨hfind, hrest, -⟩ := from_of_no_match gap hmatch
        obtain ⟨hfind', hrest', -⟩ := from_of_no_match [] hmatch
        obtain ⟨ihf, ihr⟩ := ih (z := z) (by omega) (c :: gap) (c :: b)
        obtain ⟨ihf', ihr'⟩ := ih (z := z) (by omega) [c] (c :: b)
        rw [hfind, hrest, hfind', hrest']
        refine ⟨?_, ?_⟩
        · rw [ihf, ihf', List.modifyHead_modifyHead]
          congr 1
          funext p
          simp
        · rw [ihr, ihr', List.modifyHead_modifyHead]
          congr 1
          funext p
          simp

/-! ## Separators -/

/-- A text between two others that no match of `r` touches. -/
structure Separator (isWord : Char → Bool) (r : Regex) (sep : Str) : Prop where
  /-- It begins with a character at which matches end. -/
  head : ∃ d z, sep = d :: z ∧ isWord d = false ∧ r.Local isWord d
  /-- It ends with a character at which matches begin. -/
  last : ∀ s, beginsWord isWord (sep.reverse ++ s) = false
  /-- No match has any of its characters. -/
  accepts : ∀ c ∈ sep, r.accepts c = false

variable {r : Regex} {sep : Str}

/-- **The search in two texts with a separator in between.** -/
theorem Separator.found_append (h : Separator isWord r sep) (a b : Str) :
    r.found (a ++ (sep ++ b)) = r.found a ++
        (r.found b).modifyHead (fun p ↦ (r.rest a ++ (sep ++ p.1), p.2)) ∧
      r.gaps (a ++ (sep ++ b)) = (r.found a).map Prod.fst ++
        (r.gaps b).modifyHead (fun g ↦ r.rest a ++ (sep ++ g)) := by
  obtain ⟨d, z, hsep, hd, hlocal⟩ := h.head
  have htail : ∀ c ∈ (sep ++ b).head?, c = d := by
    rw [hsep]
    rintro c ⟨⟩
    rfl
  obtain ⟨hfind, hrest⟩ := from_append hd htail hlocal a.length a [] [] [] le_rfl rfl
  obtain ⟨hfind', hrest'⟩ :=
    from_of_not_accepts h.accepts (restFrom r 0 [] [] a) (a.reverse ++ []) b
  obtain ⟨hfind'', hgaps⟩ := from_gap r b.length le_rfl (sep.reverse ++ restFrom r 0 [] [] a)
    (sep.reverse ++ (a.reverse ++ []))
  -- behind the separator the search starts afresh
  have hnil : ∀ c ∈ ([] : Str).head?, c = d := by simp
  obtain ⟨hfresh, hfresh'⟩ := from_append hd hnil hlocal b.length b []
    (sep.reverse ++ (a.reverse ++ [])) [] le_rfl (h.last _)
  rw [List.append_nil b] at hfresh hfresh'
  have hfresh : findFrom r 0 [] (sep.reverse ++ (a.reverse ++ [])) b = r.found b := by
    rw [hfresh, findFrom, List.append_nil]
    rfl
  have hfresh' : restFrom r 0 [] (sep.reverse ++ (a.reverse ++ [])) b = restFrom r 0 [] [] b := by
    rw [hfresh', restFrom]
  have hbehind (g : Str) : (sep.reverse ++ restFrom r 0 [] [] a).reverse ++ g =
      r.rest a ++ (sep ++ g) := by
    rw [List.reverse_append, List.reverse_reverse, List.append_assoc]
    rfl
  simp only [hbehind, hfresh, hfresh'] at hfind'' hgaps
  have hfound : r.found (a ++ (sep ++ b)) = r.found a ++
      (r.found b).modifyHead (fun p ↦ (r.rest a ++ (sep ++ p.1), p.2)) := by
    rw [← hfind'', ← hfind']
    exact hfind
  refine ⟨hfound, ?_⟩
  have hrest : r.rest (a ++ (sep ++ b)) = (restFrom r 0 (sep.reverse ++ restFrom r 0 [] [] a)
      (sep.reverse ++ (a.reverse ++ [])) b).reverse := by
    rw [← hrest']
    exact congrArg List.reverse hrest
  rw [gaps, hfound, List.map_append, hrest, List.append_assoc, ← hfind'']
  exact congrArg _ hgaps

/-- What can be said of a text by looking at the two sides of a separator. -/
def SplitsAt (P : Str → Prop) (sep : Str) : Prop := ∀ a b, P (a ++ (sep ++ b)) ↔ P a ∨ P b

/-- **What can be said of the outcome of a substitution** by looking at the gaps. -/
theorem SplitsAt.sub {P : Str → Prop} (h : SplitsAt P sep) (hr : 0 < r.minLength) (s : Str) :
    P (r.sub sep s) ↔ ∃ g ∈ r.gaps s, P g := by
  rw [sub_eq_fill hr, gaps]
  induction r.found s with
  | nil => simp [fill]
  | cons p l ih =>
    have hfill : fill sep (p :: l) (r.rest s) = p.1 ++ (sep ++ fill sep l (r.rest s)) := by
      simp [fill]
    rw [hfill, h, ih]
    simp

/-- It can also be said of the gaps of a text. -/
theorem SplitsAt.gaps {P : Str → Prop} (h : SplitsAt P sep) (hsep : Separator isWord r sep) :
    SplitsAt (fun s ↦ ∃ g ∈ r.gaps s, P g) sep := by
  intro a b
  dsimp only
  rw [(hsep.found_append a b).2, Regex.gaps, Regex.gaps]
  cases hb : (r.found b).map Prod.fst ++ [r.rest b] with
  | nil => simp at hb
  | cons g gs =>
    simp only [List.modifyHead_cons, List.mem_append, List.mem_cons, or_and_right, exists_or,
      exists_eq_left, List.not_mem_nil, or_false]
    rw [h (r.rest a) g]
    simp only [or_assoc]

/-- A match after a gap of some kind can be looked for on either side, if only the end of the gap
matters. -/
theorem Separator.splitsAt_found (h : Separator isWord r sep) {Q : Str → Prop} (R : Str → Prop)
    (hQ : ∀ a b, Q (a ++ (sep ++ b)) ↔ Q b) :
    SplitsAt (fun s ↦ ∃ p ∈ r.found s, R p.2 ∧ Q p.1) sep := by
  intro a b
  dsimp only
  rw [(h.found_append a b).1]
  cases r.found b with
  | nil => simp
  | cons p l =>
    simp only [List.modifyHead_cons, List.mem_append, List.mem_cons, or_and_right, exists_or,
      exists_eq_left, hQ]

/-- Only the end of a text matters for how it ends. -/
theorem Delimited.matchesEnd_append {t : Regex} {L : Language Char} {left right : Bool}
    (ht : Delimited isWord t L left right) (hsep : Fence isWord L sep) (a b : Str) :
    t.MatchesEnd (a ++ (sep ++ b)) ↔ t.MatchesEnd b := by
  have hback (v : Str) :
      (a ++ (sep ++ v)).reverse = v.reverse ++ (sep.reverse ++ a.reverse) := by simp
  constructor
  · rintro ⟨v, x, heq, hmatch⟩
    obtain ⟨hx, hleft, -⟩ := (ht.matchesAt_iff _ _ _).mp hmatch
    have heq' : a ++ (sep ++ b) = v ++ (x ++ []) := by rwa [List.append_nil]
    rcases hsep.within_or_beyond hx heq'.symm with ⟨y, -, hy⟩ | ⟨y, rfl, hy⟩
    · obtain ⟨o, inner, c, rfl, -⟩ := hsep.brackets
      simp at hy
    · rw [hy, List.append_nil]
      rw [hback] at hleft
      exact ht.matchesEnd_of_mem hx hleft
  · intro h
    obtain ⟨v, x, rfl, hmatch⟩ :=
      ht.exists_matchesAt h (hsep.beginsWord_reverse_append a.reverse) beginsWord_nil
    refine ⟨a ++ (sep ++ v), x, by simp, ?_⟩
    rwa [hback]

end Regex
