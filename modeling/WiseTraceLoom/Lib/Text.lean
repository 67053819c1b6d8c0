import Mathlib.Data.List.Basic
import Mathlib.Data.List.DropRight
import Mathlib.Data.Int.Order.Basic

/-!
# Text

A `Str` is a list of characters: what Python calls a `str`, up to the lone surrogates a `Char`
excludes.  This file has the string operations of the standard library that programs of this kind
use to build identifiers, file names and the material of a hash, and the facts that make such
strings readable again: a number can be recovered from its digits (`ofInt_injective`,
`toInt?_ofInt`, `zeroPad_injective`), and two texts joined by a separator that the first of them
does not contain can be taken apart (`append_sep_inj`, `partition_append`).
-/

set_option autoImplicit false

/-- A Python `str`, as the list of its code points. -/
abbrev Str := List Char

namespace Text

/-- A property of all characters of a text is decided by looking at each of them.  There are
finitely many characters, but trying them all is no good. -/
instance (priority := 2000) decidableForallMem {P : Char → Prop} [DecidablePred P] (s : Str) :
    Decidable (∀ c ∈ s, P c) := List.decidableBAll P s

/-- The same for a property of some character. -/
instance (priority := 2000) decidableExistsMem {P : Char → Prop} [DecidablePred P] (s : Str) :
    Decidable (∃ c ∈ s, P c) := List.decidableBEx P s

/-! ## White space and case -/

/-- `str.isspace` of one character. -/
def isSpace (c : Char) : Bool :=
  let n := c.toNat
  (9 ≤ n && n ≤ 13) || (28 ≤ n && n ≤ 32) || n == 0x85 || n == 0xa0 || n == 0x1680 ||
    (0x2000 ≤ n && n ≤ 0x200a) || n == 0x2028 || n == 0x2029 || n == 0x202f || n == 0x205f ||
    n == 0x3000

/-- `str.strip()`. -/
def strip (s : Str) : Str := ((s.dropWhile isSpace).reverse.dropWhile isSpace).reverse

/-- `str.rstrip()`. -/
def rstrip (s : Str) : Str := (s.reverse.dropWhile isSpace).reverse

/-- `str.lower()`, on the letters `A` to `Z`. -/
def lower (s : Str) : Str := s.map Char.toLower

/-! ## Joining and splitting -/

/-- `sep.join(parts)`. -/
def join (sep : Str) (parts : List Str) : Str := List.intercalate sep parts

/-- Does a line end here? -/
def isLineBreak (c : Char) : Bool :=
  let n := c.toNat
  (10 ≤ n && n ≤ 13) || (28 ≤ n && n ≤ 30) || n == 0x85 || n == 0x2028 || n == 0x2029

/-- `str.splitlines()`: a carriage return and the line feed after it end one line, and nothing
follows the end of the last line. -/
def splitlines : Str → List Str
  | [] => []
  | c :: s =>
    if c == '\r' && s.head? == some '\n' then splitlines s
    else if isLineBreak c then [] :: splitlines s
    else match splitlines s with
      | [] => [[c]]
      | line :: lines => (c :: line) :: lines

example : splitlines "a\r\nb\n\nc".toList = ["a".toList, "b".toList, [], "c".toList] := by decide

/-- The text before and after the first `sep`, as `str.partition` returns them around it. -/
def partition (sep : Char) (s : Str) : Str × Str :=
  (s.takeWhile (· ≠ sep), (s.dropWhile (· ≠ sep)).drop 1)

theorem partition_append {sep : Char} {a : Str} (b : Str) (h : sep ∉ a) :
    partition sep (a ++ sep :: b) = (a, b) := by
  have ha : ∀ c ∈ a, decide (c ≠ sep) = true := fun c hc ↦
    decide_eq_true fun hcs ↦ h (hcs ▸ hc)
  rw [partition, List.takeWhile_append_of_pos ha, List.dropWhile_append_of_pos ha]
  simp

/-- Two joined texts can be taken apart at the separator. -/
theorem append_sep_inj {sep : Char} {a b x y : Str} (ha : sep ∉ a) (hb : sep ∉ b)
    (h : a ++ sep :: x = b ++ sep :: y) : a = b ∧ x = y := by
  have := congrArg (partition sep) h
  rwa [partition_append x ha, partition_append y hb, Prod.mk.injEq] at this

/-- They can be taken apart from the right as well, if the second ones do not contain it. -/
theorem append_sep_inj_right {sep : Char} {a b x y : Str} (hx : sep ∉ x) (hy : sep ∉ y)
    (h : a ++ sep :: x = b ++ sep :: y) : a = b ∧ x = y := by
  have hrev : x.reverse ++ sep :: a.reverse = y.reverse ++ sep :: b.reverse := by
    simpa using congrArg List.reverse h
  obtain ⟨hxy, hab⟩ := append_sep_inj (fun hmem ↦ hx (List.mem_reverse.mp hmem))
    (fun hmem ↦ hy (List.mem_reverse.mp hmem)) hrev
  exact ⟨List.reverse_injective hab, List.reverse_injective hxy⟩

/-! ## `repr` -/

/-- How `repr` writes one character between quotes `q`.  Beyond ASCII everything is taken to be
printable. -/
def reprChar (q c : Char) : Str :=
  let hex (n : ℕ) : Char := "0123456789abcdef".toList.getD n '0'
  if c = q ∨ c = '\\' then ['\\', c]
  else if c = '\n' then ['\\', 'n']
  else if c = '\r' then ['\\', 'r']
  else if c = '\t' then ['\\', 't']
  else if c.toNat < 32 ∨ c.toNat = 127 then ['\\', 'x', hex (c.toNat / 16), hex (c.toNat % 16)]
  else [c]

/-- `repr(s)`: in single quotes, unless only double quotes save an escape. -/
def repr (s : Str) : Str :=
  let q := if s.contains '\'' && !s.contains '"' then '"' else '\''
  q :: (s.flatMap (reprChar q) ++ [q])

/-! ## Numbers -/

/-- `str(n)` of a natural number. -/
def ofNat (n : ℕ) : Str := Nat.toDigits 10 n

/-- `str(n)`. -/
def ofInt : ℤ → Str
  | .ofNat n => ofNat n
  | .negSucc n => '-' :: ofNat (n + 1)

theorem isDigit_of_mem_ofNat {n : ℕ} {c : Char} (h : c ∈ ofNat n) : c.isDigit = true :=
  Nat.isDigit_of_mem_toDigits (by decide) (by decide) h

theorem ofNat_injective : Function.Injective ofNat := by
  intro m n h
  have := congrArg (fun s ↦ Nat.ofDigitChars 10 s 0) h
  simpa [ofNat] using this

theorem ofInt_injective : Function.Injective ofInt := by
  have hminus (n : ℕ) (s : Str) : ofNat n ≠ '-' :: s := fun h ↦ by
    have := isDigit_of_mem_ofNat (n := n) (c := '-') (by rw [h]; simp)
    simp at this
  rintro (m | m) (n | n) h
  · rw [ofNat_injective h]
  · exact absurd h (hminus m _)
  · exact absurd h.symm (hminus n _)
  · rw [Nat.succ.inj (ofNat_injective (List.cons_injective h))]

/-- The characters of a decimal number. -/
theorem not_mem_ofInt {c : Char} (hd : c.isDigit = false) (hc : c ≠ '-') (n : ℤ) :
    c ∉ ofInt n := by
  cases n with
  | ofNat n => exact fun h ↦ by simp [isDigit_of_mem_ofNat h] at hd
  | negSucc n =>
    intro h
    rcases List.mem_cons.mp h with h | h
    · exact hc h
    · simp [isDigit_of_mem_ofNat h] at hd

/-- `f"{n:0{width}d}"`: the sign, if any, comes before the zeros. -/
def zeroPad (width : ℕ) : ℤ → Str
  | .ofNat n => (ofNat n).leftpad width '0'
  | .negSucc n => '-' :: (ofNat (n + 1)).leftpad (width - 1) '0'

theorem ofDigitChars_leftpad (width n : ℕ) :
    Nat.ofDigitChars 10 ((ofNat n).leftpad width '0') 0 = n := by
  rw [List.leftpad, Nat.ofDigitChars_append, Nat.ofDigitChars_replicate_zero, Nat.mul_zero, ofNat,
    Nat.ofDigitChars_ten_toDigits]

theorem isDigit_of_mem_leftpad {width n : ℕ} {c : Char} (h : c ∈ (ofNat n).leftpad width '0') :
    c.isDigit = true := by
  rw [List.leftpad, List.mem_append, List.mem_replicate] at h
  rcases h with ⟨-, rfl⟩ | h
  · rfl
  · exact isDigit_of_mem_ofNat h

theorem not_mem_zeroPad {c : Char} (hd : c.isDigit = false) (hc : c ≠ '-') (width : ℕ) (n : ℤ) :
    c ∉ zeroPad width n := by
  cases n with
  | ofNat n => exact fun h ↦ by simp [isDigit_of_mem_leftpad h] at hd
  | negSucc n =>
    intro h
    rcases List.mem_cons.mp h with h | h
    · exact hc h
    · simp [isDigit_of_mem_leftpad h] at hd

theorem zeroPad_injective (width : ℕ) : Function.Injective (zeroPad width) := by
  have hpad (w m n : ℕ) (h : (ofNat m).leftpad w '0' = (ofNat n).leftpad w '0') : m = n := by
    rw [← ofDigitChars_leftpad w m, h, ofDigitChars_leftpad]
  have hminus (w n : ℕ) (s : Str) : (ofNat n).leftpad w '0' ≠ '-' :: s := fun h ↦ by
    have hmem : '-' ∈ (ofNat n).leftpad w '0' := by rw [h]; simp
    have := isDigit_of_mem_leftpad hmem
    simp at this
  rintro (m | m) (n | n) h
  · rw [hpad width m n h]
  · exact absurd h (hminus width m _)
  · exact absurd h.symm (hminus width n _)
  · rw [Nat.succ.inj (hpad _ _ _ (List.cons_injective h))]

/-- The digits of a literal in which single underscores may stand between digits. -/
def digitsOf : Str → Option Str
  | [] => none
  | [c] => if c.isDigit then some [c] else none
  | c :: '_' :: s => if c.isDigit then (digitsOf s).map (c :: ·) else none
  | c :: s => if c.isDigit then (digitsOf s).map (c :: ·) else none

/-- `int(s)`: white space around, a sign, decimal digits. -/
def toInt? (s : Str) : Option ℤ :=
  match strip s with
  | '-' :: t => (digitsOf t).map fun ds ↦ -(Nat.ofDigitChars 10 ds 0 : ℤ)
  | '+' :: t => (digitsOf t).map fun ds ↦ (Nat.ofDigitChars 10 ds 0 : ℤ)
  | t => (digitsOf t).map fun ds ↦ (Nat.ofDigitChars 10 ds 0 : ℤ)

theorem isSpace_of_isDigit {c : Char} (h : c.isDigit = true) : isSpace c = false := by
  simp only [Char.isDigit, Bool.and_eq_true, decide_eq_true_eq] at h
  simp only [isSpace, Char.toNat, Bool.or_eq_false_iff, Bool.and_eq_false_iff, beq_eq_false_iff_ne,
    decide_eq_false_iff_not]
  have h1 : 48 ≤ c.val.toNat := h.1
  have h2 : c.val.toNat ≤ 57 := h.2
  omega

theorem strip_of_not_isSpace {s : Str} (h : ∀ c ∈ s, isSpace c = false) : strip s = s := by
  have hdrop (t : Str) (ht : ∀ c ∈ t, isSpace c = false) : t.dropWhile isSpace = t := by
    cases t with
    | nil => rfl
    | cons c t =>
      rw [List.dropWhile_cons_of_neg]
      simp [ht c (by simp)]
  rw [strip, hdrop s h, hdrop s.reverse fun c hc ↦ h c (List.mem_reverse.mp hc),
    List.reverse_reverse]

theorem strip_of_ends {s : Str} (hhead : ∀ c ∈ s.head?, isSpace c = false)
    (hlast : ∀ c ∈ s.getLast?, isSpace c = false) : strip s = s := by
  have hdrop (t : Str) (ht : ∀ c ∈ t.head?, isSpace c = false) : t.dropWhile isSpace = t := by
    cases t with
    | nil => rfl
    | cons c t => rw [List.dropWhile_cons_of_neg (by simp [ht c rfl])]
  rw [strip, hdrop s hhead, hdrop s.reverse (by rwa [List.head?_reverse]), List.reverse_reverse]

/-- What is stripped has no white space at its ends. -/
theorem strip_strip (s : Str) : strip (strip s) = strip s := by
  have hdrop : (strip s).dropWhile isSpace = strip s := by
    have hinit : strip s <+: s.dropWhile isSpace := List.rdropWhile_prefix isSpace _
    cases hs : strip s with
    | nil => rfl
    | cons c t =>
      rw [hs] at hinit
      obtain ⟨rest, hrest⟩ := hinit
      have hhead := List.head_dropWhile_not isSpace (l := s) (by rw [← hrest]; simp)
      simp only [← hrest, List.cons_append, List.head_cons] at hhead
      rw [List.dropWhile_cons_of_neg (by rw [hhead]; exact Bool.false_ne_true)]
  rw [strip, hdrop]
  exact List.rdropWhile_idempotent isSpace _

theorem digitsOf_of_isDigit {s : Str} (hne : s ≠ []) (h : ∀ c ∈ s, c.isDigit = true) :
    digitsOf s = some s := by
  induction s using digitsOf.induct with
  | case1 => exact absurd rfl hne
  | case2 c hc => simp [digitsOf, hc]
  | case3 c hc => exact absurd (h c (by simp)) hc
  | case4 c s hc => exact absurd (h '_' (by simp)) (by decide)
  | case5 c s hc => exact absurd (h '_' (by simp)) (by decide)
  | case6 c s hs hus hc ih =>
    rw [digitsOf, if_pos hc, ih hs fun d hd ↦ h d (List.mem_cons_of_mem c hd), Option.map_some]
    · exact hs
    · exact hus
  | case7 c s hs hus hc => exact absurd (h c (by simp)) hc

/-- `int(str(n))` is `n`. -/
theorem toInt?_ofInt (n : ℤ) : toInt? (ofInt n) = some n := by
  have hdig (m : ℕ) : ∀ c ∈ ofNat m, c.isDigit = true := fun c ↦ isDigit_of_mem_ofNat
  have hne (m : ℕ) : ofNat m ≠ [] := Nat.toDigits_ne_nil
  have hval (m : ℕ) : Nat.ofDigitChars 10 (ofNat m) 0 = m := Nat.ofDigitChars_ten_toDigits
  cases n with
  | ofNat n =>
    rw [ofInt, toInt?, strip_of_not_isSpace fun c hc ↦ isSpace_of_isDigit (hdig n c hc)]
    split
    · rename_i t heq
      exact absurd (hdig n '-' (by rw [heq]; simp)) (by decide)
    · rename_i t heq
      exact absurd (hdig n '+' (by rw [heq]; simp)) (by decide)
    · rw [digitsOf_of_isDigit (hne n) (hdig n), Option.map_some, hval]
      rfl
  | negSucc n =>
    have hspace : ∀ c ∈ '-' :: ofNat (n + 1), isSpace c = false := fun c hc ↦ by
      rcases List.mem_cons.mp hc with rfl | hc
      · decide
      · exact isSpace_of_isDigit (hdig _ c hc)
    rw [ofInt, toInt?, strip_of_not_isSpace hspace]
    simp only [digitsOf_of_isDigit (hne _) (hdig _), Option.map_some, hval]
    rfl

end Text
