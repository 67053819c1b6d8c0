import Mathlib.Computability.Language
import WiseTraceLoom.Lib.Text

/-!
# Regular expressions

The regular expressions of the standard library, as far as they have neither alternatives nor
groups that are referred to, and `re.sub` for them.

* `Regex.run` is the backtracking matcher: all ways to match from a place in the text, in the order
  in which they are tried.  The match is the first of them.
* `Regex.language` is what an expression says, word boundaries apart.  `exists_mem_language` and
  `mem_run` connect the two: what the matcher reads is a word of the language, and it finds every
  word of the language of an expression without boundaries.
* `Regex.sub` replaces the matches from left to right.  A text without a match stays as it is
  (`sub_eq_self`), one with a match gets the replacement (`mem_sub_of_match`), and a character no
  class accepts is never lost (`mem_sub_of_not_accepts`).

An expression is expected to match no empty text where it is given to `sub`, and the same holds
for the body of a repetition without an upper bound.
-/

set_option autoImplicit false

/-- What the interpreter knows about characters beyond ASCII.  The tables differ from one version
of Unicode to the next; the ASCII part does not. -/
structure Unicode where
  /-- `\w`. -/
  isWord : Char → Bool
  /-- `\d`. -/
  isDecimal : Char → Bool
  /-- `str.lower()`. -/
  lower : Str → Str
  /-- The ASCII part of `\w`. -/
  isWord_ascii : ∀ c : Char, c.toNat < 128 → isWord c = (c.isAlphanum || c == '_')
  /-- The ASCII part of `\d`. -/
  isDecimal_ascii : ∀ c : Char, c.toNat < 128 → isDecimal c = c.isDigit
  /-- How ASCII texts are lowered. -/
  lower_ascii : ∀ s : Str, (∀ c ∈ s, c.toNat < 128) → lower s = Text.lower s

/-- The tables that know ASCII only. -/
def Unicode.ascii : Unicode where
  isWord c := c.isAlphanum || c == '_'
  isDecimal := Char.isDigit
  lower := Text.lower
  isWord_ascii _ _ := rfl
  isDecimal_ascii _ _ := rfl
  lower_ascii _ _ := rfl

/-- A regular expression. -/
inductive Regex where
  /-- One character of a class. -/
  | cls (p : Char → Bool)
  /-- One after the other. -/
  | seq (r s : Regex)
  /-- `r?`. -/
  | opt (r : Regex)
  /-- `least` times and up to `more` times more, or any number of times more. -/
  | rep (r : Regex) (least : ℕ) (more : Option ℕ)
  /-- `\b`: exactly one of the characters around is a word character. -/
  | boundary (isWord : Char → Bool)

/-- A place in a text: what is before it, the nearest character first, and what is after it. -/
structure Cursor where
  /-- What is before it, backwards. -/
  before : Str
  /-- What is after it. -/
  after : Str
  deriving DecidableEq

/-- From `x`, reading `w` leads to `y`. -/
def Cursor.Reads (x : Cursor) (w : Str) (y : Cursor) : Prop :=
  x.after = w ++ y.after ∧ y.before = w.reverse ++ x.before

namespace Cursor

theorem Reads.refl (x : Cursor) : x.Reads [] x := ⟨rfl, rfl⟩

theorem Reads.trans {x y z : Cursor} {v w : Str} (h : x.Reads v y) (h' : y.Reads w z) :
    x.Reads (v ++ w) z := by
  constructor
  · rw [h.1, h'.1, List.append_assoc]
  · rw [h'.2, h.2, List.reverse_append, List.append_assoc]

/-- What is read can be read in two steps. -/
theorem Reads.split {x z : Cursor} {v w : Str} (h : x.Reads (v ++ w) z) :
    ∃ y, x.Reads v y ∧ y.Reads w z := by
  refine ⟨⟨v.reverse ++ x.before, w ++ z.after⟩, ⟨?_, rfl⟩, rfl, ?_⟩
  · rw [h.1, List.append_assoc]
  · rw [h.2, List.reverse_append, List.append_assoc]

theorem Reads.eq_of_nil {x y : Cursor} (h : x.Reads [] y) : y = x := by
  obtain ⟨b, a⟩ := x
  obtain ⟨b', a'⟩ := y
  obtain ⟨ha, hb⟩ := h
  dsimp only [List.nil_append, List.reverse_nil] at ha hb
  rw [ha, hb]

theorem Reads.length {x y : Cursor} {w : Str} (h : x.Reads w y) :
    x.after.length = w.length + y.after.length := by
  rw [h.1, List.length_append]

end Cursor

namespace Regex

/-! ## Spellings -/

/-- One character. -/
def char (c : Char) : Regex := cls (· == c)

/-- One of these characters. -/
def oneOf (s : Str) : Regex := cls s.contains

/-- `r+`. -/
def plus (r : Regex) : Regex := rep r 1 none

/-- `r{n}`. -/
def times (r : Regex) (n : ℕ) : Regex := rep r n (some 0)

/-- `r{m,n}`. -/
def between (r : Regex) (m n : ℕ) : Regex := rep r m (some (n - m))

/-! ## The matcher -/

/-- A step done `n` times. -/
def exactly (step : Cursor → List Cursor) : ℕ → Cursor → List Cursor
  | 0, x => [x]
  | n + 1, x => (step x).flatMap (exactly step n)

/-- A step done at most `n` times, more often first. -/
def upTo (step : Cursor → List Cursor) : ℕ → Cursor → List Cursor
  | 0, x => [x]
  | n + 1, x => (step x).flatMap (upTo step n) ++ [x]

/-- All ways to match from a place, in the order in which they are tried. -/
def run : Regex → Cursor → List Cursor
  | cls p, x =>
    match x.after with
    | [] => []
    | c :: s => if p c then [⟨c :: x.before, s⟩] else []
  | seq r s, x => (r.run x).flatMap s.run
  | opt r, x => r.run x ++ [x]
  | rep r least more, x =>
    (exactly r.run least x).flatMap fun y ↦ upTo r.run (more.getD y.after.length) y
  | boundary isWord, x =>
    if x.before.head?.any isWord != x.after.head?.any isWord then [x] else []

/-- How many characters the match from this place has, if there is one. -/
def matchLength (r : Regex) (x : Cursor) : Option ℕ :=
  (r.run x).head?.map fun y ↦ x.after.length - y.after.length

/-- `re.sub` from some place on, of which `skip` more characters belong to the last match. -/
def subFrom (r : Regex) (repl : Str) : ℕ → Str → Str → Str
  | _, _, [] => []
  | skip + 1, before, c :: after => subFrom r repl skip (c :: before) after
  | 0, before, c :: after =>
    match r.matchLength ⟨before, c :: after⟩ with
    | some (n + 1) => repl ++ subFrom r repl n (c :: before) after
    | _ => c :: subFrom r repl 0 (c :: before) after

/-- `r.sub(repl, s)`. -/
def sub (r : Regex) (repl s : Str) : Str := subFrom r repl 0 [] s

example : (seq (char 'a') (plus (char 'b'))).sub "-".toList "xabbaaby".toList =
    "x-a-y".toList := by decide

/-! ## The language -/

/-- The texts an expression matches, word boundaries apart. -/
def language : Regex → Language Char
  | cls p => {w | ∃ c, p c = true ∧ w = [c]}
  | seq r s => r.language * s.language
  | opt r => r.language + 1
  | rep r least more => {w | ∃ n, least ≤ n ∧ (∀ m ∈ more, n ≤ least + m) ∧ w ∈ r.language ^ n}
  | boundary _ => 1

/-- Does a class of `r` accept this character? -/
def accepts (c : Char) : Regex → Bool
  | cls p => p c
  | seq r s => r.accepts c || s.accepts c
  | opt r => r.accepts c
  | rep r _ _ => r.accepts c
  | boundary _ => false

/-- A lower bound for the length of a match. -/
def minLength : Regex → ℕ
  | cls _ => 1
  | seq r s => r.minLength + s.minLength
  | opt _ => 0
  | rep r least _ => least * r.minLength
  | boundary _ => 0

/-- Is there a class every match reads with, and does it accept only characters with `q`? -/
def Needs (q : Char → Prop) : Regex → Prop
  | cls p => ∀ c, p c = true → q c
  | seq r s => r.Needs q ∨ s.Needs q
  | opt _ => False
  | rep r least _ => 0 < least ∧ r.Needs q
  | boundary _ => False

/-- Does every match end in a class that accepts only characters with `q`? -/
def Ends (q : Char → Prop) : Regex → Prop
  | cls p => ∀ c, p c = true → q c
  | seq _ s => s.Ends q
  | opt _ => False
  | rep r least _ => 0 < least ∧ r.Ends q
  | boundary _ => False

/-- No boundaries, and a body that reads something in every repetition without an upper bound. -/
def Plain : Regex → Prop
  | cls _ => True
  | seq r s => r.Plain ∧ s.Plain
  | opt r => r.Plain
  | rep r _ more => r.Plain ∧ (more = none → 0 < r.minLength)
  | boundary _ => False

theorem accepts_of_mem_language {r : Regex} {w : Str} (h : w ∈ r.language) :
    ∀ c ∈ w, r.accepts c = true := by
  induction r generalizing w with
  | cls p =>
    obtain ⟨d, hd, rfl⟩ := h
    intro c hc
    rwa [List.mem_singleton.mp hc]
  | seq r s ihr ihs =>
    obtain ⟨a, ha, b, hb, rfl⟩ := Language.mem_mul.mp h
    intro c hc
    rw [accepts, Bool.or_eq_true]
    exact (List.mem_append.mp hc).imp (ihr ha c) (ihs hb c)
  | opt r ih =>
    intro c hc
    rcases (Language.mem_add _ _ _).mp h with h | h
    · exact ih h c hc
    · rw [(Language.mem_one _).mp h] at hc
      simp at hc
  | rep r least more ih =>
    obtain ⟨n, -, -, hn⟩ := h
    obtain ⟨ws, rfl, -, hws⟩ := Language.mem_pow.mp hn
    intro c hc
    obtain ⟨v, hv, hcv⟩ := List.mem_flatten.mp hc
    exact ih (hws v hv) c hcv
  | boundary isWord =>
    intro c hc
    rw [(Language.mem_one _).mp h] at hc
    simp at hc

/-- Words of at least `k` characters each, one after the other. -/
theorem mul_le_length_flatten {k : ℕ} {ws : List Str} (h : ∀ w ∈ ws, k ≤ w.length) :
    ws.length * k ≤ ws.flatten.length := by
  induction ws with
  | nil => simp
  | cons w ws ih =>
    have hw := h w List.mem_cons_self
    have hws := ih fun v hv ↦ h v (List.mem_cons_of_mem w hv)
    rw [List.flatten_cons, List.length_append, List.length_cons, Nat.succ_mul]
    omega

theorem minLength_le {r : Regex} {w : Str} (h : w ∈ r.language) : r.minLength ≤ w.length := by
  induction r generalizing w with
  | cls p =>
    obtain ⟨d, -, rfl⟩ := h
    exact le_rfl
  | seq r s ihr ihs =>
    obtain ⟨a, ha, b, hb, rfl⟩ := Language.mem_mul.mp h
    rw [List.length_append]
    exact Nat.add_le_add (ihr ha) (ihs hb)
  | opt r ih => exact Nat.zero_le _
  | rep r least more ih =>
    obtain ⟨n, hleast, -, hn⟩ := h
    obtain ⟨ws, rfl, rfl, hws⟩ := Language.mem_pow.mp hn
    calc least * r.minLength ≤ ws.length * r.minLength := Nat.mul_le_mul_right _ hleast
      _ ≤ ws.flatten.length := mul_le_length_flatten fun v hv ↦ ih (hws v hv)
  | boundary isWord => exact Nat.zero_le _

theorem Needs.exists_mem {q : Char → Prop} {r : Regex} (hr : r.Needs q) {w : Str}
    (h : w ∈ r.language) : ∃ c ∈ w, q c := by
  induction r generalizing w with
  | cls p =>
    obtain ⟨d, hd, rfl⟩ := h
    exact ⟨d, List.mem_singleton_self d, hr d hd⟩
  | seq r s ihr ihs =>
    obtain ⟨a, ha, b, hb, rfl⟩ := Language.mem_mul.mp h
    rcases hr with hr | hs
    · obtain ⟨c, hc, hq⟩ := ihr hr ha
      exact ⟨c, List.mem_append_left b hc, hq⟩
    · obtain ⟨c, hc, hq⟩ := ihs hs hb
      exact ⟨c, List.mem_append_right a hc, hq⟩
  | opt r ih => exact hr.elim
  | rep r least more ih =>
    obtain ⟨n, hleast, -, hn⟩ := h
    obtain ⟨ws, rfl, hlen, hws⟩ := Language.mem_pow.mp hn
    obtain ⟨v, hv⟩ := List.exists_mem_of_length_pos (l := ws) (by have := hr.1; omega)
    obtain ⟨c, hc, hq⟩ := ih hr.2 (hws v hv)
    exact ⟨c, List.mem_flatten.mpr ⟨v, hv, hc⟩, hq⟩
  | boundary isWord => exact hr.elim

theorem Ends.exists_getLast? {q : Char → Prop} {r : Regex} (hr : r.Ends q) {w : Str}
    (h : w ∈ r.language) : ∃ c, w.getLast? = some c ∧ q c := by
  induction r generalizing w with
  | cls p =>
    obtain ⟨d, hd, rfl⟩ := h
    exact ⟨d, rfl, hr d hd⟩
  | seq r s ihr ihs =>
    obtain ⟨a, ha, b, hb, rfl⟩ := Language.mem_mul.mp h
    obtain ⟨c, hc, hq⟩ := ihs hr hb
    exact ⟨c, by rw [List.getLast?_append, hc]; rfl, hq⟩
  | opt r ih => exact hr.elim
  | rep r least more ih =>
    obtain ⟨n, hleast, -, hn⟩ := h
    have hpos := hr.1
    obtain ⟨m, rfl⟩ : ∃ m, n = m + 1 := ⟨n - 1, by omega⟩
    rw [pow_succ] at hn
    obtain ⟨a, ha, b, hb, rfl⟩ := Language.mem_mul.mp hn
    obtain ⟨c, hc, hq⟩ := ih hr.2 hb
    exact ⟨c, by rw [List.getLast?_append, hc]; rfl, hq⟩
  | boundary isWord => exact hr.elim

/-! ## The matcher and the language -/

/-- Whatever this step reads is in `L`. -/
def Sound (L : Language Char) (step : Cursor → List Cursor) : Prop :=
  ∀ x y, y ∈ step x → ∃ w ∈ L, x.Reads w y

/-- This step reads whatever is in `L`. -/
def Complete (L : Language Char) (step : Cursor → List Cursor) : Prop :=
  ∀ x w y, w ∈ L → x.Reads w y → y ∈ step x

theorem Sound.exactly {L : Language Char} {step : Cursor → List Cursor} (h : Sound L step)
    (n : ℕ) : Sound (L ^ n) (exactly step n) := by
  induction n with
  | zero =>
    intro x y hy
    rw [List.mem_singleton.mp hy]
    exact ⟨[], by rw [pow_zero]; exact Language.nil_mem_one, .refl x⟩
  | succ n ih =>
    intro x z hz
    obtain ⟨y, hy, hz⟩ := List.mem_flatMap.mp hz
    obtain ⟨v, hv, hxy⟩ := h x y hy
    obtain ⟨w, hw, hyz⟩ := ih y z hz
    exact ⟨v ++ w, by rw [pow_succ']; exact Language.append_mem_mul hv hw, hxy.trans hyz⟩

theorem Sound.upTo {L : Language Char} {step : Cursor → List Cursor} (h : Sound L step) (n : ℕ)
    (x z : Cursor) (hz : z ∈ upTo step n x) : ∃ k ≤ n, ∃ w ∈ L ^ k, x.Reads w z := by
  have hstop (n : ℕ) (x : Cursor) : ∃ k ≤ n, ∃ w ∈ L ^ k, x.Reads w x :=
    ⟨0, Nat.zero_le n, [], by rw [pow_zero]; exact Language.nil_mem_one, .refl x⟩
  induction n generalizing x with
  | zero =>
    rw [List.mem_singleton.mp hz]
    exact hstop 0 x
  | succ n ih =>
    rcases List.mem_append.mp hz with hz | hz
    · obtain ⟨y, hy, hz⟩ := List.mem_flatMap.mp hz
      obtain ⟨v, hv, hxy⟩ := h x y hy
      obtain ⟨k, hk, w, hw, hyz⟩ := ih y hz
      exact ⟨k + 1, by omega, v ++ w, by rw [pow_succ']; exact Language.append_mem_mul hv hw,
        hxy.trans hyz⟩
    · rw [List.mem_singleton.mp hz]
      exact hstop (n + 1) x

/-- **Soundness of the matcher**: what it reads is a word of the language. -/
theorem exists_mem_language (r : Regex) : Sound r.language r.run := by
  induction r with
  | cls p =>
    rintro ⟨before, after⟩ y hy
    cases after with
    | nil => exact absurd hy (by simp [run])
    | cons c s =>
      simp only [run] at hy
      split_ifs at hy with hc
      · rw [List.mem_singleton.mp hy]
        exact ⟨[c], ⟨c, hc, rfl⟩, rfl, rfl⟩
      · simp at hy
  | seq r s ihr ihs =>
    intro x z hz
    obtain ⟨y, hy, hz⟩ := List.mem_flatMap.mp hz
    obtain ⟨v, hv, hxy⟩ := ihr x y hy
    obtain ⟨w, hw, hyz⟩ := ihs y z hz
    exact ⟨v ++ w, Language.append_mem_mul hv hw, hxy.trans hyz⟩
  | opt r ih =>
    intro x y hy
    rcases List.mem_append.mp hy with hy | hy
    · obtain ⟨w, hw, hxy⟩ := ih x y hy
      exact ⟨w, (Language.mem_add _ _ _).mpr (Or.inl hw), hxy⟩
    · rw [List.mem_singleton.mp hy]
      exact ⟨[], (Language.mem_add _ _ _).mpr (Or.inr Language.nil_mem_one), .refl x⟩
  | rep r least more ih =>
    intro x z hz
    obtain ⟨y, hy, hz⟩ := List.mem_flatMap.mp hz
    obtain ⟨v, hv, hxy⟩ := ih.exactly least x y hy
    obtain ⟨k, hk, w, hw, hyz⟩ := ih.upTo _ y z hz
    refine ⟨v ++ w, ⟨least + k, Nat.le_add_right _ _, ?_, ?_⟩, hxy.trans hyz⟩
    · rintro m rfl
      exact Nat.add_le_add_left hk least
    · rw [pow_add]
      exact Language.append_mem_mul hv hw
  | boundary isWord =>
    intro x y hy
    simp only [run] at hy
    split_ifs at hy
    · rw [List.mem_singleton.mp hy]
      exact ⟨[], Language.nil_mem_one, .refl x⟩
    · simp at hy

theorem Complete.exactly {L : Language Char} {step : Cursor → List Cursor} (h : Complete L step)
    (n : ℕ) : Complete (L ^ n) (exactly step n) := by
  induction n with
  | zero =>
    intro x w y hw hxy
    rw [pow_zero, Language.mem_one] at hw
    subst hw
    rw [hxy.eq_of_nil]
    exact List.mem_singleton_self x
  | succ n ih =>
    intro x w z hw hxz
    rw [pow_succ'] at hw
    obtain ⟨u, hu, v, hv, rfl⟩ := Language.mem_mul.mp hw
    obtain ⟨y, hxy, hyz⟩ := hxz.split
    exact List.mem_flatMap.mpr ⟨y, h x u y hu hxy, ih y v z hv hyz⟩

theorem Complete.upTo {L : Language Char} {step : Cursor → List Cursor} (h : Complete L step)
    {k n : ℕ} (hk : k ≤ n) : ∀ x w y, w ∈ L ^ k → x.Reads w y → y ∈ upTo step n x := by
  induction n generalizing k with
  | zero =>
    intro x w y hw hxy
    obtain rfl : k = 0 := by omega
    exact h.exactly 0 x w y hw hxy
  | succ n ih =>
    intro x w z hw hxz
    rw [Regex.upTo, List.mem_append]
    cases k with
    | zero => exact Or.inr (h.exactly 0 x w z hw hxz)
    | succ k =>
      rw [pow_succ'] at hw
      obtain ⟨u, hu, v, hv, rfl⟩ := Language.mem_mul.mp hw
      obtain ⟨y, hxy, hyz⟩ := hxz.split
      exact Or.inl (List.mem_flatMap.mpr ⟨y, h x u y hu hxy, ih (by omega) y v z hv hyz⟩)

/-- A text made of `n` words that are not empty has at least `n` characters. -/
theorem le_length_of_mem_pow {r : Regex} (hr : 0 < r.minLength) {n : ℕ} {w : Str}
    (h : w ∈ r.language ^ n) : n ≤ w.length := by
  obtain ⟨ws, rfl, rfl, hws⟩ := Language.mem_pow.mp h
  have := mul_le_length_flatten (k := 1) fun v hv ↦ hr.trans_le (minLength_le (hws v hv))
  omega

/-- **Completeness of the matcher**: every word of the language is among the ways to match. -/
theorem mem_run {r : Regex} (hr : r.Plain) : Complete r.language r.run := by
  induction r with
  | cls p =>
    rintro ⟨before, after⟩ w y ⟨c, hc, rfl⟩ ⟨hafter, hbefore⟩
    obtain ⟨b, a⟩ := y
    dsimp only at hafter hbefore
    subst hafter hbefore
    simp [run, hc]
  | seq r s ihr ihs =>
    intro x w z hw hxz
    obtain ⟨u, hu, v, hv, rfl⟩ := Language.mem_mul.mp hw
    obtain ⟨y, hxy, hyz⟩ := hxz.split
    exact List.mem_flatMap.mpr ⟨y, ihr hr.1 x u y hu hxy, ihs hr.2 y v z hv hyz⟩
  | opt r ih =>
    intro x w y hw hxy
    rw [run, List.mem_append]
    rcases (Language.mem_add _ _ _).mp hw with hw | hw
    · exact Or.inl (ih hr x w y hw hxy)
    · rw [(Language.mem_one _).mp hw] at hxy
      rw [hxy.eq_of_nil]
      exact Or.inr (List.mem_singleton_self x)
  | rep r least more ih =>
    rintro x w z ⟨n, hleast, hmore, hw⟩ hxz
    obtain ⟨k, rfl⟩ := Nat.exists_eq_add_of_le hleast
    rw [pow_add] at hw
    obtain ⟨u, hu, v, hv, rfl⟩ := Language.mem_mul.mp hw
    obtain ⟨y, hxy, hyz⟩ := hxz.split
    refine List.mem_flatMap.mpr ⟨y, (ih hr.1).exactly least x u y hu hxy, ?_⟩
    -- an unbounded repetition cannot be longer than what is left
    have hk : k ≤ more.getD y.after.length := by
      cases more with
      | none =>
        have := le_length_of_mem_pow (hr.2 rfl) hv
        rw [Option.getD_none, hyz.length]
        omega
      | some m => exact Nat.le_of_add_le_add_left (hmore m rfl)
    exact (ih hr.1).upTo hk y v z hv hyz
  | boundary isWord => exact hr.elim

/-! ## Boundaries and options -/

theorem mem_run_boundary {isWord : Char → Bool} {x y : Cursor} :
    y ∈ (boundary isWord).run x ↔
      y = x ∧ x.before.head?.any isWord ≠ x.after.head?.any isWord := by
  simp only [run]
  split_ifs with h
  · simpa using fun _ ↦ h
  · simpa using fun _ ↦ h

/-- An expression in front of a boundary. -/
theorem mem_run_seq_boundary {r : Regex} {isWord : Char → Bool} {x y : Cursor} :
    y ∈ (seq r (boundary isWord)).run x ↔
      y ∈ r.run x ∧ y.before.head?.any isWord ≠ y.after.head?.any isWord := by
  rw [run, List.mem_flatMap]
  constructor
  · rintro ⟨z, hz, hy⟩
    obtain ⟨rfl, h⟩ := mem_run_boundary.mp hy
    exact ⟨hz, h⟩
  · rintro ⟨hy, h⟩
    exact ⟨y, hy, mem_run_boundary.mpr ⟨rfl, h⟩⟩

/-- An expression behind a boundary. -/
theorem mem_run_boundary_seq {r : Regex} {isWord : Char → Bool} {x y : Cursor} :
    y ∈ (seq (boundary isWord) r).run x ↔
      x.before.head?.any isWord ≠ x.after.head?.any isWord ∧ y ∈ r.run x := by
  rw [run, List.mem_flatMap]
  constructor
  · rintro ⟨z, hz, hy⟩
    obtain ⟨rfl, h⟩ := mem_run_boundary.mp hz
    exact ⟨h, hy⟩
  · rintro ⟨h, hy⟩
    exact ⟨x, mem_run_boundary.mpr ⟨rfl, h⟩, hy⟩

theorem mem_run_of_boundary_seq {r : Regex} {isWord : Char → Bool} {x y : Cursor}
    (h : y ∈ (seq (boundary isWord) r).run x) : y ∈ r.run x := (mem_run_boundary_seq.mp h).2

/-- What is optional can be left out. -/
theorem mem_language_opt_seq {r s : Regex} {w : Str} (h : w ∈ s.language) :
    w ∈ (seq (opt r) s).language :=
  Language.append_mem_mul (a := []) ((Language.mem_add _ _ _).mpr (Or.inr Language.nil_mem_one)) h

/-- A text of `n` characters of a class. -/
theorem mem_language_times {p : Char → Bool} {w : Str} (h : ∀ c ∈ w, p c = true) :
    w ∈ (times (cls p) w.length).language := by
  refine ⟨w.length, le_rfl, fun m hm ↦ Nat.le_add_right _ m, Language.mem_pow.mpr ?_⟩
  refine ⟨w.map fun c ↦ [c], ?_, by rw [List.length_map], ?_⟩
  · rw [← List.flatMap_def, List.flatMap_singleton']
  · intro v hv
    obtain ⟨c, hc, rfl⟩ := List.mem_map.mp hv
    exact ⟨c, h c hc, rfl⟩

/-! ## Substitution -/

/-- The match is one of the ways to match. -/
theorem matchLength_eq_some {r : Regex} {x : Cursor} {n : ℕ} (h : r.matchLength x = some n) :
    ∃ w ∈ r.language, w.length = n ∧ w <+: x.after := by
  obtain ⟨y, hy, rfl⟩ := Option.map_eq_some_iff.mp h
  obtain ⟨w, hw, hxy⟩ := exists_mem_language r x y (List.mem_of_head? hy)
  exact ⟨w, hw, by rw [hxy.length]; omega, ⟨y.after, hxy.1.symm⟩⟩

theorem matchLength_of_run_eq_nil {r : Regex} {x : Cursor} (h : r.run x = []) :
    r.matchLength x = none := by
  rw [matchLength, h]
  rfl

/-- If there is a way to match, there is a match, and it is not empty. -/
theorem matchLength_of_mem_run {r : Regex} (hr : 0 < r.minLength) {x y : Cursor}
    (h : y ∈ r.run x) : ∃ n, r.matchLength x = some (n + 1) := by
  cases hrun : r.run x with
  | nil => simp [hrun] at h
  | cons z zs =>
    obtain ⟨n, hn⟩ : ∃ n, r.matchLength x = some n := ⟨_, by rw [matchLength, hrun]; rfl⟩
    obtain ⟨w, hw, hlen, -⟩ := matchLength_eq_some hn
    have := minLength_le hw
    exact ⟨n - 1, by rw [hn]; congr 1; omega⟩

theorem subFrom_eq_self {r : Regex} {repl : Str} {before after : Str}
    (h : ∀ v w, after = v ++ w → r.run ⟨v.reverse ++ before, w⟩ = []) :
    subFrom r repl 0 before after = after := by
  induction after generalizing before with
  | nil => rfl
  | cons c after ih =>
    have hnone := matchLength_of_run_eq_nil (h [] (c :: after) rfl)
    rw [List.reverse_nil, List.nil_append] at hnone
    rw [subFrom, hnone]
    refine congrArg (c :: ·) (ih fun v w hvw ↦ ?_)
    have := h (c :: v) w (by rw [hvw, List.cons_append])
    rwa [List.reverse_cons, List.append_assoc] at this

theorem mem_subFrom_of_match {r : Regex} (hr : 0 < r.minLength) {repl : Str} {d : Char}
    (hd : d ∈ repl) {before v w : Str} {y : Cursor} (h : y ∈ r.run ⟨v.reverse ++ before, w⟩) :
    d ∈ subFrom r repl 0 before (v ++ w) := by
  obtain ⟨c, w', hc⟩ : ∃ c w', w = c :: w' := by
    obtain ⟨u, hu, hxy⟩ := exists_mem_language r _ y h
    have hlen : w.length = u.length + y.after.length := hxy.length
    exact List.exists_cons_of_length_pos (by have := minLength_le hu; omega)
  induction v generalizing before with
  | nil =>
    obtain ⟨n, hn⟩ := matchLength_of_mem_run hr h
    rw [hc, List.reverse_nil, List.nil_append] at hn
    rw [hc, List.nil_append, subFrom, hn]
    exact List.mem_append_left _ hd
  | cons e v ih =>
    rw [List.cons_append, subFrom]
    split
    · exact List.mem_append_left _ hd
    · refine List.mem_cons_of_mem _ (ih ?_)
      rwa [List.reverse_cons, List.append_assoc] at h

/-- A text without a match stays as it is. -/
theorem sub_eq_self {r : Regex} {repl s : Str}
    (h : ∀ v w, s = v ++ w → r.run ⟨v.reverse, w⟩ = []) : r.sub repl s = s := by
  refine subFrom_eq_self fun v w hvw ↦ ?_
  rw [List.append_nil]
  exact h v w hvw

/-- Where there is a match, the replacement is written. -/
theorem mem_sub_of_match {r : Regex} (hr : 0 < r.minLength) {repl : Str} {d : Char} (hd : d ∈ repl)
    {v w : Str} {y : Cursor} (h : y ∈ r.run ⟨v.reverse, w⟩) : d ∈ r.sub repl (v ++ w) := by
  rw [← List.append_nil v.reverse] at h
  exact mem_subFrom_of_match hr hd h

/-- A text that has changed contains the replacement. -/
theorem mem_sub_of_ne {r : Regex} (hr : 0 < r.minLength) {repl s : Str} {d : Char} (hd : d ∈ repl)
    (h : r.sub repl s ≠ s) : d ∈ r.sub repl s := by
  by_contra hmem
  refine h (sub_eq_self fun v w hvw ↦ List.eq_nil_iff_forall_not_mem.mpr fun y hy ↦ hmem ?_)
  rw [hvw]
  exact mem_sub_of_match hr hd hy

/-- A text that has no character of a kind that every match needs stays as it is. -/
theorem sub_eq_self_of_needs {q : Char → Prop} {r : Regex} (hr : r.Needs q) (repl : Str) {s : Str}
    (hs : ∀ c ∈ s, ¬ q c) : r.sub repl s = s := by
  refine sub_eq_self fun v w hvw ↦ List.eq_nil_iff_forall_not_mem.mpr fun y hy ↦ ?_
  obtain ⟨u, hu, hxy⟩ := exists_mem_language r _ y hy
  obtain ⟨c, hc, hq⟩ := hr.exists_mem hu
  have hcw : c ∈ w := by
    rw [show w = u ++ y.after from hxy.1]
    exact List.mem_append_left _ hc
  exact hs c (by rw [hvw]; exact List.mem_append_right v hcw) hq

theorem mem_subFrom_of_not_accepts {r : Regex} {d : Char} (hr : r.accepts d = false) {repl : Str}
    {skip : ℕ} {before after : Str} (hskip : d ∉ after.take skip) (hd : d ∈ after) :
    d ∈ subFrom r repl skip before after := by
  induction after generalizing skip before with
  | nil => simp at hd
  | cons c after ih =>
    cases skip with
    | succ n =>
      rw [List.take_succ_cons, List.mem_cons, not_or] at hskip
      exact ih hskip.2 (List.mem_of_ne_of_mem hskip.1 hd)
    | zero =>
      rw [subFrom]
      split
      · rename_i n hn
        obtain ⟨w, hw, hlen, hpre⟩ := matchLength_eq_some hn
        have htake : d ∉ (c :: after).take n.succ := by
          rw [← hlen, ← List.prefix_iff_eq_take.mp hpre]
          intro hmem
          rw [accepts_of_mem_language hw d hmem] at hr
          exact absurd hr (by decide)
        rw [List.take_succ_cons, List.mem_cons, not_or] at htake
        exact List.mem_append_right _ (ih htake.2 (List.mem_of_ne_of_mem htake.1 hd))
      · rcases List.mem_cons.mp hd with rfl | hd
        · exact List.mem_cons_self
        · exact List.mem_cons_of_mem c (ih (by simp) hd)

/-- **A character that no class accepts is never lost.** -/
theorem mem_sub_of_not_accepts {r : Regex} {d : Char} (hr : r.accepts d = false) (repl : Str)
    {s : Str} (hd : d ∈ s) : d ∈ r.sub repl s :=
  mem_subFrom_of_not_accepts hr (by simp) hd

end Regex
