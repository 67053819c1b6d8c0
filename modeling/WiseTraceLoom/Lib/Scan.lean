import WiseTraceLoom.Lib.Regex

/-!
# What a substitution leaves behind

`re.sub` goes through the text once, from left to right, and does not look again at what it has
written.  `Regex.found` lists what it finds, every match together with the gap before it, and
`Scan` says how the list comes about: no match begins in a gap.  The outcome of `Regex.sub` is the
gaps with the replacement in between (`sub_eq_fill`).

Is there anything left to match in the outcome?  A replacement in brackets separates the gaps, so
that a match lies within one gap (`Fence.within_or_beyond`).  It is new only if it owes its right
end to the bracket, that is, if the match that was replaced behind it had begun in the middle of a
word (`Scan.exists_match_iff`).
-/

set_option autoImplicit false

namespace Regex

/-! ## Matches and their contexts -/

/-- The expression can match `x` between `before`, the nearest character first, and `after`. -/
def MatchesAt (r : Regex) (before x after : Str) : Prop :=
  (⟨x.reverse ++ before, after⟩ : Cursor) ∈ r.run ⟨before, x ++ after⟩

/-- The expression matches nowhere in the text: `re.search` finds nothing. -/
def Absent (r : Regex) (s : Str) : Prop := ∀ v w, s = v ++ w → r.run ⟨v.reverse, w⟩ = []

/-- All ways to match from a place are of this form. -/
theorem mem_run_iff {r : Regex} {before after : Str} {y : Cursor} :
    y ∈ r.run ⟨before, after⟩ ↔
      ∃ x, after = x ++ y.after ∧ y.before = x.reverse ++ before ∧
        r.MatchesAt before x y.after := by
  constructor
  · intro hy
    obtain ⟨x, -, hafter, hbefore⟩ := exists_mem_language r _ y hy
    refine ⟨x, hafter, hbefore, ?_⟩
    rw [MatchesAt, ← hbefore, ← hafter]
    exact hy
  · rintro ⟨x, hafter, hbefore, h⟩
    rw [MatchesAt, ← hafter, ← hbefore] at h
    exact h

theorem run_eq_nil_iff {r : Regex} {before after : Str} :
    r.run ⟨before, after⟩ = [] ↔ ∀ x w, after = x ++ w → ¬r.MatchesAt before x w := by
  rw [List.eq_nil_iff_forall_not_mem]
  constructor
  · rintro h x w rfl hx
    exact h _ hx
  · intro h y hy
    obtain ⟨x, hafter, -, hx⟩ := mem_run_iff.mp hy
    exact h x y.after hafter hx

theorem MatchesAt.mem_language {r : Regex} {before x after : Str} (h : r.MatchesAt before x after) :
    x ∈ r.language := by
  obtain ⟨w, hw, hafter, -⟩ := exists_mem_language r _ _ h
  rwa [List.append_cancel_right hafter]

/-- Without boundaries the context does not matter. -/
theorem Plain.matchesAt_iff {r : Regex} (hr : r.Plain) {before x after : Str} :
    r.MatchesAt before x after ↔ x ∈ r.language :=
  ⟨MatchesAt.mem_language, fun h ↦ mem_run hr _ x _ h ⟨rfl, rfl⟩⟩

theorem MatchesAt.ne_nil {r : Regex} (hr : 0 < r.minLength) {before x after : Str}
    (h : r.MatchesAt before x after) : x ≠ [] := by
  have := minLength_le h.mem_language
  exact List.length_pos_iff.mp (by omega)

theorem exists_of_matchLength {r : Regex} {before after : Str} {n : ℕ}
    (h : r.matchLength ⟨before, after⟩ = some n) :
    r.MatchesAt before (after.take n) (after.drop n) := by
  obtain ⟨y, hy, rfl⟩ := Option.map_eq_some_iff.mp h
  obtain ⟨x, hafter, -, hx⟩ := mem_run_iff.mp (List.mem_of_head? hy)
  have hlen : after.length - y.after.length = x.length := by
    rw [hafter, List.length_append]
    omega
  dsimp only
  rw [hlen, hafter, List.take_left, List.drop_left]
  exact hx

/-! ## What is found -/

/-- The matches from some place on, of which `skip` more characters belong to the last one, each
with the gap before it.  The gap so far is given backwards. -/
def findFrom (r : Regex) : ℕ → Str → Str → Str → List (Str × Str)
  | _, _, _, [] => []
  | skip + 1, gap, before, c :: after => findFrom r skip gap (c :: before) after
  | 0, gap, before, c :: after =>
    match r.matchLength ⟨before, c :: after⟩ with
    | some (n + 1) => (gap.reverse, c :: after.take n) :: findFrom r n [] (c :: before) after
    | _ => findFrom r 0 (c :: gap) (c :: before) after

/-- What is left behind the last match, backwards. -/
def restFrom (r : Regex) : ℕ → Str → Str → Str → Str
  | _, gap, _, [] => gap
  | skip + 1, gap, before, c :: after => restFrom r skip gap (c :: before) after
  | 0, gap, before, c :: after =>
    match r.matchLength ⟨before, c :: after⟩ with
    | some (n + 1) => restFrom r n [] (c :: before) after
    | _ => restFrom r 0 (c :: gap) (c :: before) after

/-- `r.finditer(s)`, with the gaps. -/
def found (r : Regex) (s : Str) : List (Str × Str) := findFrom r 0 [] [] s

/-- What is left behind the last match. -/
def rest (r : Regex) (s : Str) : Str := (restFrom r 0 [] [] s).reverse

/-- `r.split(s)`: what is between the matches, before the first and behind the last. -/
def gaps (r : Regex) (s : Str) : List Str := (r.found s).map Prod.fst ++ [r.rest s]

example : (seq (char 'a') (plus (char 'b'))).gaps "xabbaaby".toList =
    ["x".toList, "a".toList, "y".toList] := by decide

theorem subFrom_skip (r : Regex) (repl : Str) (n : ℕ) (before after : Str) :
    subFrom r repl n before after =
      subFrom r repl 0 ((after.take n).reverse ++ before) (after.drop n) := by
  induction n generalizing before after with
  | zero => rfl
  | succ n ih =>
    cases after with
    | nil => rfl
    | cons c after =>
      rw [subFrom, ih, List.take_succ_cons, List.drop_succ_cons, List.reverse_cons,
        List.append_assoc]
      rfl

theorem findFrom_skip (r : Regex) (gap : Str) (n : ℕ) (before after : Str) :
    findFrom r n gap before after =
      findFrom r 0 gap ((after.take n).reverse ++ before) (after.drop n) := by
  induction n generalizing before after with
  | zero => rfl
  | succ n ih =>
    cases after with
    | nil => rfl
    | cons c after =>
      rw [findFrom, ih, List.take_succ_cons, List.drop_succ_cons, List.reverse_cons,
        List.append_assoc]
      rfl

theorem restFrom_skip (r : Regex) (gap : Str) (n : ℕ) (before after : Str) :
    restFrom r n gap before after =
      restFrom r 0 gap ((after.take n).reverse ++ before) (after.drop n) := by
  induction n generalizing before after with
  | zero => rfl
  | succ n ih =>
    cases after with
    | nil => rfl
    | cons c after =>
      rw [restFrom, ih, List.take_succ_cons, List.drop_succ_cons, List.reverse_cons,
        List.append_assoc]
      rfl

/-- Where there is a match, the search goes on behind it. -/
theorem from_of_match {r : Regex} (gap : Str) {before after : Str} {c : Char} {n : ℕ}
    (h : r.matchLength ⟨before, c :: after⟩ = some (n + 1)) :
    findFrom r 0 gap before (c :: after) = (gap.reverse, c :: after.take n) ::
        findFrom r 0 [] ((c :: after.take n).reverse ++ before) (after.drop n) ∧
      restFrom r 0 gap before (c :: after) =
        restFrom r 0 [] ((c :: after.take n).reverse ++ before) (after.drop n) ∧
      ∀ repl, subFrom r repl 0 before (c :: after) = repl ++
        subFrom r repl 0 ((c :: after.take n).reverse ++ before) (after.drop n) := by
  have hback : (after.take n).reverse ++ c :: before = (c :: after.take n).reverse ++ before := by
    simp
  refine ⟨?_, ?_, fun repl ↦ ?_⟩
  · have hstep : findFrom r 0 gap before (c :: after) =
        (gap.reverse, c :: after.take n) :: findFrom r n [] (c :: before) after := by
      rw [findFrom, h]
    rw [hstep, findFrom_skip, hback]
  · have hstep : restFrom r 0 gap before (c :: after) = restFrom r n [] (c :: before) after := by
      rw [restFrom, h]
    rw [hstep, restFrom_skip, hback]
  · have hstep : subFrom r repl 0 before (c :: after) =
        repl ++ subFrom r repl n (c :: before) after := by
      rw [subFrom, h]
    rw [hstep, subFrom_skip, hback]

/-- Where there is none, the gap grows. -/
theorem from_of_no_match {r : Regex} (gap : Str) {before after : Str} {c : Char}
    (h : ∀ n, r.matchLength ⟨before, c :: after⟩ ≠ some (n + 1)) :
    findFrom r 0 gap before (c :: after) = findFrom r 0 (c :: gap) (c :: before) after ∧
      restFrom r 0 gap before (c :: after) = restFrom r 0 (c :: gap) (c :: before) after ∧
      ∀ repl, subFrom r repl 0 before (c :: after) = c :: subFrom r repl 0 (c :: before) after := by
  refine ⟨?_, ?_, fun repl ↦ ?_⟩
  · rw [findFrom]
    split
    · rename_i n hn
      exact absurd hn (h n)
    · rfl
  · rw [restFrom]
    split
    · rename_i n hn
      exact absurd hn (h n)
    · rfl
  · rw [subFrom]
    split
    · rename_i n hn
      exact absurd hn (h n)
    · rfl

/-- From left to right: a gap in which no match begins, a match, and so on, and what is left. -/
inductive Scan (r : Regex) : Str → Str → List (Str × Str) → Str → Prop
  | nil {before last : Str} (h : ∀ v w, last = v ++ w → r.run ⟨v.reverse ++ before, w⟩ = []) :
      Scan r before last [] last
  | cons {before gap m rest last : Str} {l : List (Str × Str)}
      (hgap : ∀ v w, gap = v ++ w → w ≠ [] →
        r.run ⟨v.reverse ++ before, w ++ (m ++ rest)⟩ = [])
      (hm : r.MatchesAt (gap.reverse ++ before) m rest)
      (h : Scan r (m.reverse ++ (gap.reverse ++ before)) rest l last) :
      Scan r before (gap ++ (m ++ rest)) ((gap, m) :: l) last

/-- The gaps with a text in place of the matches. -/
def fill (repl : Str) (l : List (Str × Str)) (last : Str) : Str :=
  l.flatMap (fun p ↦ p.1 ++ repl) ++ last

/-- A place where there is no match, as the search sees it. -/
theorem run_eq_nil_of_matchLength {r : Regex} (hr : 0 < r.minLength) {x : Cursor}
    (h : ∀ n, r.matchLength x ≠ some (n + 1)) : r.run x = [] := by
  refine List.eq_nil_iff_forall_not_mem.mpr fun y hy ↦ ?_
  obtain ⟨n, hn⟩ := matchLength_of_mem_run hr hy
  exact h n hn

theorem scanFrom {r : Regex} (hr : 0 < r.minLength) (n : ℕ) (before gap after : Str)
    (hn : after.length ≤ n)
    (hgap : ∀ v w, gap.reverse = v ++ w → w ≠ [] →
      r.run ⟨v.reverse ++ before, w ++ after⟩ = []) :
    Scan r before (gap.reverse ++ after) (findFrom r 0 gap (gap ++ before) after)
        (restFrom r 0 gap (gap ++ before) after).reverse ∧
      ∀ repl, gap.reverse ++ subFrom r repl 0 (gap ++ before) after =
        fill repl (findFrom r 0 gap (gap ++ before) after)
          (restFrom r 0 gap (gap ++ before) after).reverse := by
  induction n generalizing before gap after with
  | zero =>
    obtain rfl : after = [] := List.length_eq_zero_iff.mp (by omega)
    refine ⟨?_, fun repl ↦ by simp [findFrom, restFrom, subFrom, fill]⟩
    rw [List.append_nil]
    refine .nil fun v w hvw ↦ ?_
    cases w with
    | nil =>
      refine run_eq_nil_iff.mpr fun x w hx hmatch ↦ hmatch.ne_nil hr ?_
      exact (List.append_eq_nil_iff.mp hx.symm).1
    | cons c w =>
      have := hgap v (c :: w) hvw (by simp)
      rwa [List.append_nil] at this
  | succ n ih =>
    cases after with
    | nil => exact ih before gap [] (by simp) hgap
    | cons c after =>
      rw [List.length_cons] at hn
      by_cases hmatch : ∃ k, r.matchLength ⟨gap ++ before, c :: after⟩ = some (k + 1)
      · obtain ⟨k, hk⟩ := hmatch
        obtain ⟨hfind, hrest, hsub⟩ := from_of_match gap hk
        have hm := exists_of_matchLength hk
        rw [List.take_succ_cons, List.drop_succ_cons] at hm
        obtain ⟨hscan, hfill⟩ := ih ((c :: after.take k).reverse ++ (gap ++ before)) []
          (after.drop k) (by rw [List.length_drop]; omega) (by simp)
        rw [List.reverse_nil, List.nil_append, List.nil_append] at hscan
        rw [hfind, hrest]
        refine ⟨?_, fun repl ↦ ?_⟩
        · have hafter : gap.reverse ++ c :: after =
              gap.reverse ++ ((c :: after.take k) ++ after.drop k) := by
            rw [List.cons_append, List.take_append_drop]
          rw [hafter]
          refine .cons (fun v w hvw hw ↦ ?_) ?_ ?_
          · rw [List.cons_append, List.take_append_drop]
            exact hgap v w hvw hw
          · rwa [List.reverse_reverse]
          · rwa [List.reverse_reverse]
        · have hnext := hfill repl
          rw [List.reverse_nil, List.nil_append, List.nil_append] at hnext
          simp only [fill, List.flatMap_cons, List.append_assoc] at hnext ⊢
          rw [hsub, hnext]
      · push Not at hmatch
        obtain ⟨hfind, hrest, hsub⟩ := from_of_no_match gap hmatch
        have hnone := run_eq_nil_of_matchLength hr hmatch
        obtain ⟨hscan, hfill⟩ := ih before (c :: gap) after (by omega) (by
          intro v w hvw hw
          obtain rfl | ⟨w, d, rfl⟩ := List.eq_nil_or_concat' w
          · exact absurd rfl hw
          rw [List.reverse_cons, ← List.append_assoc] at hvw
          obtain ⟨hgap', hcd⟩ := List.append_inj' hvw rfl
          obtain rfl := List.singleton_inj.mp hcd
          rw [List.append_assoc, List.singleton_append]
          by_cases hw : w = []
          · subst hw
            rw [List.append_nil] at hgap'
            rw [← hgap', List.reverse_reverse]
            exact hnone
          · exact hgap v w hgap' hw)
        rw [hfind, hrest]
        refine ⟨?_, fun repl ↦ ?_⟩
        · rw [List.reverse_cons, List.append_assoc] at hscan
          exact hscan
        · rw [hsub, ← List.cons_append, ← hfill repl, List.reverse_cons, List.append_assoc]
          rfl

/-- **The search** goes from left to right. -/
theorem scan_found {r : Regex} (hr : 0 < r.minLength) (s : Str) :
    Scan r [] s (r.found s) (r.rest s) :=
  (scanFrom hr s.length [] [] s le_rfl (by simp)).1

/-- **What a substitution does**: it fills the gaps that the search leaves. -/
theorem sub_eq_fill {r : Regex} (hr : 0 < r.minLength) (repl s : Str) :
    r.sub repl s = fill repl (r.found s) (r.rest s) :=
  (scanFrom hr s.length [] [] s le_rfl (by simp)).2 repl

variable {r : Regex} {before s last : Str} {l : List (Str × Str)}

/-- Each match is one of the text, after its gap. -/
theorem Scan.matches (h : Scan r before s l last) {p : Str × Str} (hp : p ∈ l) :
    ∃ before after, r.MatchesAt (p.1.reverse ++ before) p.2 after := by
  induction h with
  | nil => cases hp
  | @cons before gap m rest last l hgap hm h ih =>
    rcases List.mem_cons.mp hp with rfl | hp
    · exact ⟨before, rest, hm⟩
    · exact ih hp

/-- Nothing is found where nothing matches. -/
theorem Scan.eq_nil (h : Scan r before s l last)
    (hs : ∀ v w, s = v ++ w → r.run ⟨v.reverse ++ before, w⟩ = []) : l = [] := by
  cases h with
  | nil => rfl
  | @cons _ gap m rest _ l hgap hm h =>
    have hnone := hs gap (m ++ rest) rfl
    rw [MatchesAt, hnone] at hm
    exact absurd hm (by simp)

theorem absent_iff_found (hr : 0 < r.minLength) {s : Str} : r.Absent s ↔ r.found s = [] := by
  have hscan := scan_found hr s
  constructor
  · intro h
    refine hscan.eq_nil fun v w hvw ↦ ?_
    rw [List.append_nil]
    exact h v w hvw
  · intro hnil v w hvw
    rw [hnil] at hscan
    generalize r.rest s = last at hscan
    cases hscan with
    | nil h =>
      have := h v w hvw
      rwa [List.append_nil] at this

/-- **A character no class accepts** is written as often as it was there, and once more for every
match if it is in the replacement. -/
theorem Scan.count (h : Scan r before s l last) {d : Char} (hd : r.accepts d = false)
    (repl : Str) : (fill repl l last).count d = s.count d + l.length * repl.count d := by
  induction h with
  | nil => simp [fill]
  | @cons before gap m rest last l hgap hm h ih =>
    have hm0 : m.count d = 0 := by
      refine List.count_eq_zero.mpr fun hmem ↦ ?_
      rw [accepts_of_mem_language hm.mem_language d hmem] at hd
      exact absurd hd (by decide)
    simp only [fill, List.flatMap_cons, List.count_append, List.length_cons] at ih ⊢
    rw [hm0, Nat.succ_mul]
    omega

/-- What a substitution adds of such a character. -/
theorem count_sub (hr : 0 < r.minLength) {d : Char} (hd : r.accepts d = false) (repl s : Str) :
    (r.sub repl s).count d = s.count d + (r.found s).length * repl.count d := by
  rw [sub_eq_fill hr]
  exact (scan_found hr s).count hd repl

/-! ## What can be matched in the outcome -/

/-- A word that avoids a character is on one side of it. -/
theorem within_or_beyond {v x w a b : Str} {d : Char} (hd : d ∉ x)
    (h : v ++ (x ++ w) = a ++ d :: b) :
    (∃ y, a = v ++ (x ++ y) ∧ w = y ++ d :: b) ∨ ∃ y, v = a ++ d :: y ∧ b = y ++ (x ++ w) := by
  rcases List.append_eq_append_iff.mp h with ⟨y, rfl, hxw⟩ | ⟨y, rfl, hdb⟩
  · rcases List.append_eq_append_iff.mp hxw with ⟨z, rfl, rfl⟩ | ⟨z, rfl, hz⟩
    · exact Or.inl ⟨z, rfl, rfl⟩
    · cases z with
      | nil => exact Or.inl ⟨[], by simp, by simpa using hz.symm⟩
      | cons e z =>
        obtain ⟨rfl, -⟩ := List.cons.inj hz
        simp at hd
  · cases y with
    | nil =>
      cases x with
      | nil => exact Or.inl ⟨[], by simp, by simpa using hdb.symm⟩
      | cons e x =>
        obtain ⟨rfl, -⟩ := List.cons.inj hdb
        simp at hd
    | cons e y =>
      obtain ⟨rfl, rfl⟩ := List.cons.inj hdb
      exact Or.inr ⟨y, rfl, rfl⟩

/-- Does the text begin with a word character? -/
def beginsWord (isWord : Char → Bool) (s : Str) : Bool := s.head?.any isWord

variable {isWord : Char → Bool}

@[simp] theorem beginsWord_nil : beginsWord isWord [] = false := rfl

@[simp] theorem beginsWord_cons (c : Char) (s : Str) :
    beginsWord isWord (c :: s) = isWord c := rfl

theorem beginsWord_append_of_ne {s t : Str} (hs : s ≠ []) :
    beginsWord isWord (s ++ t) = beginsWord isWord s := by
  cases s with
  | nil => exact absurd rfl hs
  | cons c s => rfl

/-- The matches of `t` are the words of `L`, where there is no word character on the left or on the
right if this is asked for. -/
structure Delimited (isWord : Char → Bool) (t : Regex) (L : Language Char) (left right : Bool) :
    Prop where
  /-- The matches. -/
  matchesAt_iff : ∀ before x after, t.MatchesAt before x after ↔ x ∈ L ∧
    (left = true → beginsWord isWord before = false) ∧
      (right = true → beginsWord isWord after = false)
  /-- They are not empty. -/
  ne_nil : ∀ x ∈ L, x ≠ []
  /-- They begin with a word character if this matters. -/
  head : left = true → ∀ x ∈ L, beginsWord isWord x = true

/-- Texts that no word of `L` overlaps, and that have no word characters at their ends. -/
structure Fence (isWord : Char → Bool) (L : Language Char) (repl : Str) : Prop where
  /-- Brackets. -/
  brackets : ∃ o inner c, repl = o :: (inner ++ [c]) ∧ isWord o = false ∧ isWord c = false ∧
    ∀ x ∈ L, o ∉ x ∧ c ∉ x ∧ ¬x <:+: inner

theorem Fence.beginsWord_append {L : Language Char} {repl : Str} (h : Fence isWord L repl)
    (s : Str) : beginsWord isWord (repl ++ s) = false := by
  obtain ⟨o, inner, c, rfl, ho, -, -⟩ := h.brackets
  exact ho

theorem Fence.beginsWord_reverse_append {L : Language Char} {repl : Str}
    (h : Fence isWord L repl) (s : Str) : beginsWord isWord (repl.reverse ++ s) = false := by
  obtain ⟨o, inner, c, rfl, -, hc, -⟩ := h.brackets
  simpa using hc

/-- **A word lies on one side of a fence.** -/
theorem Fence.within_or_beyond {L : Language Char} {repl : Str} (h : Fence isWord L repl)
    {v x w a b : Str} (hx : x ∈ L) (heq : v ++ (x ++ w) = a ++ (repl ++ b)) :
    (∃ y, a = v ++ (x ++ y) ∧ w = y ++ (repl ++ b)) ∨
      ∃ y, v = a ++ (repl ++ y) ∧ b = y ++ (x ++ w) := by
  obtain ⟨o, inner, c, rfl, -, -, hL⟩ := h.brackets
  obtain ⟨ho, hc, hinner⟩ := hL x hx
  simp only [List.cons_append, List.append_assoc] at heq ⊢
  rcases Regex.within_or_beyond ho heq with hleft | ⟨y, rfl, hy⟩
  · exact Or.inl hleft
  · rcases Regex.within_or_beyond hc hy.symm with ⟨z, rfl, -⟩ | ⟨z, rfl, rfl⟩
    · exact absurd ⟨y, z, by rw [List.append_assoc]⟩ hinner
    · exact Or.inr ⟨z, by simp, rfl⟩

/-- The text on its own ends in a match. -/
def MatchesEnd (t : Regex) (s : Str) : Prop := ∃ v x, s = v ++ x ∧ t.MatchesAt v.reverse x []

/-- What is to the left of a word looks the same in the text and in the outcome. -/
theorem Delimited.left_iff {t : Regex} {L : Language Char} {left right : Bool}
    (ht : Delimited isWord t L left right) {before ob v x w : Str} (hx : x ∈ L)
    (hctx : left = true → beginsWord isWord before = false ∨
      beginsWord isWord (v ++ (x ++ w)) = false)
    (h : left = true → beginsWord isWord (v.reverse ++ ob) = false) :
    left = true → beginsWord isWord (v.reverse ++ before) = false := by
  intro hleft
  by_cases hv : v = []
  · subst hv
    refine (hctx hleft).resolve_right ?_
    rw [List.nil_append, beginsWord_append_of_ne (ht.ne_nil x hx), ht.head hleft x hx]
    simp
  · have hv' : v.reverse ≠ [] := by simpa using hv
    rw [beginsWord_append_of_ne hv']
    have := h hleft
    rwa [beginsWord_append_of_ne hv'] at this

/-- A match that ends a text is one on its own. -/
theorem Delimited.matchesEnd_of_mem {t : Regex} {L : Language Char} {left right : Bool}
    (ht : Delimited isWord t L left right) {ob v x : Str} (hx : x ∈ L)
    (hleft : left = true → beginsWord isWord (v.reverse ++ ob) = false) :
    t.MatchesEnd (v ++ x) := by
  refine ⟨v, x, rfl, (ht.matchesAt_iff _ _ _).mpr ⟨hx, fun hl ↦ ?_, fun _ ↦ rfl⟩⟩
  by_cases hv : v = []
  · rw [hv]
    rfl
  · have := hleft hl
    rwa [beginsWord_append_of_ne (by simpa using hv)] at this

/-- What a text ends in on its own is matched between texts that do not continue words. -/
theorem Delimited.exists_matchesAt {t : Regex} {L : Language Char} {left right : Bool}
    (ht : Delimited isWord t L left right) {s ob w : Str} (h : t.MatchesEnd s)
    (hob : beginsWord isWord ob = false) (hw : beginsWord isWord w = false) :
    ∃ v x, s = v ++ x ∧ t.MatchesAt (v.reverse ++ ob) x w := by
  obtain ⟨v, x, hs, hmatch⟩ := h
  obtain ⟨hx, hleft, -⟩ := (ht.matchesAt_iff _ _ _).mp hmatch
  refine ⟨v, x, hs, (ht.matchesAt_iff _ _ _).mpr ⟨hx, fun hl ↦ ?_, fun _ ↦ hw⟩⟩
  by_cases hv : v = []
  · rw [hv]
    exact hob
  · rw [beginsWord_append_of_ne (by simpa using hv)]
    exact hleft hl

/-- **What a search has missed in a gap** it has missed because a word went on behind it. -/
theorem Delimited.of_missed {t : Regex} {L : Language Char} {left right : Bool}
    (ht : Delimited isWord t L left right) {before x y m rest out : Str} (hx : x ∈ L) (hm : m ≠ [])
    (hleft : left = true → beginsWord isWord before = false)
    (hright : right = true → beginsWord isWord (y ++ out) = false)
    (hnone : t.run ⟨before, x ++ (y ++ (m ++ rest))⟩ = []) :
    right = true ∧ y = [] ∧ beginsWord isWord m = true := by
  have hmiss : ¬(right = true → beginsWord isWord (y ++ (m ++ rest)) = false) :=
    fun hend ↦ run_eq_nil_iff.mp hnone x _ rfl ((ht.matchesAt_iff _ _ _).mpr ⟨hx, hleft, hend⟩)
  obtain ⟨hr, hend⟩ := Classical.not_imp.mp hmiss
  have hy : y = [] := by
    by_contra hy
    rw [beginsWord_append_of_ne hy] at hend hright
    exact hend (hright hr)
  subst hy
  rw [List.nil_append, beginsWord_append_of_ne hm, Bool.not_eq_false] at hend
  exact ⟨hr, rfl, hend⟩

/-- **What can be matched in the outcome of a substitution** is what ends a gap and is followed by a
match that begins with a word character.  The hypotheses are that `t` matches nowhere where the
search for `r` has passed, and that the matches of `r` end where words end. -/
theorem Scan.exists_match_iff {t : Regex} {L : Language Char} {left right : Bool}
    (h : Scan r before s l last) (hr : 0 < r.minLength) (ht : Delimited isWord t L left right)
    {repl : Str} (hrepl : Fence isWord L repl) {whole : Str} (hwhole : before.reverse ++ s = whole)
    (hquiet : ∀ b a, b.reverse ++ a = whole → r.run ⟨b, a⟩ = [] → t.run ⟨b, a⟩ = [])
    (hends : left = true → ∀ b x a, r.MatchesAt b x a → beginsWord isWord a = false)
    (hctx : left = true → beginsWord isWord before = false ∨ beginsWord isWord s = false)
    {ob : Str} (hob : beginsWord isWord ob = false) :
    (∃ v x w, fill repl l last = v ++ (x ++ w) ∧ t.MatchesAt (v.reverse ++ ob) x w) ↔
      right = true ∧ ∃ p ∈ l, beginsWord isWord p.2 = true ∧ t.MatchesEnd p.1 := by
  induction h generalizing ob with
  | @nil before last hlast =>
    constructor
    · rintro ⟨v, x, w, heq, hmatch⟩
      obtain ⟨hx, hleft, hright⟩ := (ht.matchesAt_iff _ _ _).mp hmatch
      rw [fill, List.flatMap_nil, List.nil_append] at heq
      subst heq
      have hsame := (ht.matchesAt_iff (v.reverse ++ before) x w).mpr
        ⟨hx, ht.left_iff hx hctx hleft, hright⟩
      have hnone := hquiet _ _ (by simpa using hwhole) (hlast v (x ++ w) rfl)
      exact absurd hsame (run_eq_nil_iff.mp hnone x w rfl)
    · rintro ⟨-, p, hp, -⟩
      cases hp
  | @cons before gap m rest last l hgap hm h ih =>
    have ih := ih (by simpa using hwhole) (fun hleft ↦ Or.inr (hends hleft _ _ _ hm))
      (hrepl.beginsWord_reverse_append (gap.reverse ++ ob))
    have hfill : fill repl ((gap, m) :: l) last = gap ++ (repl ++ fill repl l last) := by
      simp [fill]
    have hback (v : Str) : (gap ++ (repl ++ v)).reverse ++ ob =
        v.reverse ++ (repl.reverse ++ (gap.reverse ++ ob)) := by simp
    constructor
    · rintro ⟨v, x, w, heq, hmatch⟩
      obtain ⟨hx, hleft, hright⟩ := (ht.matchesAt_iff _ _ _).mp hmatch
      rw [hfill] at heq
      rcases hrepl.within_or_beyond hx heq.symm with ⟨y, rfl, rfl⟩ | ⟨y, rfl, hrest⟩
      · -- within the gap: it would have been found, had its right end been the end of a word
        have hleft' := ht.left_iff hx (w := y ++ (m ++ rest)) (by simpa using hctx) hleft
        have hnone : t.run ⟨v.reverse ++ before, x ++ (y ++ (m ++ rest))⟩ = [] := by
          refine hquiet _ _ (by simpa using hwhole) ?_
          have := hgap v (x ++ y) rfl (by simp [ht.ne_nil x hx])
          rwa [List.append_assoc] at this
        obtain ⟨hr', rfl, hend⟩ := ht.of_missed hx (hm.ne_nil hr) hleft' hright hnone
        rw [List.append_nil]
        exact ⟨hr', _, List.mem_cons_self, hend, ht.matchesEnd_of_mem hx hleft⟩
      · -- beyond the replacement
        rw [hback] at hmatch
        obtain ⟨hr', p, hp, hword, hend⟩ := ih.mp ⟨y, x, w, hrest, hmatch⟩
        exact ⟨hr', p, List.mem_cons_of_mem _ hp, hword, hend⟩
    · rintro ⟨hr', p, hp, hword, hend⟩
      rcases List.mem_cons.mp hp with rfl | hp
      · obtain ⟨v, x, hgapeq, hmatch⟩ :=
          ht.exists_matchesAt hend hob (hrepl.beginsWord_append (fill repl l last))
        refine ⟨v, x, _, ?_, hmatch⟩
        rw [hfill, ← List.append_assoc v, ← hgapeq]
      · obtain ⟨v, x, w, heq, hmatch⟩ := ih.mpr ⟨hr', p, hp, hword, hend⟩
        refine ⟨gap ++ (repl ++ v), x, w, ?_, by rwa [hback]⟩
        rw [hfill, heq]
        simp

theorem not_absent_iff {t : Regex} {s : Str} :
    ¬t.Absent s ↔ ∃ v x w, s = v ++ (x ++ w) ∧ t.MatchesAt (v.reverse ++ []) x w := by
  constructor
  · intro h
    by_contra hnone
    refine h fun v w hvw ↦ run_eq_nil_iff.mpr ?_
    rintro x w rfl hmatch
    exact hnone ⟨v, x, w, hvw, by rwa [List.append_nil]⟩
  · rintro ⟨v, x, w, hvw, hmatch⟩ h
    rw [List.append_nil] at hmatch
    exact run_eq_nil_iff.mp (h v (x ++ w) hvw) x w rfl hmatch

/-- **Does a substitution leave anything to match?**  For an expression that was substituted, or
that matched nowhere in the text. -/
theorem absent_sub_iff {t : Regex} {L : Language Char} {left right : Bool} (hr : 0 < r.minLength)
    (ht : Delimited isWord t L left right) {repl : Str} (hrepl : Fence isWord L repl)
    (hquiet : t = r ∨ t.Absent s)
    (hends : left = true → ∀ b x a, r.MatchesAt b x a → beginsWord isWord a = false) :
    t.Absent (r.sub repl s) ↔
      ¬(right = true ∧ ∃ p ∈ r.found s, beginsWord isWord p.2 = true ∧ t.MatchesEnd p.1) := by
  have hnone (b a : Str) (hba : b.reverse ++ a = s) (hrun : r.run ⟨b, a⟩ = []) :
      t.run ⟨b, a⟩ = [] := by
    rcases hquiet with rfl | habsent
    · exact hrun
    · rw [← b.reverse_reverse]
      exact habsent b.reverse a hba.symm
  have hbegin : beginsWord isWord [] = false := rfl
  have hiff := (scan_found hr s).exists_match_iff hr ht hrepl rfl hnone hends
    (fun _ ↦ Or.inl rfl) hbegin
  rw [← hiff, ← sub_eq_fill hr, ← not_absent_iff, not_not]

end Regex
