import Mathlib.Logic.Relation
import WiseTraceLoom.Lib.Text

/-!
# Texts without white space at the ends of their lines

`rstripLines s` is `[line.rstrip() for line in s.splitlines()]`.  Programs join these lines again to
compare texts up to white space nobody sees.  Three notions of white space meet there: what `strip`
takes away, what ends a line, and the line feed the lines are joined with.

## What is here

* `normalLines_rstripLines`, `NormalLines.rstripLines_strip_join`: the lines of a stripped text are
  `NormalLines`, and such lines come back when they are joined and taken apart again, so that doing
  it twice is doing it once.
* `strip_surround`: white space around a text does not matter.
* `Padded.rstripLines_strip_eq`: nor does it at the ends of lines, unless it ends a line itself.  A
  line ends before a line break, but not in the middle of `\r\n` (`LineEnd`).
-/

set_option autoImplicit false

namespace Text

/-- The lines of a text, each without white space at its end. -/
def rstripLines (s : Str) : List Str := (splitlines s).map rstrip

/-! ## Stripping -/

theorem isSpace_of_isLineBreak {c : Char} (h : isLineBreak c = true) : isSpace c = true := by
  simp only [isLineBreak, isSpace, Bool.or_eq_true, Bool.and_eq_true, decide_eq_true_eq,
    beq_iff_eq] at h ⊢
  omega

theorem rstrip_append_of_isSpace {s w : Str} (hw : ∀ c ∈ w, isSpace c = true) :
    rstrip (s ++ w) = rstrip s := by
  rw [rstrip, List.reverse_append,
    List.dropWhile_append_of_pos fun c hc ↦ hw c (List.mem_reverse.mp hc), rstrip]

theorem rstrip_append_of_ne_nil {s t : Str} (ht : rstrip t ≠ []) :
    rstrip (s ++ t) = s ++ rstrip t := by
  have hdrop : t.reverse.dropWhile isSpace ≠ [] := fun h ↦ ht (by rw [rstrip, h, List.reverse_nil])
  rw [rstrip, List.reverse_append, List.dropWhile_append, if_neg (by simpa using hdrop),
    List.reverse_append, List.reverse_reverse, rstrip]

theorem rstrip_eq_nil_iff {s : Str} : rstrip s = [] ↔ ∀ c ∈ s, isSpace c = true :=
  List.rdropWhile_eq_nil_iff

theorem rstrip_rstrip (s : Str) : rstrip (rstrip s) = rstrip s :=
  List.rdropWhile_idempotent isSpace s

/-- The last character is put in front after everything else has been stripped. -/
theorem rstrip_cons (c : Char) (s : Str) : rstrip (c :: s) = rstrip (c :: rstrip s) := by
  by_cases h : rstrip s = []
  · rw [h]
    exact rstrip_append_of_isSpace (s := [c]) (rstrip_eq_nil_iff.mp h)
  · have hcons : rstrip (c :: rstrip s) = c :: rstrip (rstrip s) :=
      rstrip_append_of_ne_nil (s := [c]) (t := rstrip s) (by rwa [rstrip_rstrip])
    rw [hcons, rstrip_rstrip]
    exact rstrip_append_of_ne_nil (s := [c]) h

theorem rstrip_cons_of_not_isSpace {c : Char} (hc : isSpace c = false) (s : Str) :
    rstrip (c :: s) = c :: rstrip s := by
  by_cases h : rstrip s = []
  · rw [rstrip_cons, h, rstrip, List.reverse_singleton, List.dropWhile_cons_of_neg (by simp [hc])]
    rfl
  · exact rstrip_append_of_ne_nil (s := [c]) h

theorem strip_eq_rstrip (s : Str) : strip s = rstrip (s.dropWhile isSpace) := rfl

/-- **White space around a text** is stripped. -/
theorem strip_surround {a b : Str} (s : Str) (ha : ∀ c ∈ a, isSpace c = true)
    (hb : ∀ c ∈ b, isSpace c = true) : strip (a ++ s ++ b) = strip s := by
  rw [strip_eq_rstrip, List.append_assoc, List.dropWhile_append_of_pos ha, List.dropWhile_append]
  split_ifs with h
  · have hnil : s.dropWhile isSpace = [] := List.isEmpty_iff.mp h
    have hall : ∀ c ∈ b.dropWhile isSpace, isSpace c = true := fun c hc ↦
      hb c ((List.dropWhile_suffix isSpace).subset hc)
    rw [strip_eq_rstrip, hnil, rstrip_eq_nil_iff.mpr hall]
    rfl
  · rw [rstrip_append_of_isSpace hb, strip_eq_rstrip]

/-- What stands between two texts that are not all white space is not touched. -/
theorem strip_append {a b : Str} (m : Str) (ha : a.dropWhile isSpace ≠ []) (hb : rstrip b ≠ []) :
    strip (a ++ m ++ b) = a.dropWhile isSpace ++ m ++ rstrip b := by
  rw [strip_eq_rstrip, List.append_assoc, List.dropWhile_append, if_neg (by simpa using ha),
    ← List.append_assoc, rstrip_append_of_ne_nil hb]

/-- The first character of a stripped text. -/
theorem isSpace_head?_strip {s : Str} {c : Char} (h : (strip s).head? = some c) :
    isSpace c = false := by
  obtain ⟨t, ht⟩ : strip s <+: s.dropWhile isSpace := List.rdropWhile_prefix isSpace _
  have hhead : (s.dropWhile isSpace).head? = some c := by
    rw [← ht, List.head?_append, h, Option.some_or]
  simpa [hhead] using List.head?_dropWhile_not isSpace s

theorem isSpace_getLast?_rstrip {s : Str} {c : Char} (h : (rstrip s).getLast? = some c) :
    isSpace c = false := by
  have hne : rstrip s ≠ [] := fun hnil ↦ by simp [hnil] at h
  have hlast : ¬isSpace ((rstrip s).getLast hne) = true := List.rdropWhile_last_not isSpace s hne
  rw [List.getLast?_eq_some_getLast hne] at h
  simpa [← Option.some.inj h] using hlast

theorem rstrip_eq_self {s : Str} (h : ∀ c, s.getLast? = some c → isSpace c = false) :
    rstrip s = s := by
  refine List.rdropWhile_eq_self_iff.mpr fun hne ↦ ?_
  rw [h _ (List.getLast?_eq_some_getLast hne)]
  exact Bool.false_ne_true

/-- A text is stripped already if there is no white space at its ends. -/
theorem strip_eq_self {s : Str} (hhead : ∀ c, s.head? = some c → isSpace c = false)
    (hlast : ∀ c, s.getLast? = some c → isSpace c = false) : strip s = s := by
  have hdrop : s.dropWhile isSpace = s := by
    cases s with
    | nil => rfl
    | cons c s =>
      rw [List.dropWhile_cons_of_neg]
      simp [hhead c rfl]
  rw [strip_eq_rstrip, hdrop, rstrip_eq_self hlast]

/-! ## The first line -/

theorem splitlines_cons {c : Char} (hc : isLineBreak c = false) (s : Str) :
    splitlines (c :: s) = (c :: (splitlines s).headD []) :: (splitlines s).tail := by
  have hcr : (c == '\r') = false := by
    refine beq_eq_false_iff_ne.mpr ?_
    rintro rfl
    exact absurd hc (by decide)
  rw [splitlines, hcr, hc, Bool.false_and, if_neg Bool.false_ne_true, if_neg Bool.false_ne_true]
  cases splitlines s <;> rfl

theorem splitlines_break {c : Char} {s : Str} (hc : isLineBreak c = true)
    (h : c = '\r' → s.head? ≠ some '\n') : splitlines (c :: s) = [] :: splitlines s := by
  have hcrlf : (c == '\r' && s.head? == some '\n') = false := by
    simpa using h
  rw [splitlines, hcrlf, if_neg Bool.false_ne_true, if_pos hc]

theorem rstripLines_cons {c : Char} (hc : isLineBreak c = false) (s : Str) :
    rstripLines (c :: s) =
      rstrip (c :: (rstripLines s).headD []) :: (rstripLines s).tail := by
  have hhead : (rstripLines s).headD [] = rstrip ((splitlines s).headD []) := by
    rw [rstripLines]
    cases splitlines s <;> rfl
  rw [hhead, ← rstrip_cons, rstripLines, splitlines_cons hc, List.map_cons, rstripLines,
    List.map_tail]

theorem rstripLines_break {c : Char} {s : Str} (hc : isLineBreak c = true)
    (h : c = '\r' → s.head? ≠ some '\n') : rstripLines (c :: s) = [] :: rstripLines s := by
  rw [rstripLines, splitlines_break hc h, List.map_cons]
  rfl

/-- `\r\n` is one line break. -/
theorem rstripLines_crlf {s : Str} (h : s.head? = some '\n') :
    rstripLines ('\r' :: s) = rstripLines s := by
  rw [rstripLines, splitlines, h, if_pos (by decide)]
  rfl

/-! ## White space at the end of a line -/

/-- A line ends between `a` and `b`: nothing or a line break follows, and it is not the second
character of a line break. -/
structure LineEnd (a b : Str) : Prop where
  /-- The text ends, or a line break follows. -/
  next : ∀ c, b.head? = some c → isLineBreak c = true
  /-- It is not the middle of `\r\n`. -/
  whole : a.getLast? = some '\r' → b.head? ≠ some '\n'

/-- White space that ends no line. -/
def IsBlank (w : Str) : Prop := ∀ c ∈ w, isSpace c = true ∧ isLineBreak c = false

theorem IsBlank.isSpace {w : Str} (h : IsBlank w) : ∀ c ∈ w, isSpace c = true :=
  fun c hc ↦ (h c hc).1

/-- The first line of a text that begins with a line break is empty. -/
theorem rstripLines_of_head {c : Char} {b : Str} (hb : b.head? = some c)
    (hc : isLineBreak c = true) : ∃ lines, rstripLines b = [] :: lines := by
  obtain ⟨s, rfl⟩ : ∃ s, b = c :: s := by
    cases b with
    | nil => simp at hb
    | cons d s => exact ⟨s, by rw [Option.some.inj hb]⟩
  by_cases h : c = '\r' → s.head? ≠ some '\n'
  · exact ⟨_, rstripLines_break hc h⟩
  · obtain ⟨rfl, hs⟩ := Classical.not_imp.mp h
    obtain ⟨t, rfl⟩ : ∃ t, s = '\n' :: t := by
      cases s with
      | nil => simp at hs
      | cons d t => exact ⟨t, by simpa using hs⟩
    exact ⟨_, (rstripLines_crlf rfl).trans (rstripLines_break (by decide) (by simp))⟩

/-- A blank in front of a line break is the end of its line. -/
theorem rstripLines_blank_append {w b : Str} {c : Char} (hw : IsBlank w) (hb : b.head? = some c)
    (hc : isLineBreak c = true) : rstripLines (w ++ b) = rstripLines b := by
  obtain ⟨lines, hlines⟩ := rstripLines_of_head hb hc
  induction w with
  | nil => rfl
  | cons d w ih =>
    obtain ⟨hspace, hbreak⟩ := hw d List.mem_cons_self
    have ih := ih fun e he ↦ hw e (List.mem_cons_of_mem d he)
    have hnil : rstrip [d] = [] := rstrip_eq_nil_iff.mpr fun e he ↦ by
      rwa [List.mem_singleton.mp he]
    rw [List.cons_append, rstripLines_cons hbreak, ih, hlines, List.headD_cons, List.tail_cons,
      hnil]

/-- The lines of a text depend on those of its tail, and on whether it begins with a line feed. -/
theorem rstripLines_cons_congr {c : Char} {s s' : Str} (h : rstripLines s = rstripLines s')
    (hhead : c = '\r' → (s.head? = some '\n' ↔ s'.head? = some '\n')) :
    rstripLines (c :: s) = rstripLines (c :: s') := by
  by_cases hc : isLineBreak c = true
  · by_cases hcrlf : c = '\r' ∧ s.head? = some '\n'
    · obtain ⟨rfl, hs⟩ := hcrlf
      rw [rstripLines_crlf hs, rstripLines_crlf ((hhead rfl).mp hs), h]
    · have hs (hr : c = '\r') : s.head? ≠ some '\n' := fun hn ↦ hcrlf ⟨hr, hn⟩
      have hs' (hr : c = '\r') : s'.head? ≠ some '\n' := fun hn ↦ hs hr ((hhead hr).mpr hn)
      rw [rstripLines_break hc hs, rstripLines_break hc hs', h]
  · have hc : isLineBreak c = false := Bool.eq_false_iff.mpr hc
    rw [rstripLines_cons hc, rstripLines_cons hc, h]

/-- **A blank at the end of a line that is not the last one.** -/
theorem rstripLines_pad {a b w : Str} {c : Char} (hw : IsBlank w) (hb : b.head? = some c)
    (h : LineEnd a b) : rstripLines (a ++ w ++ b) = rstripLines (a ++ b) := by
  have hc := h.next c hb
  rw [List.append_assoc]
  induction a with
  | nil => exact rstripLines_blank_append hw hb hc
  | cons d a ih =>
    -- the line break is as whole behind the rest of `a`
    have hrest : LineEnd a b := by
      refine ⟨h.next, fun hlast ↦ h.whole ?_⟩
      rw [List.getLast?_cons, hlast]
      rfl
    refine rstripLines_cons_congr (ih hrest) fun hd ↦ ?_
    cases a with
    | cons e a => rfl
    | nil =>
      have hn : b.head? ≠ some '\n' := h.whole (by rw [hd]; rfl)
      cases w with
      | nil => rfl
      | cons e w =>
        have hbreak := (hw e List.mem_cons_self).2
        have he : e ≠ '\n' := by
          rintro rfl
          exact absurd hbreak (by decide)
        simp [he, hn]

/-- **A blank at the end of a line** is lost when the text is stripped and its lines are. -/
theorem rstripLines_strip_pad {a b w : Str} (hw : IsBlank w) (h : LineEnd a b) :
    rstripLines (strip (a ++ w ++ b)) = rstripLines (strip (a ++ b)) := by
  by_cases ha : a.dropWhile isSpace = []
  · have haspace : ∀ c ∈ a, isSpace c = true := List.dropWhile_eq_nil_iff.mp ha
    have haw : ∀ c ∈ a ++ w, isSpace c = true := fun c hc ↦
      (List.mem_append.mp hc).elim (haspace c) (hw.isSpace c)
    have hpad := strip_surround (b := []) b haw nofun
    have hplain := strip_surround (b := []) b haspace nofun
    rw [List.append_nil] at hpad hplain
    rw [hpad, hplain]
  by_cases hb : rstrip b = []
  · have hbspace : ∀ c ∈ b, isSpace c = true := rstrip_eq_nil_iff.mp hb
    have hwb : ∀ c ∈ w ++ b, isSpace c = true := fun c hc ↦
      (List.mem_append.mp hc).elim (hw.isSpace c) (hbspace c)
    have hpad := strip_surround (a := []) a nofun hwb
    have hplain := strip_surround (a := []) a nofun hbspace
    rw [List.nil_append] at hpad hplain
    rw [List.append_assoc, hpad, hplain]
  · -- the line end is inside of what is left
    have hplain := strip_append [] ha hb
    rw [List.append_nil, List.append_nil] at hplain
    rw [strip_append w ha hb, hplain]
    obtain ⟨c, t, hrb⟩ := List.exists_cons_of_ne_nil hb
    have hhead : b.head? = some c := by
      obtain ⟨u, hu⟩ : rstrip b <+: b := List.rdropWhile_prefix isSpace b
      rw [← hu, hrb]
      rfl
    have hlast : (a.dropWhile isSpace).getLast? = a.getLast? := by
      obtain ⟨u, hu⟩ : a.dropWhile isSpace <:+ a := List.dropWhile_suffix isSpace
      conv_rhs => rw [← hu, List.getLast?_append_of_ne_nil u ha]
    have hrhead : (rstrip b).head? = some c := by rw [hrb]; rfl
    refine rstripLines_pad hw hrhead ⟨?_, ?_⟩
    · rw [hrhead, ← hhead]
      exact h.next
    · rw [hlast, hrhead, ← hhead]
      exact h.whole

/-- White space that ends no line was added at the end of a line. -/
inductive PadsLine : Str → Str → Prop
  | pad {a b w : Str} (hw : IsBlank w) (h : LineEnd a b) : PadsLine (a ++ b) (a ++ w ++ b)

/-- It was added at the ends of any number of lines. -/
abbrev Padded : Str → Str → Prop := Relation.ReflTransGen PadsLine

theorem Padded.rstripLines_strip_eq {s s' : Str} (h : Padded s s') :
    rstripLines (strip s') = rstripLines (strip s) := by
  induction h with
  | refl => rfl
  | tail h hpad ih =>
    cases hpad with
    | pad hw hend => exact (rstripLines_strip_pad hw hend).trans ih

/-! ## Lines that stay as they are -/

/-- Lines of a text without white space at the ends of it and of its lines. -/
structure NormalLines (lines : List Str) : Prop where
  /-- No line has a line break in it. -/
  unbroken : ∀ l ∈ lines, ∀ c ∈ l, isLineBreak c = false
  /-- No line has white space at its end. -/
  stripped : ∀ l ∈ lines, rstrip l = l
  /-- The first line begins with something else than white space. -/
  first : ∀ l, lines.head? = some l → ∃ c, l.head? = some c ∧ isSpace c = false
  /-- The last line is not empty. -/
  last : ∀ l, lines.getLast? = some l → l ≠ []

theorem isLineBreak_of_mem_splitlines {s l : Str} (hl : l ∈ splitlines s) {c : Char} (hc : c ∈ l) :
    isLineBreak c = false := by
  induction s generalizing l with
  | nil => cases hl
  | cons d s ih =>
    by_cases hd : isLineBreak d = true
    · rw [splitlines] at hl
      split_ifs at hl with hcrlf
      · exact ih hl hc
      · rcases List.mem_cons.mp hl with rfl | hl
        · cases hc
        · exact ih hl hc
    · rw [splitlines_cons (Bool.eq_false_iff.mpr hd)] at hl
      rcases List.mem_cons.mp hl with rfl | hl
      · rcases List.mem_cons.mp hc with rfl | hc
        · exact Bool.eq_false_iff.mpr hd
        · cases hs : splitlines s with
          | nil => simp [hs] at hc
          | cons first lines =>
            rw [hs] at hc
            exact ih (by rw [hs]; exact List.mem_cons_self) hc
      · exact ih (List.mem_of_mem_tail hl) hc

/-- The last line of a text that ends with something else than white space. -/
theorem rstripLines_concat {c : Char} (hc : isSpace c = false) (s : Str) :
    ∃ lines l, rstripLines (s ++ [c]) = lines ++ [l ++ [c]] := by
  have hbreak : isLineBreak c = false := Bool.eq_false_iff.mpr fun h ↦ by
    simp [isSpace_of_isLineBreak h] at hc
  have hstrip (l : Str) : rstrip (l ++ [c]) = l ++ [c] := rstrip_eq_self fun d hd ↦ by
    rw [List.getLast?_concat] at hd
    rwa [← Option.some.inj hd]
  induction s with
  | nil =>
    refine ⟨[], [], ?_⟩
    rw [List.nil_append, rstripLines_cons hbreak]
    exact congrArg (· :: []) (hstrip [])
  | cons d s ih =>
    obtain ⟨lines, l, ih⟩ := ih
    rw [List.cons_append]
    by_cases hd : isLineBreak d = true
    · by_cases hcrlf : d = '\r' ∧ (s ++ [c]).head? = some '\n'
      · obtain ⟨rfl, hs⟩ := hcrlf
        exact ⟨lines, l, by rw [rstripLines_crlf hs, ih]⟩
      · refine ⟨[] :: lines, l, ?_⟩
        rw [rstripLines_break hd fun hr hn ↦ hcrlf ⟨hr, hn⟩, ih, List.cons_append]
    · rw [rstripLines_cons (Bool.eq_false_iff.mpr hd), ih]
      cases lines with
      | nil => exact ⟨[], d :: l, congrArg (· :: []) (hstrip (d :: l))⟩
      | cons first lines => exact ⟨_ :: lines, l, rfl⟩

/-- **The lines of a stripped text.** -/
theorem normalLines_rstripLines (s : Str) : NormalLines (rstripLines (strip s)) where
  unbroken l hl c hc := by
    obtain ⟨k, hk, rfl⟩ := List.mem_map.mp hl
    exact isLineBreak_of_mem_splitlines hk ((List.rdropWhile_prefix isSpace k).subset hc)
  stripped l hl := by
    obtain ⟨k, -, rfl⟩ := List.mem_map.mp hl
    exact rstrip_rstrip k
  first l hl := by
    cases hs : strip s with
    | nil =>
      rw [hs] at hl
      cases hl
    | cons c t =>
      have hspace : isSpace c = false := isSpace_head?_strip (s := s) (by rw [hs]; rfl)
      have hbreak : isLineBreak c = false := Bool.eq_false_iff.mpr fun h ↦ by
        simp [isSpace_of_isLineBreak h] at hspace
      rw [hs, rstripLines_cons hbreak, rstrip_cons_of_not_isSpace hspace, List.head?_cons] at hl
      exact ⟨c, by rw [← Option.some.inj hl]; rfl, hspace⟩
  last l hl := by
    rcases List.eq_nil_or_concat (strip s) with hs | ⟨t, c, hs⟩
    · rw [hs] at hl
      cases hl
    · rw [List.concat_eq_append] at hs
      have hspace : isSpace c = false := isSpace_getLast?_rstrip (s := s.dropWhile isSpace) (by
        rw [← strip_eq_rstrip, hs, List.getLast?_concat])
      obtain ⟨lines, l', hlines⟩ := rstripLines_concat hspace t
      rw [hs, hlines, List.getLast?_concat] at hl
      rw [← Option.some.inj hl]
      exact List.append_ne_nil_of_right_ne_nil _ (List.cons_ne_nil c [])

/-! ## Joining lines -/

theorem join_singleton (sep l : Str) : join sep [l] = l := List.intercalate_singleton

theorem join_cons_cons (sep l l' : Str) (lines : List Str) :
    join sep (l :: l' :: lines) = l ++ (sep ++ join sep (l' :: lines)) := by
  rw [join, List.intercalate_cons_cons, List.append_assoc, join]

theorem splitlines_append_newline {l : Str} (h : ∀ c ∈ l, isLineBreak c = false) (s : Str) :
    splitlines (l ++ '\n' :: s) = l :: splitlines s := by
  induction l with
  | nil => exact splitlines_break (by decide) (by simp)
  | cons c l ih =>
    rw [List.cons_append, splitlines_cons (h c List.mem_cons_self),
      ih fun d hd ↦ h d (List.mem_cons_of_mem c hd), List.headD_cons, List.tail_cons]

theorem splitlines_of_unbroken {l : Str} (hne : l ≠ []) (h : ∀ c ∈ l, isLineBreak c = false) :
    splitlines l = [l] := by
  induction l with
  | nil => exact absurd rfl hne
  | cons c l ih =>
    rw [splitlines_cons (h c List.mem_cons_self)]
    by_cases hl : l = []
    · rw [hl]
      rfl
    · rw [ih hl fun d hd ↦ h d (List.mem_cons_of_mem c hd), List.headD_cons, List.tail_cons]

/-- Lines that are joined can be taken apart again, unless an empty line would be lost at the
end. -/
theorem splitlines_join {lines : List Str} (h : ∀ l ∈ lines, ∀ c ∈ l, isLineBreak c = false)
    (hlast : ∀ l, lines.getLast? = some l → l ≠ []) : splitlines (join ['\n'] lines) = lines := by
  induction lines with
  | nil => rfl
  | cons l lines ih =>
    cases lines with
    | nil =>
      rw [join_singleton]
      exact splitlines_of_unbroken (hlast l rfl) (h l List.mem_cons_self)
    | cons l' lines =>
      rw [join_cons_cons, List.singleton_append,
        splitlines_append_newline (h l List.mem_cons_self),
        ih (fun m hm ↦ h m (List.mem_cons_of_mem l hm)) fun m hm ↦ hlast m hm]

/-- The last character of joined lines is the last one of the last line. -/
theorem getLast?_join {lines : List Str} (hne : lines ≠ [])
    (hlast : ∀ l, lines.getLast? = some l → l ≠ []) :
    ∃ l, lines.getLast? = some l ∧ (join ['\n'] lines).getLast? = l.getLast? := by
  induction lines with
  | nil => exact absurd rfl hne
  | cons l lines ih =>
    cases lines with
    | nil => exact ⟨l, rfl, congrArg List.getLast? (join_singleton _ l)⟩
    | cons l' lines =>
      obtain ⟨m, hm, hjoin⟩ := ih (List.cons_ne_nil l' lines) fun k hk ↦ hlast k hk
      refine ⟨m, hm, ?_⟩
      have hjoin_ne : join ['\n'] (l' :: lines) ≠ [] := by
        intro hnil
        rw [hnil] at hjoin
        exact hlast m hm (List.getLast?_eq_none_iff.mp hjoin.symm)
      rw [join_cons_cons, ← List.append_assoc, List.getLast?_append_of_ne_nil _ hjoin_ne, hjoin]

/-- Normal lines are stripped when they are joined. -/
theorem NormalLines.strip_join {lines : List Str} (h : NormalLines lines) :
    strip (join ['\n'] lines) = join ['\n'] lines := by
  by_cases hne : lines = []
  · rw [hne]
    rfl
  refine strip_eq_self (fun c hc ↦ ?_) fun c hc ↦ ?_
  · obtain ⟨l, rest, rfl⟩ := List.exists_cons_of_ne_nil hne
    obtain ⟨d, hd, hspace⟩ := h.first l rfl
    have hhead : (join ['\n'] (l :: rest)).head? = some d := by
      cases rest with
      | nil => rw [join_singleton, hd]
      | cons l' rest => rw [join_cons_cons, List.head?_append, hd, Option.some_or]
    rw [hhead] at hc
    rwa [← Option.some.inj hc]
  · obtain ⟨l, hl, hjoin⟩ := getLast?_join hne h.last
    rw [hjoin, ← h.stripped l (List.mem_of_getLast? hl)] at hc
    exact isSpace_getLast?_rstrip hc

/-- **Normal lines come back.** -/
theorem NormalLines.rstripLines_strip_join {lines : List Str} (h : NormalLines lines) :
    rstripLines (strip (join ['\n'] lines)) = lines := by
  rw [h.strip_join, rstripLines, splitlines_join h.unbroken h.last]
  conv_rhs => rw [← List.map_id lines]
  exact List.map_congr_left h.stripped

end Text
