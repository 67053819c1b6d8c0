import WiseTraceLoom.Lib.Separation
import WiseTraceLoom.Redaction

/-!
# What scrubbing leaves behind

Does `redact_regex_matches` leave a text in which none of its patterns matches any more?  Email
addresses and card numbers are gone after their own substitutions and do not come back with later
ones.  Phone numbers may: `_PHONE_RE` asks for the end of a word on its right but for nothing on its
left, so that it finds a number in the middle of a run of digits.  The digits before it then stand
in front of a bracket, where they may end in a phone number or be a card number of their own.

## What is here

* `CutsNumber` — a phone number is found right behind such digits, in one of the parts into which
  the email addresses and the card numbers cut the text.
* `redactRegexMatches_eq_self_iff` — scrubbing changes a text unless nothing matches.
* `scrub_complete_iff` — nothing matches in the outcome exactly if no number is cut.
-/

set_option autoImplicit false

namespace WiseTraceLoom

open Regex

variable (u : Unicode)

/-- None of the patterns matches anywhere. -/
def Scrubbed (s : Str) : Prop :=
  (emailRe u).Absent s ∧ (creditCardRe u).Absent s ∧ (phoneRe u).Absent s

/-- The outcome of scrubbing is scrubbed, and scrubbing it again changes nothing. -/
def ScrubComplete (text : Str) : Prop :=
  Scrubbed u (redactRegexMatches u text) ∧
    redactRegexMatches u (redactRegexMatches u text) = redactRegexMatches u text

/-- In a text without email addresses and card numbers, a phone number that begins with a digit is
found, and what is between it and the one found before it ends, taken on its own, in a phone number
or in a card number. -/
def CutsNumberIn (part : Str) : Prop :=
  ∃ p ∈ (phoneRe u).found part, beginsWord u.isWord p.2 = true ∧
    ((phoneRe u).MatchesEnd p.1 ∨ (creditCardRe u).MatchesEnd p.1)

/-- The text is cut at its email addresses, the pieces at their card numbers, and this happens in
one of the parts. -/
def CutsNumber (text : Str) : Prop :=
  ∃ piece ∈ (emailRe u).gaps text, ∃ part ∈ (creditCardRe u).gaps piece, CutsNumberIn u part

/-! ## The patterns and their contexts -/

/-- Where a text ends in a word character, reading it backwards begins with one. -/
theorem beginsWord_reverse_append {isWord : Char → Bool} {x : Str} {c : Char}
    (h : x.getLast? = some c) (s : Str) : beginsWord isWord (x.reverse ++ s) = isWord c := by
  obtain ⟨ys, rfl⟩ := List.getLast?_eq_some_iff.mp h
  simp

variable {u}

theorem emailRe_delimited :
    Delimited u.isWord (emailRe u) (emailRe u).language false false where
  matchesAt_iff := by
    have hplain : (emailRe u).Plain := by
      simp [emailRe, Plain, plus, Regex.char, minLength]
    intro before x after
    simp [hplain.matchesAt_iff]
  ne_nil := by
    rintro x hx rfl
    have := minLength_le hx
    simp [emailRe, minLength, plus, Regex.char] at this
  head := by simp

theorem cardDigits_plain : (cardDigits u).Plain := by
  simp [cardDigits, Plain, between, oneOf]

theorem phoneNumber_plain : (phoneNumber u).Plain := by
  simp [phoneNumber, phoneSeparator, Plain, between, times, Regex.char]

theorem cardDigits_ends : (cardDigits u).Ends fun c ↦ u.isDecimal c = true := by
  simp [cardDigits, Ends, between]

theorem phoneNumber_ends : (phoneNumber u).Ends fun c ↦ u.isDecimal c = true := by
  simp [phoneNumber, Ends, times]

section Digits

/-! Every decimal digit is a word character. -/

variable (hdecimal : ∀ c, u.isDecimal c = true → u.isWord c = true)

include hdecimal

theorem beginsWord_reverse_of_ends {r : Regex} (hr : r.Ends fun c ↦ u.isDecimal c = true) {x : Str}
    (hx : x ∈ r.language) (s : Str) : beginsWord u.isWord (x.reverse ++ s) = true := by
  obtain ⟨c, hc, hdigit⟩ := hr.exists_getLast? hx
  rw [beginsWord_reverse_append hc]
  exact hdecimal c hdigit

theorem beginsWord_cardDigits {x : Str} (hx : x ∈ (cardDigits u).language) (s : Str) :
    beginsWord u.isWord (x ++ s) = true := by
  obtain ⟨a, ⟨c, hc, rfl⟩, b, -, rfl⟩ := Language.mem_mul.mp hx
  exact hdecimal c hc

/-- A phone number is one wherever no word character follows. -/
theorem phoneRe_delimited :
    Delimited u.isWord (phoneRe u) (phoneNumber u).language false true where
  matchesAt_iff := by
    intro before x after
    rw [MatchesAt, phoneRe, mem_run_seq_boundary]
    constructor
    · rintro ⟨hx, hend⟩
      have hmem := phoneNumber_plain.matchesAt_iff.mp hx
      refine ⟨hmem, by simp, fun _ ↦ ?_⟩
      have hword := beginsWord_reverse_of_ends hdecimal phoneNumber_ends hmem before
      rw [beginsWord] at hword
      rw [beginsWord, ← Bool.not_eq_true]
      exact fun hafter ↦ hend (hword.trans hafter.symm)
    · rintro ⟨hmem, -, hend⟩
      have hword := beginsWord_reverse_of_ends hdecimal phoneNumber_ends hmem before
      refine ⟨phoneNumber_plain.matchesAt_iff.mpr hmem, ?_⟩
      rw [beginsWord] at hword
      rw [hword]
      exact fun h ↦ Bool.noConfusion (h.trans (hend rfl))
  ne_nil := by
    rintro x hx rfl
    exact absurd (minLength_le hx) (by rw [minLength_phoneNumber]; decide)
  head := by simp

/-- A card number is one where no word character stands on either side. -/
theorem creditCardRe_delimited :
    Delimited u.isWord (creditCardRe u) (cardDigits u).language true true where
  matchesAt_iff := by
    intro before x after
    rw [MatchesAt, creditCardRe, mem_run_boundary_seq, mem_run_seq_boundary]
    constructor
    · rintro ⟨hbegin, hx, hend⟩
      have hmem := cardDigits_plain.matchesAt_iff.mp hx
      have hlast := beginsWord_reverse_of_ends hdecimal cardDigits_ends hmem before
      have hfirst := beginsWord_cardDigits hdecimal hmem after
      rw [beginsWord] at hlast hfirst
      refine ⟨hmem, fun _ ↦ ?_, fun _ ↦ ?_⟩
      · rw [beginsWord, ← Bool.not_eq_true]
        exact fun hbefore ↦ hbegin (hbefore.trans hfirst.symm)
      · rw [beginsWord, ← Bool.not_eq_true]
        exact fun hafter ↦ hend (hlast.trans hafter.symm)
    · rintro ⟨hmem, hbegin, hend⟩
      have hlast := beginsWord_reverse_of_ends hdecimal cardDigits_ends hmem before
      have hfirst := beginsWord_cardDigits hdecimal hmem after
      rw [beginsWord] at hlast hfirst
      refine ⟨?_, cardDigits_plain.matchesAt_iff.mpr hmem, ?_⟩
      · rw [hfirst]
        exact fun h ↦ Bool.noConfusion (h.symm.trans (hbegin rfl))
      · rw [hlast]
        exact fun h ↦ Bool.noConfusion (h.trans (hend rfl))
  ne_nil := by
    rintro x hx rfl
    exact absurd (minLength_le hx) (by rw [minLength_cardDigits]; decide)
  head := by
    intro _ x hx
    have := beginsWord_cardDigits hdecimal hx []
    rwa [List.append_nil] at this

end Digits

/-! ## The replacements -/

/-- A text in brackets separates whatever needs a character that is not in it. -/
theorem fence_brackets {r : Regex} {q : Char → Prop} (hr : r.Needs q)
    (hopen : r.accepts '[' = false) (hclose : r.accepts ']' = false) {inner : Str}
    (hinner : ∀ c ∈ inner, ¬q c) : Fence u.isWord r.language ('[' :: (inner ++ [']'])) where
  brackets := by
    refine ⟨'[', inner, ']', rfl, u.isWord_ascii '[' (by decide), u.isWord_ascii ']' (by decide),
      fun x hx ↦ ⟨fun hmem ↦ ?_, fun hmem ↦ ?_, fun hwithin ↦ ?_⟩⟩
    · rw [accepts_of_mem_language hx _ hmem] at hopen
      cases hopen
    · rw [accepts_of_mem_language hx _ hmem] at hclose
      cases hclose
    · obtain ⟨c, hc, hq⟩ := hr.exists_mem hx
      exact hinner c (hwithin.subset hc) hq

theorem emailRe_accepts : (emailRe u).accepts '[' = false ∧ (emailRe u).accepts ']' = false := by
  have hopen := u.isWord_ascii '[' (by decide)
  have hclose := u.isWord_ascii ']' (by decide)
  constructor
  · simp [emailRe, accepts, plus, Regex.char, hopen]
  · simp [emailRe, accepts, plus, Regex.char, hclose]

theorem cardDigits_accepts_brackets :
    (cardDigits u).accepts '[' = false ∧ (cardDigits u).accepts ']' = false := by
  have hopen := u.isDecimal_ascii '[' (by decide)
  have hclose := u.isDecimal_ascii ']' (by decide)
  constructor
  · simp [cardDigits, accepts, between, oneOf, hopen]
  · simp [cardDigits, accepts, between, oneOf, hclose]

theorem phoneNumber_accepts_brackets :
    (phoneNumber u).accepts '[' = false ∧ (phoneNumber u).accepts ']' = false := by
  have hopen := u.isDecimal_ascii '[' (by decide)
  have hclose := u.isDecimal_ascii ']' (by decide)
  constructor
  · have hspace : Text.isSpace '[' = false := by decide
    simp [phoneNumber, phoneSeparator, accepts, between, times, Regex.char, hopen, hspace]
  · have hspace : Text.isSpace ']' = false := by decide
    simp [phoneNumber, phoneSeparator, accepts, between, times, Regex.char, hclose, hspace]

/-- The replacements. -/
inductive IsReplacement : Str → Prop
  | email : IsReplacement "[REDACTED_EMAIL]".toList
  | card : IsReplacement "[REDACTED_CARD]".toList
  | phone : IsReplacement "[REDACTED_PHONE]".toList

/-- They are brackets around ASCII characters that are neither digits nor `@`. -/
theorem IsReplacement.eq {repl : Str} (h : IsReplacement repl) :
    ∃ inner, repl = '[' :: (inner ++ [']']) ∧
      ∀ c ∈ inner, c.toNat < 128 ∧ c.isDigit = false ∧ c ≠ '@' := by
  cases h with
  | email => exact ⟨"REDACTED_EMAIL".toList, rfl, by decide⟩
  | card => exact ⟨"REDACTED_CARD".toList, rfl, by decide⟩
  | phone => exact ⟨"REDACTED_PHONE".toList, rfl, by decide⟩

/-- They separate email addresses. -/
theorem IsReplacement.emailFence {repl : Str} (h : IsReplacement repl) :
    Fence u.isWord (emailRe u).language repl := by
  obtain ⟨inner, rfl, hinner⟩ := h.eq
  exact fence_brackets (emailRe_needs u) emailRe_accepts.1 emailRe_accepts.2 fun c hc ↦
    (hinner c hc).2.2

/-- They separate what needs a digit. -/
theorem IsReplacement.digitFence {repl : Str} (h : IsReplacement repl) {r : Regex}
    (hr : r.Needs fun c ↦ u.isDecimal c = true) (hopen : r.accepts '[' = false)
    (hclose : r.accepts ']' = false) : Fence u.isWord r.language repl := by
  obtain ⟨inner, rfl, hinner⟩ := h.eq
  refine fence_brackets hr hopen hclose fun c hc ↦ ?_
  rw [u.isDecimal_ascii c (hinner c hc).1, (hinner c hc).2.1]
  exact Bool.false_ne_true

theorem IsReplacement.cardFence {repl : Str} (h : IsReplacement repl) :
    Fence u.isWord (cardDigits u).language repl :=
  h.digitFence (Or.inl fun _ hc ↦ hc) cardDigits_accepts_brackets.1 cardDigits_accepts_brackets.2

theorem IsReplacement.phoneFence {repl : Str} (h : IsReplacement repl) :
    Fence u.isWord (phoneNumber u).language repl :=
  h.digitFence (Or.inr (Or.inr (Or.inl ⟨by decide, fun _ hc ↦ hc⟩)))
    phoneNumber_accepts_brackets.1 phoneNumber_accepts_brackets.2

/-! ## The text in parts -/

/-- None of their characters is in a number. -/
theorem IsReplacement.accepts {repl : Str} (h : IsReplacement repl) :
    ∀ c ∈ repl, (creditCardRe u).accepts c = false ∧ (phoneRe u).accepts c = false := by
  have hchars : ∀ c ∈ repl, c.toNat < 128 ∧ c.isDigit = false ∧ Text.isSpace c = false ∧
      c ≠ '+' ∧ c ≠ '(' ∧ c ≠ ')' ∧ c ≠ '-' ∧ c ≠ '.' ∧ c ≠ ' ' := by
    cases h with
    | email => decide
    | card => decide
    | phone => decide
  intro c hc
  obtain ⟨hascii, hdigit, hspace, hplus, hopen, hclose, hdash, hdot, hblank⟩ := hchars c hc
  have hdecimal : u.isDecimal c = false := (u.isDecimal_ascii c hascii).trans hdigit
  constructor
  · simp [creditCardRe, cardDigits, Regex.accepts, between, oneOf, hdecimal, hdash, hblank]
  · simp [phoneRe, phoneNumber, phoneSeparator, Regex.accepts, between, times, Regex.char,
      hdecimal, hspace, hplus, hopen, hclose, hdash, hdot]

theorem local_numbers : (creditCardRe u).Local u.isWord '[' ∧ (phoneRe u).Local u.isWord '[' := by
  have hdecimal : u.isDecimal '[' = false := u.isDecimal_ascii '[' (by decide)
  have hspace : Text.isSpace '[' = false := by decide
  constructor
  · simp [creditCardRe, cardDigits, Local, between, oneOf, hdecimal]
  · simp [phoneRe, phoneNumber, phoneSeparator, Local, between, times, Regex.char, hdecimal, hspace]

/-- **The replacements separate** the searches for numbers on both sides. -/
theorem IsReplacement.separator {repl : Str} (h : IsReplacement repl) :
    Separator u.isWord (creditCardRe u) repl ∧ Separator u.isWord (phoneRe u) repl := by
  have hlast := h.cardFence (u := u) |>.beginsWord_reverse_append
  have haccepts := h.accepts (u := u)
  obtain ⟨inner, rfl, -⟩ := h.eq
  have hopen : u.isWord '[' = false := u.isWord_ascii '[' (by decide)
  exact ⟨⟨⟨'[', _, rfl, hopen, local_numbers.1⟩, hlast, fun c hc ↦ (haccepts c hc).1⟩,
    ⟨⟨'[', _, rfl, hopen, local_numbers.2⟩, hlast, fun c hc ↦ (haccepts c hc).2⟩⟩

/-! ## The three substitutions -/

/-- The text that is searched for phone numbers. -/
def withoutEmailsAndCards (u : Unicode) (text : Str) : Str :=
  (creditCardRe u).sub "[REDACTED_CARD]".toList ((emailRe u).sub "[REDACTED_EMAIL]".toList text)

theorem minLength_emailRe_pos : 0 < (emailRe u).minLength := by
  simp [emailRe, minLength, plus, Regex.char]

theorem minLength_creditCardRe_pos : 0 < (creditCardRe u).minLength := by
  rw [minLength_creditCardRe]
  decide

theorem minLength_phoneRe_pos : 0 < (phoneRe u).minLength := by
  rw [minLength_phoneRe]
  decide

/-- **No substitution brings back an email address**, and its own leaves none. -/
theorem absent_emailRe_sub {r : Regex} (hr : 0 < r.minLength) {repl s : Str}
    (hrepl : IsReplacement repl) (hquiet : emailRe u = r ∨ (emailRe u).Absent s) :
    (emailRe u).Absent (r.sub repl s) := by
  rw [absent_sub_iff hr emailRe_delimited hrepl.emailFence hquiet (by simp)]
  simp

/-- **No card number is left** by the substitution of card numbers: the first character of a match
does not continue a word. -/
theorem absent_creditCardRe_sub (hdecimal : ∀ c, u.isDecimal c = true → u.isWord c = true)
    {repl : Str} (hrepl : IsReplacement repl) (s : Str) :
    (creditCardRe u).Absent ((creditCardRe u).sub repl s) := by
  have hcard := creditCardRe_delimited hdecimal
  rw [absent_sub_iff minLength_creditCardRe_pos hcard hrepl.cardFence (Or.inl rfl)
    fun _ b x a hmatch ↦ ((hcard.matchesAt_iff b x a).mp hmatch).2.2 rfl]
  rintro ⟨-, p, hp, -, v, x, hgap, hmatch⟩
  obtain ⟨before, after, hfound⟩ := (scan_found minLength_creditCardRe_pos s).matches hp
  have hleft := ((hcard.matchesAt_iff _ _ _).mp hfound).2.1 rfl
  have hx := ((hcard.matchesAt_iff _ _ _).mp hmatch).1
  rw [hgap, List.reverse_append, List.append_assoc,
    beginsWord_reverse_of_ends hdecimal cardDigits_ends hx] at hleft
  cases hleft

/-- Whether a number is cut is seen on one side of a replacement. -/
theorem IsReplacement.splitsAt {repl : Str} (h : IsReplacement repl)
    (hdecimal : ∀ c, u.isDecimal c = true → u.isWord c = true) :
    SplitsAt (CutsNumberIn u) repl := by
  have hend (a b : Str) : (phoneRe u).MatchesEnd (a ++ (repl ++ b)) ∨
      (creditCardRe u).MatchesEnd (a ++ (repl ++ b)) ↔
        (phoneRe u).MatchesEnd b ∨ (creditCardRe u).MatchesEnd b :=
    or_congr ((phoneRe_delimited hdecimal).matchesEnd_append h.phoneFence a b)
      ((creditCardRe_delimited hdecimal).matchesEnd_append h.cardFence a b)
  exact h.separator.2.splitsAt_found
    (Q := fun g ↦ (phoneRe u).MatchesEnd g ∨ (creditCardRe u).MatchesEnd g)
    (fun x ↦ beginsWord u.isWord x = true) hend

/-- The search for phone numbers goes through the parts one by one. -/
theorem cutsNumberIn_iff (hdecimal : ∀ c, u.isDecimal c = true → u.isWord c = true)
    (text : Str) : CutsNumberIn u (withoutEmailsAndCards u text) ↔ CutsNumber u text := by
  have hcards : Separator u.isWord (creditCardRe u) "[REDACTED_EMAIL]".toList :=
    IsReplacement.email.separator.1
  have hparts := (IsReplacement.email.splitsAt hdecimal).gaps hcards
  rw [withoutEmailsAndCards,
    (IsReplacement.card.splitsAt hdecimal).sub minLength_creditCardRe_pos,
    hparts.sub minLength_emailRe_pos, CutsNumber]

/-- **Scrubbing leaves nothing to match exactly if it cuts no number.** -/
theorem scrubbed_iff (hdecimal : ∀ c, u.isDecimal c = true → u.isWord c = true) (text : Str) :
    Scrubbed u (redactRegexMatches u text) ↔ ¬CutsNumber u text := by
  have hphone := phoneRe_delimited hdecimal
  have hemail : (emailRe u).Absent (withoutEmailsAndCards u text) :=
    absent_emailRe_sub minLength_creditCardRe_pos .card
      (Or.inr (absent_emailRe_sub minLength_emailRe_pos .email (Or.inl rfl)))
  have hcard : (creditCardRe u).Absent (withoutEmailsAndCards u text) :=
    absent_creditCardRe_sub hdecimal .card _
  have hfinal : (emailRe u).Absent (redactRegexMatches u text) :=
    absent_emailRe_sub minLength_phoneRe_pos .phone (Or.inr hemail)
  have hcards : (creditCardRe u).Absent (redactRegexMatches u text) ↔ _ :=
    absent_sub_iff minLength_phoneRe_pos (creditCardRe_delimited hdecimal)
      IsReplacement.phone.cardFence (Or.inr hcard)
      fun _ b x a hmatch ↦ ((hphone.matchesAt_iff b x a).mp hmatch).2.2 rfl
  have hphones : (phoneRe u).Absent (redactRegexMatches u text) ↔ _ :=
    absent_sub_iff minLength_phoneRe_pos hphone IsReplacement.phone.phoneFence (Or.inl rfl)
      (by simp)
  rw [Scrubbed, hcards, hphones, ← cutsNumberIn_iff hdecimal]
  constructor
  · rintro ⟨-, hcards, hphones⟩ ⟨p, hp, hword, hend | hend⟩
    · exact hphones ⟨rfl, p, hp, hword, hend⟩
    · exact hcards ⟨rfl, p, hp, hword, hend⟩
  · intro h
    refine ⟨hfinal, ?_, ?_⟩
    · rintro ⟨-, p, hp, hword, hend⟩
      exact h ⟨p, hp, hword, Or.inr hend⟩
    · rintro ⟨-, p, hp, hword, hend⟩
      exact h ⟨p, hp, hword, Or.inl hend⟩

/-! ## Scrubbing twice -/

/-- **A text stays as it is exactly if nothing in it matches.**  Every match adds a bracket. -/
theorem redactRegexMatches_eq_self_iff (s : Str) :
    redactRegexMatches u s = s ↔ Scrubbed u s := by
  constructor
  · intro h
    have hcount := congrArg (List.count '[') h
    have haccepts : (creditCardRe u).accepts '[' = false ∧ (phoneRe u).accepts '[' = false := by
      simp [creditCardRe, phoneRe, accepts, cardDigits_accepts_brackets.1,
        phoneNumber_accepts_brackets.1]
    rw [redactRegexMatches, count_sub minLength_phoneRe_pos haccepts.2,
      count_sub minLength_creditCardRe_pos haccepts.1,
      count_sub minLength_emailRe_pos emailRe_accepts.1] at hcount
    have hone : "[REDACTED_EMAIL]".toList.count '[' = 1 ∧ "[REDACTED_CARD]".toList.count '[' = 1 ∧
        "[REDACTED_PHONE]".toList.count '[' = 1 := by decide
    rw [hone.1, hone.2.1, hone.2.2] at hcount
    have hemail : (emailRe u).Absent s :=
      (absent_iff_found minLength_emailRe_pos).mpr (List.length_eq_zero_iff.mp (by omega))
    rw [sub_eq_self hemail] at hcount
    have hcard : (creditCardRe u).Absent s :=
      (absent_iff_found minLength_creditCardRe_pos).mpr (List.length_eq_zero_iff.mp (by omega))
    rw [sub_eq_self hcard] at hcount
    have hphone : (phoneRe u).Absent s :=
      (absent_iff_found minLength_phoneRe_pos).mpr (List.length_eq_zero_iff.mp (by omega))
    exact ⟨hemail, hcard, hphone⟩
  · rintro ⟨hemail, hcard, hphone⟩
    rw [redactRegexMatches, sub_eq_self hemail, sub_eq_self hcard, sub_eq_self hphone]

/-- **When scrubbing is complete.**  The outcome contains nothing that the patterns match, and
scrubbing it again changes nothing, exactly if no phone number is found that begins with a digit
right behind a text which ends in a phone or card number on its own. -/
theorem scrub_complete_iff (hdecimal : ∀ c, u.isDecimal c = true → u.isWord c = true)
    (text : Str) : ScrubComplete u text ↔ ¬CutsNumber u text := by
  rw [ScrubComplete, redactRegexMatches_eq_self_iff, and_self, scrubbed_iff hdecimal]

/-- Nothing is left of a number in a sentence. -/
theorem sentence_scrubbed :
    redactRegexMatches .ascii "call 415-555-0132 today".toList =
      "call [REDACTED_PHONE] today".toList ∧
    ScrubComplete .ascii "call 415-555-0132 today".toList := by
  have hdecimal : ∀ c, Unicode.ascii.isDecimal c = true → Unicode.ascii.isWord c = true := by
    intro c hc
    have hdigit : c.isDigit = true := hc
    simp [Unicode.ascii, Char.isAlphanum, hdigit]
  refine ⟨by decide +kernel, (scrub_complete_iff hdecimal _).mpr ?_⟩
  have hpieces : (emailRe .ascii).gaps "call 415-555-0132 today".toList =
      ["call 415-555-0132 today".toList] := by decide +kernel
  have hparts : (creditCardRe .ascii).gaps "call 415-555-0132 today".toList =
      ["call 415-555-0132 today".toList] := by decide +kernel
  have hfound : (phoneRe .ascii).found "call 415-555-0132 today".toList =
      [("call ".toList, "415-555-0132".toList)] := by decide +kernel
  -- the gap has no digits
  have hgap {r : Regex} (hr : r.Needs fun c ↦ Unicode.ascii.isDecimal c = true) :
      ¬r.MatchesEnd "call ".toList := by
    rintro ⟨v, x, hvx, hmatch⟩
    obtain ⟨c, hc, hdigit⟩ := hr.exists_mem hmatch.mem_language
    have hmem : c ∈ "call ".toList := by
      rw [hvx]
      exact List.mem_append_right v hc
    have hnone : ∀ c ∈ "call ".toList, Unicode.ascii.isDecimal c = false := by decide
    rw [hnone c hmem] at hdigit
    cases hdigit
  rintro ⟨piece, hpiece, part, hpart, p, hp, -, hend⟩
  rw [hpieces, List.mem_singleton] at hpiece
  subst hpiece
  rw [hparts, List.mem_singleton] at hpart
  subst hpart
  rw [hfound, List.mem_singleton] at hp
  subst hp
  exact hend.elim (hgap (phoneRe_needs _)) (hgap (creditCardRe_needs _))

/-- **Twenty digits** are no card number, and their last ten are a phone number.  The first ten are
one as soon as the last ten are gone. -/
theorem twenty_digits :
    redactRegexMatches .ascii "41555501324155550132".toList =
      "4155550132[REDACTED_PHONE]".toList ∧
    ¬ScrubComplete .ascii "41555501324155550132".toList := by
  refine ⟨by decide +kernel, fun h ↦ absurd h.2 (by decide +kernel)⟩

end WiseTraceLoom
