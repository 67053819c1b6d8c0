import WiseTraceLoom.Lib.Regex
import WiseTraceLoom.Storage.Append

/-!
# Redaction

The two tiers every payload passes before it is stored unless the host has registered a masking
callback of its own: the values of fields with a sensitive name are replaced, and the remaining
texts are searched for email addresses, card numbers and phone numbers.

Both tiers go over the members of the payload itself and no deeper.  `stored_member` says what
becomes of every single member on its way into the log and back.

## What is here

* `redactRegexMatches` with its three patterns, and `redactStructuredFields`.
* `defaultMaskingCallback`, and `maskField`, which is what it does to one member.
* `default_masking_covers` — what the log holds under every key of a payload.
-/

set_option autoImplicit false

namespace WiseTraceLoom

variable (u : Unicode)

/-! ## The patterns -/

/-- `SENSITIVE_FIELD_NAMES`. -/
def sensitiveFieldNames : List Str :=
  ["password".toList, "passwd".toList, "secret".toList, "api_key".toList, "apikey".toList,
    "access_token".toList, "refresh_token".toList, "auth_token".toList, "token".toList,
    "authorization".toList, "ssn".toList, "social_security_number".toList, "credit_card".toList,
    "card_number".toList, "cvv".toList, "email".toList, "phone".toList, "phone_number".toList,
    "address".toList, "dob".toList, "date_of_birth".toList, "private_key".toList]

/-- `REDACTED_VALUE`. -/
def redactedValue : Str := "[REDACTED]".toList

/-- `_EMAIL_RE`: `[\w.+-]+@[\w-]+\.[\w.-]+`. -/
def emailRe : Regex :=
  .seq (.plus (.cls fun c ↦ u.isWord c || ".+-".toList.contains c)) <|
  .seq (.char '@') <|
  .seq (.plus (.cls fun c ↦ u.isWord c || c == '-')) <|
  .seq (.char '.') <|
  .plus (.cls fun c ↦ u.isWord c || ".-".toList.contains c)

/-- `\d(?:[ -]?\d){12,18}`. -/
def cardDigits : Regex :=
  .seq (.cls u.isDecimal) (.between (.seq (.opt (.oneOf " -".toList)) (.cls u.isDecimal)) 12 18)

/-- `_CREDIT_CARD_RE`: `\b\d(?:[ -]?\d){12,18}\b`. -/
def creditCardRe : Regex :=
  .seq (.boundary u.isWord) (.seq (cardDigits u) (.boundary u.isWord))

/-- `[-.\s]`. -/
def phoneSeparator : Regex := .cls fun c ↦ "-.".toList.contains c || Text.isSpace c

/-- `(?:\+?\d{1,3}[-.\s])?\(?\d{3}\)?[-.\s]?\d{3}[-.\s]?\d{4}`. -/
def phoneNumber : Regex :=
  .seq (.opt (.seq (.opt (.char '+')) (.seq (.between (.cls u.isDecimal) 1 3) phoneSeparator))) <|
  .seq (.opt (.char '(')) <|
  .seq (.times (.cls u.isDecimal) 3) <|
  .seq (.opt (.char ')')) <|
  .seq (.opt phoneSeparator) <|
  .seq (.times (.cls u.isDecimal) 3) <|
  .seq (.opt phoneSeparator) <|
  .times (.cls u.isDecimal) 4

/-- `_PHONE_RE`. -/
def phoneRe : Regex := .seq (phoneNumber u) (.boundary u.isWord)

/-! ## What a match needs -/

theorem emailRe_needs : (emailRe u).Needs (· = '@') :=
  Or.inr (Or.inl fun c hc ↦ by simpa using hc)

theorem creditCardRe_needs : (creditCardRe u).Needs fun c ↦ u.isDecimal c = true :=
  Or.inr (Or.inl (Or.inl fun _ hc ↦ hc))

theorem phoneRe_needs : (phoneRe u).Needs fun c ↦ u.isDecimal c = true :=
  Or.inl (Or.inr (Or.inr (Or.inl ⟨by decide, fun _ hc ↦ hc⟩)))

/-- A card number has 13 digits at least. -/
theorem minLength_cardDigits : (cardDigits u).minLength = 13 := rfl

theorem minLength_creditCardRe : (creditCardRe u).minLength = 13 := rfl

/-- A phone number has 10 digits at least. -/
theorem minLength_phoneNumber : (phoneNumber u).minLength = 10 := rfl

theorem minLength_phoneRe : (phoneRe u).minLength = 10 := rfl

/-! ## The two tiers -/

/-- `redact_regex_matches`. -/
def redactRegexMatches (text : Str) : Str :=
  let text := (emailRe u).sub "[REDACTED_EMAIL]".toList text
  let text := (creditCardRe u).sub "[REDACTED_CARD]".toList text
  (phoneRe u).sub "[REDACTED_PHONE]".toList text

/-- `redact_structured_fields`. -/
def redactStructuredFields (sensitiveFields : List Str) (eventDict : Payload) : Payload :=
  eventDict.map fun m ↦
    (m.1, if sensitiveFields.contains (u.lower m.1) then .str redactedValue else m.2)

/-- A text scrubbed, any other value as it is. -/
def scrub : Json → Json
  | .str s => .str (redactRegexMatches u s)
  | value => value

/-- `default_masking_callback`. -/
def defaultMaskingCallback : MaskingCallback := fun payload ↦
  .ok (.dict
    ((redactStructuredFields u sensitiveFieldNames payload).map fun m ↦ (m.1, scrub u m.2)))

example : redactRegexMatches .ascii "call 415-555-0132 or a@b.c".toList =
    "call [REDACTED_PHONE] or [REDACTED_EMAIL]".toList := by decide

/-! ## What redaction does to one member -/

/-- Is this a sensitive key? -/
def isSensitive (key : Str) : Bool := sensitiveFieldNames.contains (u.lower key)

/-- What becomes of one member. -/
def maskField (key : Str) (value : Json) : Json :=
  if isSensitive u key then .str redactedValue else scrub u value

/-- What stands for a redacted value is not redacted again. -/
theorem redactRegexMatches_redactedValue : redactRegexMatches u redactedValue = redactedValue := by
  have hdigit : ∀ c ∈ redactedValue, ¬ u.isDecimal c = true := by
    intro c hc
    have hascii : ∀ c ∈ redactedValue, c.toNat < 128 ∧ c.isDigit = false := by decide
    rw [u.isDecimal_ascii c (hascii c hc).1, (hascii c hc).2]
    exact Bool.false_ne_true
  rw [redactRegexMatches, Regex.sub_eq_self_of_needs (emailRe_needs u) _ (by decide),
    Regex.sub_eq_self_of_needs (creditCardRe_needs u) _ hdigit,
    Regex.sub_eq_self_of_needs (phoneRe_needs u) _ hdigit]

/-- The two passes over the payload, member by member. -/
theorem defaultMaskingCallback_eq (payload : Payload) :
    defaultMaskingCallback u payload =
      .ok (.dict (payload.map fun m ↦ (m.1, maskField u m.1 m.2))) := by
  rw [defaultMaskingCallback, redactStructuredFields, List.map_map]
  congr 3
  funext m
  rw [Function.comp_apply, maskField, isSensitive]
  by_cases hkey : sensitiveFieldNames.contains (u.lower m.1) = true
  · rw [if_pos hkey, if_pos hkey, scrub, redactRegexMatches_redactedValue]
  · rw [if_neg hkey, if_neg hkey]

/-- **What the log holds under a key**: the value the payload has there, masked. -/
theorem stored_member {a : AppendArgs} {row : StorageCommit}
    (h : a.Inserts (defaultMaskingCallback u) row) :
    ∃ stored, Json.loads row.payload = some (.obj stored) ∧ ∀ key,
      Json.get? key stored =
        (Json.get? key a.payload).map fun value ↦ (maskField u key value).sortKeys := by
  obtain ⟨t, version, prevHash, now, ht, rfl⟩ := h
  have hmasked : t.masked = a.payload.map fun m ↦ (m.1, maskField u m.1 m.2) := by
    rw [AppendArgs.prepare, applyMasking, defaultMaskingCallback_eq] at ht
    rw [← Except.ok.inj ht]
  obtain ⟨stored, hloads, hget⟩ := Json.loads_dumps_obj t.masked
  refine ⟨stored, hloads, fun key ↦ ?_⟩
  rw [hget key, hmasked, Json.get?_map (maskField u), Option.map_map]
  rfl

/-! ## Coverage -/

/-- `value` stands under `key` somewhere in a value, at any depth. -/
inductive Holds (key : Str) (value : Json) : Json → Prop
  | member {ms : Payload} (h : Json.get? key ms = some value) : Holds key value (.obj ms)
  | inMember {ms : Payload} {k : Str} {v : Json} (h : Json.get? k ms = some v)
      (hv : Holds key value v) : Holds key value (.obj ms)
  | inItem {xs : List Json} {x : Json} (h : x ∈ xs) (hx : Holds key value x) :
      Holds key value (.arr xs)

/-- **Masking covers the members of the payload**: under a sensitive key there is the redacted
value, every other text is scrubbed, and whatever else there is, nested objects and arrays with all
they contain among it, is what it was. -/
theorem default_masking_covers {a : AppendArgs} {row : StorageCommit}
    (h : a.Inserts (defaultMaskingCallback u) row) :
    ∃ stored, Json.loads row.payload = some (.obj stored) ∧ ∀ key,
      (Json.get? key a.payload = none → Json.get? key stored = none) ∧
      ∀ value, Json.get? key a.payload = some value →
        (isSensitive u key = true → Json.get? key stored = some (.str redactedValue)) ∧
        (isSensitive u key = false →
          (∀ s, value = .str s → Json.get? key stored = some (.str (redactRegexMatches u s))) ∧
          ((∀ s, value ≠ .str s) → Json.get? key stored = some value.sortKeys)) := by
  obtain ⟨stored, hloads, hget⟩ := stored_member u h
  refine ⟨stored, hloads, fun key ↦ ⟨?_, ?_⟩⟩
  · intro hnone
    rw [hget, hnone, Option.map_none]
  · intro value hvalue
    rw [hget, hvalue, Option.map_some, maskField]
    refine ⟨?_, fun hkey ↦ ⟨?_, ?_⟩⟩
    · intro hkey
      rw [if_pos hkey, Json.sortKeys]
    · rintro s rfl
      rw [hkey, if_neg Bool.false_ne_true, scrub, Json.sortKeys]
    · intro hs
      rw [hkey, if_neg Bool.false_ne_true]
      cases value with
      | str s => exact absurd rfl (hs s)
      | null | bool | int | float | arr | obj => rfl

/-- An append whose payload has a password in an object of its own. -/
def loginAppend : AppendArgs where
  streamId := "logins".toList
  recordType := "login".toList
  payload :=
    [("password".toList, .str "hunter2".toList), ("note".toList, .str "call 415-555-0132".toList),
      ("user".toList, .obj [("password".toList, .str "hunter2".toList)])]
  tenantId := none

/-- The row it inserts first. -/
def loginRow : StorageCommit :=
  (AppendTask.commit ⟨"logins".toList, "login".toList, none, 20,
    loginAppend.payload.map fun m ↦ (m.1, maskField .ascii m.1 m.2)⟩ 1 none noon).column

theorem loginAppend_inserts : loginAppend.Inserts (defaultMaskingCallback .ascii) loginRow := by
  refine ⟨_, 1, none, noon, ?_, rfl⟩
  rw [AppendArgs.prepare, applyMasking, defaultMaskingCallback_eq]
  rfl

theorem login_masked : ∃ stored, Json.loads loginRow.payload = some (.obj stored) ∧
    Json.get? "password".toList stored = some (.str redactedValue) ∧
    Json.get? "note".toList stored = some (.str "call [REDACTED_PHONE]".toList) := by
  obtain ⟨stored, hloads, hkeys⟩ := default_masking_covers .ascii loginAppend_inserts
  refine ⟨stored, hloads, ?_, ?_⟩
  · exact ((hkeys "password".toList).2 (.str "hunter2".toList) rfl).1 (by decide)
  · have hnote := ((hkeys "note".toList).2 (.str "call 415-555-0132".toList) rfl).2 (by decide)
    have hscrub : redactRegexMatches .ascii "call 415-555-0132".toList =
        "call [REDACTED_PHONE]".toList := by decide
    rw [hnote.1 _ rfl, hscrub]

/-- **A nested password is stored as it is.** -/
theorem nested_password_stored : ¬ ∀ (u : Unicode) (a : AppendArgs) (row : StorageCommit)
    (stored : Json), a.Inserts (defaultMaskingCallback u) row →
      Json.loads row.payload = some stored → ∀ key value, isSensitive u key = true →
      Holds key value stored → value = .str redactedValue := by
  intro hclaim
  obtain ⟨stored, hloads, hget⟩ := stored_member .ascii loginAppend_inserts
  have huser : Json.get? "user".toList stored =
      some (.obj [("password".toList, .str "hunter2".toList)]) := hget "user".toList
  have hholds : Holds "password".toList (.str "hunter2".toList) (.obj stored) :=
    .inMember huser (.member rfl)
  have := hclaim .ascii loginAppend loginRow (.obj stored) loginAppend_inserts hloads
    "password".toList _ (by decide) hholds
  exact absurd (Json.str.inj this) (by decide)

end WiseTraceLoom
