import WiseTraceLoom.Lib.Lines
import WiseTraceLoom.Instrumentation.Relay

/-!
# The traceparent headers that are accepted

A `Traceparent` is a header of the W3C recommendation, version `00`–`fe`: its fields with the proofs
that they are what they have to be.  `parse_traceparent` accepts exactly the texts of
`TraceparentFields`, where nothing is said of the version beyond its two digits
(`parseTraceparent_eq_some_iff`).  So it accepts the version `ff` as well, which the recommendation
forbids (`traceparent_valid_iff`).
-/

set_option autoImplicit false

namespace WiseTraceLoom

/-! ## The recommendation -/

/-- The version that is not allowed. -/
def forbiddenVersion : Str := "ff".toList

/-- The fields of a header, whatever its version. -/
structure TraceparentFields where
  version : Str
  traceId : Str
  spanId : Str
  flags : Str
  version_hex : IsHexId 2 version
  traceId_hex : IsHexId 32 traceId
  spanId_hex : IsHexId 16 spanId
  flags_hex : IsHexId 2 flags
  traceId_ne_zero : traceId ≠ zeroTraceId
  spanId_ne_zero : spanId ≠ zeroSpanId

/-- A header of the recommendation. -/
structure Traceparent extends TraceparentFields where
  version_ne_forbidden : version ≠ forbiddenVersion

namespace TraceparentFields

/-- The header. -/
def text (p : TraceparentFields) : Str :=
  p.version ++ '-' :: (p.traceId ++ '-' :: (p.spanId ++ '-' :: p.flags))

/-- The lowest bit of the flags. -/
def sampled (p : TraceparentFields) : Bool := decide (hexValue p.flags % 2 = 1)

theorem take_text (p : TraceparentFields) : p.text.take 2 = p.version := by
  rw [text, List.take_left' p.version_hex.1]

end TraceparentFields

/-! ## What is accepted -/

theorem dash_eq_some {s rest : Str} (h : dash s = some rest) : s = '-' :: rest := by
  unfold dash at h
  split at h
  · rw [Option.some.inj h]
  · cases h

/-- The fields of a match, and the line feed `$` allows after them. -/
theorem matchTraceparent_eq_some {s : Str} {m : TraceparentMatch}
    (h : matchTraceparent s = some m) :
    IsHexId 2 m.version ∧ IsHexId 32 m.traceId ∧ IsHexId 16 m.spanId ∧ IsHexId 2 m.flags ∧
      ∃ rest, (rest = [] ∨ rest = ['\n']) ∧
        s = m.version ++ '-' :: (m.traceId ++ '-' :: (m.spanId ++ '-' :: (m.flags ++ rest))) := by
  simp only [matchTraceparent, Option.bind_eq_bind, Option.bind_eq_some_iff] at h
  obtain ⟨⟨version, s₁⟩, hv, s₂, hd₁, ⟨traceId, s₃⟩, ht, s₄, hd₂, ⟨spanId, s₅⟩, hs, s₆, hd₃,
    ⟨flags, rest⟩, hf, _, hend, hm⟩ := h
  obtain rfl := Option.some.inj hm
  obtain ⟨hversion, rfl⟩ := hexField_eq_some hv
  obtain ⟨htrace, rfl⟩ := hexField_eq_some ht
  obtain ⟨hspan, rfl⟩ := hexField_eq_some hs
  obtain ⟨hflags, rfl⟩ := hexField_eq_some hf
  have hrest : rest = [] ∨ rest = ['\n'] := by
    rw [atEnd] at hend
    split_ifs at hend with hrest
    exact hrest
  refine ⟨hversion, htrace, hspan, hflags, rest, hrest, ?_⟩
  obtain rfl := dash_eq_some hd₁
  obtain rfl := dash_eq_some hd₂
  obtain rfl := dash_eq_some hd₃
  rfl

/-- **What is accepted**: the texts of fields, with white space around them. -/
theorem parseTraceparent_eq_some_iff {header t s : Str} {sampled : Bool} :
    parseTraceparent header = some (t, s, sampled) ↔
      ∃ p : TraceparentFields, Text.strip header = p.text ∧ p.traceId = t ∧ p.spanId = s ∧
        p.sampled = sampled := by
  have hbit (flags : Str) : (hexValue flags).testBit 0 = decide (hexValue flags % 2 = 1) :=
    Nat.testBit_zero _
  rw [parseTraceparent]
  constructor
  · intro h
    cases hm : matchTraceparent (Text.strip header) with
    | none => simp [hm] at h
    | some m =>
      rw [hm] at h
      dsimp only at h
      split_ifs at h with hzero
      rw [not_or] at hzero
      simp only [Option.some.injEq, Prod.mk.injEq] at h
      obtain ⟨hv, ht, hs, hf, rest, hrest, htext⟩ := matchTraceparent_eq_some hm
      refine ⟨⟨m.version, m.traceId, m.spanId, m.flags, hv, ht, hs, hf, hzero.1, hzero.2⟩, ?_, h.1,
        h.2.1, (hbit m.flags).symm.trans h.2.2⟩
      -- a line feed at the end would have been stripped
      rcases hrest with rfl | rfl
      · rw [htext, List.append_nil]
        rfl
      · have hspace : Text.isSpace '\n' = false :=
          Text.isSpace_getLast?_rstrip (s := header.dropWhile Text.isSpace) (by
            rw [← Text.strip_eq_rstrip, htext]
            simp [List.getLast?_append, List.getLast?_cons])
        exact absurd hspace (by decide)
  · rintro ⟨p, hp, rfl, rfl, rfl⟩
    rw [hp, TraceparentFields.text,
      matchTraceparent_fields p.version_hex p.traceId_hex p.spanId_hex p.flags_hex]
    dsimp only
    rw [if_neg (not_or.mpr ⟨p.traceId_ne_zero, p.spanId_ne_zero⟩), hbit]
    rfl

/-- **What is accepted is valid unless its version is forbidden.**  And a header that was written is
read back. -/
theorem traceparent_valid_iff (header : Str) :
    ((∀ t s sampled, parseTraceparent header = some (t, s, sampled) →
      ∃ p : Traceparent, Text.strip header = p.text ∧ p.traceId = t ∧ p.spanId = s ∧
        p.sampled = sampled) ↔
      ¬∃ p : TraceparentFields, p.version = forbiddenVersion ∧ Text.strip header = p.text) ∧
    ∀ t s sampled, IsHexId 32 t → t ≠ zeroTraceId → IsHexId 16 s → s ≠ zeroSpanId →
      parseTraceparent (formatTraceparent t s sampled) = some (t, s, sampled) := by
  refine ⟨⟨?_, fun hallowed t s sampled h ↦ ?_⟩, fun t s sampled ht htz hs hsz ↦ ?_⟩
  · rintro hvalid ⟨p, hversion, hp⟩
    obtain ⟨q, hq, -⟩ := hvalid p.traceId p.spanId p.sampled
      (parseTraceparent_eq_some_iff.mpr ⟨p, hp, rfl, rfl, rfl⟩)
    -- the version can be read off the text
    refine q.version_ne_forbidden ?_
    rw [← hversion, ← p.take_text, ← hp, hq, TraceparentFields.take_text]
  · obtain ⟨p, hp, hids⟩ := parseTraceparent_eq_some_iff.mp h
    exact ⟨⟨p, fun hversion ↦ hallowed ⟨p, hversion, hp⟩⟩, hp, hids⟩
  · rw [parseTraceparent_format ht hs, if_neg (not_or.mpr ⟨htz, hsz⟩)]

/-- A header that was written, and the same one as it came in. -/
theorem traceparent_valid_inbound :
    parseTraceparent (formatTraceparent inboundTrace inboundSpan true) =
      some (inboundTrace, inboundSpan, true) ∧
    ∃ p : Traceparent, p.traceId = inboundTrace ∧ p.spanId = inboundSpan := by
  let header : Str := formatTraceparent inboundTrace inboundSpan true
  have hwritten : parseTraceparent header = some (inboundTrace, inboundSpan, true) :=
    (traceparent_valid_iff header).2 _ _ true (by decide) (by decide) (by decide) (by decide)
  have hversion : (Text.strip header).take 2 ≠ forbiddenVersion := by decide
  obtain ⟨p, -, htrace, hspan, -⟩ := (traceparent_valid_iff header).1.mpr (by
    rintro ⟨p, hp, htext⟩
    rw [htext, p.take_text] at hversion
    exact hversion hp) _ _ _ hwritten
  exact ⟨hwritten, p, htrace, hspan⟩

/-- **A header of the forbidden version is accepted.** -/
theorem forbidden_version_accepted : ¬∀ header t s sampled,
    parseTraceparent header = some (t, s, sampled) → ∃ p : Traceparent,
      Text.strip header = p.text ∧ p.traceId = t ∧ p.spanId = s ∧ p.sampled = sampled := by
  intro hvalid
  let header : Str := "ff-0af7651916cd43dd8448eb211c80319c-b7ad6b7169203331-01".toList
  have haccepted : parseTraceparent header = some (inboundTrace, inboundSpan, true) := by
    decide +kernel
  obtain ⟨p, hp, -⟩ := hvalid header _ _ _ haccepted
  have hversion : (Text.strip header).take 2 = forbiddenVersion := by decide
  rw [hp, p.take_text] at hversion
  exact p.version_ne_forbidden hversion

end WiseTraceLoom
