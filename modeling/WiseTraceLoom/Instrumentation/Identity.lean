import WiseTraceLoom.Instrumentation.Entered
import WiseTraceLoom.Redaction

/-!
# Does a span keep its ids?

The ids of a span are hexadecimal texts, and they are stored as members of a payload like any other,
so they are searched for card numbers and phone numbers too.  `redact_hex_iff` says which
hexadecimal texts survive: those whose last ten characters are not all decimal digits.  (A text of
sixteen digits is taken for a card number; its last ten digits alone would be a phone number.)

* `storedIdentity_eq` — the ids a stored span is read back with are its ids, scrubbed.
* `span_identity_survives` — which spans are read back with their own ids.  For these the links from
  span to parent form the forest that was recorded.
* `colliding_spans` — two spans of one trace that are read back with the same id.
-/

set_option autoImplicit false

namespace WiseTraceLoom

/-! ## Hexadecimal texts -/

/-- A lowercase hexadecimal digit. -/
def isLowerHex (c : Char) : Bool := "0123456789abcdef".toList.contains c

/-- Are the last ten characters decimal digits? -/
def EndsInTenDigits (s : Str) : Prop :=
  10 ≤ s.length ∧ ∀ c ∈ s.drop (s.length - 10), c.isDigit = true

instance (s : Str) : Decidable (EndsInTenDigits s) :=
  inferInstanceAs (Decidable (_ ∧ _))

theorem endsInTenDigits_append {v w : Str} (hlen : 10 ≤ w.length)
    (hw : ∀ c ∈ w, c.isDigit = true) : EndsInTenDigits (v ++ w) := by
  rw [EndsInTenDigits, List.length_append]
  refine ⟨by omega, fun c hc ↦ hw c ?_⟩
  rw [show v.length + w.length - 10 = v.length + (w.length - 10) by omega,
    List.drop_append] at hc
  simp only [Nat.add_sub_cancel_left, List.drop_of_length_le (Nat.le_add_right _ _),
    List.nil_append] at hc
  exact List.mem_of_mem_drop hc

theorem lowerHex_cases {P : Char → Prop} (h : ∀ c ∈ "0123456789abcdef".toList, P c) {c : Char}
    (hc : isLowerHex c = true) : P c :=
  h c (List.contains_iff_mem.mp hc)

section

variable (u : Unicode)

theorem isWord_of_isLowerHex {c : Char} (hc : isLowerHex c = true) : u.isWord c = true := by
  have hascii : c.toNat < 128 ∧ (c.isAlphanum || c == '_') = true :=
    lowerHex_cases (P := fun c ↦ c.toNat < 128 ∧ (c.isAlphanum || c == '_') = true) (by decide) hc
  rw [u.isWord_ascii c hascii.1, hascii.2]

theorem isDecimal_of_isLowerHex {c : Char} (hc : isLowerHex c = true) :
    u.isDecimal c = c.isDigit :=
  u.isDecimal_ascii c (lowerHex_cases (P := fun c ↦ c.toNat < 128) (by decide) hc)

/-- What a pattern can find in a hexadecimal text: since there is no word boundary in it, a match
reaches to its end. -/
theorem endsInTenDigits_of_mem_run {r : Regex} (hlen : 10 ≤ r.minLength)
    (hacc : ∀ c, isLowerHex c = true → r.accepts c = true → c.isDigit = true) {v w : Str}
    (hs : ∀ c ∈ v ++ w, isLowerHex c = true) {y : Cursor}
    (hy : y ∈ (Regex.seq r (.boundary u.isWord)).run ⟨v.reverse, w⟩) :
    EndsInTenDigits (v ++ w) := by
  obtain ⟨hy, hend⟩ := Regex.mem_run_seq_boundary.mp hy
  obtain ⟨d, hd, hread⟩ := Regex.exists_mem_language r _ y hy
  have hw : w = d ++ y.after := hread.1
  have hdlen : 10 ≤ d.length := hlen.trans (Regex.minLength_le hd)
  have hafter : y.after = [] := by
    cases hya : y.after with
    | nil => rfl
    | cons c rest =>
      obtain ⟨e, he⟩ : ∃ e, d.reverse.head? = some e :=
        Option.isSome_iff_exists.mp (by rw [List.isSome_head?, List.reverse_ne_nil_iff]; grind)
      have hbefore : y.before.head? = some e := by
        rw [hread.2, List.head?_append, he]
        rfl
      have hec : isLowerHex e = true ∧ isLowerHex c = true := by
        have hed : e ∈ d := List.mem_reverse.mp (List.mem_of_head? he)
        constructor <;> exact hs _ (by rw [hw, hya]; simp [hed])
      rw [hbefore, hya] at hend
      simp [isWord_of_isLowerHex u hec.1, isWord_of_isLowerHex u hec.2] at hend
  rw [hafter, List.append_nil] at hw
  subst hw
  exact endsInTenDigits_append hdlen fun c hc ↦
    hacc c (hs c (List.mem_append_right v hc)) (Regex.accepts_of_mem_language hd c hc)

theorem cardDigits_accepts {c : Char} (hc : isLowerHex c = true)
    (h : (cardDigits u).accepts c = true) : c.isDigit = true := by
  have hsep : " -".toList.contains c = false :=
    lowerHex_cases (P := fun c ↦ " -".toList.contains c = false) (by decide) hc
  rw [← isDecimal_of_isLowerHex u hc]
  simpa only [cardDigits, Regex.between, Regex.oneOf, Regex.accepts, hsep, Bool.false_or,
    Bool.or_self] using h

theorem phoneNumber_accepts {c : Char} (hc : isLowerHex c = true)
    (h : (phoneNumber u).accepts c = true) : c.isDigit = true := by
  have hsep : (c == '+') = false ∧ (c == '(') = false ∧ (c == ')') = false ∧
      ("-.".toList.contains c || Text.isSpace c) = false :=
    lowerHex_cases (P := fun c ↦ (c == '+') = false ∧ (c == '(') = false ∧ (c == ')') = false ∧
      ("-.".toList.contains c || Text.isSpace c) = false) (by decide) hc
  rw [← isDecimal_of_isLowerHex u hc]
  simpa only [phoneNumber, phoneSeparator, Regex.times, Regex.between, Regex.char, Regex.accepts,
    hsep, Bool.false_or, Bool.or_false, Bool.or_self] using h

/-- Ten digits are a phone number. -/
theorem mem_language_phoneNumber {w : Str} (hlen : w.length = 10)
    (hw : ∀ c ∈ w, u.isDecimal c = true) : w ∈ (phoneNumber u).language := by
  have hpart (n k : ℕ) (hk : k = ((w.drop n).take k).length) :
      (w.drop n).take k ∈ (Regex.times (.cls u.isDecimal) k).language := by
    have := Regex.mem_language_times (p := u.isDecimal) (w := (w.drop n).take k) fun c hc ↦
      hw c (List.mem_of_mem_drop (List.mem_of_mem_take hc))
    rwa [← hk] at this
  have hlast : (w.drop 6).take 4 = (w.drop 3).drop 3 := by
    rw [List.drop_drop, List.take_of_length_le (by simp [hlen])]
  have hsplit : w = w.take 3 ++ ((w.drop 3).take 3 ++ (w.drop 6).take 4) := by
    rw [hlast, List.take_append_drop, List.take_append_drop]
  rw [hsplit]
  refine Regex.mem_language_opt_seq (Regex.mem_language_opt_seq (Language.append_mem_mul ?_
    (Regex.mem_language_opt_seq (Regex.mem_language_opt_seq (Language.append_mem_mul ?_
      (Regex.mem_language_opt_seq ?_))))))
  · exact hpart 0 3 (by simp [hlen])
  · exact hpart 3 3 (by simp [hlen])
  · exact hpart 6 4 (by simp [hlen])

/-- Ten digits at the end of a text are found. -/
theorem exists_mem_run_phoneRe {s : Str} (hs : ∀ c ∈ s, isLowerHex c = true)
    (h : EndsInTenDigits s) :
    ∃ v w y, s = v ++ w ∧ y ∈ (phoneRe u).run ⟨v.reverse, w⟩ := by
  obtain ⟨hlen, hdigits⟩ := h
  have hsplit := (List.take_append_drop (s.length - 10) s).symm
  have htail : (s.drop (s.length - 10)).length = 10 := by
    rw [List.length_drop]
    omega
  generalize s.take (s.length - 10) = v at hsplit
  generalize s.drop (s.length - 10) = w at hsplit htail hdigits
  subst hsplit
  have hhex : ∀ c ∈ w, isLowerHex c = true := fun c hc ↦ hs c (List.mem_append_right v hc)
  have hdecimal : ∀ c ∈ w, u.isDecimal c = true := fun c hc ↦ by
    rw [isDecimal_of_isLowerHex u (hhex c hc), hdigits c hc]
  have hplain : (phoneNumber u).Plain := by
    simp [phoneNumber, phoneSeparator, Regex.Plain, Regex.times, Regex.between, Regex.char]
  refine ⟨v, w, ⟨w.reverse ++ v.reverse, []⟩, rfl, Regex.mem_run_seq_boundary.mpr ⟨?_, ?_⟩⟩
  · exact Regex.mem_run hplain _ w _ (mem_language_phoneNumber u htail hdecimal)
      ⟨(List.append_nil w).symm, rfl⟩
  · -- the text ends with a word character
    obtain ⟨c, hc⟩ : ∃ c, w.getLast? = some c := by
      cases hw : w.getLast? with
      | none => simp [List.getLast?_eq_none_iff.mp hw] at htail
      | some c => exact ⟨c, rfl⟩
    have hword := isWord_of_isLowerHex u (hhex c (List.mem_of_getLast? hc))
    simp [List.head?_append, hc, hword]

/-- **Which ids survive redaction.** -/
theorem redact_hex_iff {s : Str} (hs : ∀ c ∈ s, isLowerHex c = true) :
    redactRegexMatches u s = s ↔ ¬ EndsInTenDigits s := by
  have hbracket : '[' ∉ s := fun hmem ↦ absurd (hs _ hmem) (by decide)
  have hat : ∀ c ∈ s, ¬ c = '@' := by
    rintro c hc rfl
    exact absurd (hs _ hc) (by decide)
  have hemail : (emailRe u).sub "[REDACTED_EMAIL]".toList s = s :=
    Regex.sub_eq_self_of_needs (emailRe_needs u) _ hat
  rw [redactRegexMatches, hemail]
  constructor
  · intro hsame hten
    by_cases hcard : (creditCardRe u).sub "[REDACTED_CARD]".toList s = s
    · rw [hcard] at hsame
      obtain ⟨v, w, y, rfl, hy⟩ := exists_mem_run_phoneRe u hs hten
      have hrepl : '[' ∈ "[REDACTED_PHONE]".toList := by decide
      have := Regex.mem_sub_of_match (by rw [minLength_phoneRe]; decide) hrepl hy
      exact hbracket (hsame ▸ this)
    · have hrepl : '[' ∈ "[REDACTED_CARD]".toList := by decide
      have hmem := Regex.mem_sub_of_ne (by rw [minLength_creditCardRe]; decide) hrepl hcard
      have hacc : (phoneRe u).accepts '[' = false := by
        have hdecimal : u.isDecimal '[' = false := u.isDecimal_ascii '[' (by decide)
        simp [phoneRe, phoneNumber, phoneSeparator, Regex.times, Regex.between, Regex.char,
          Regex.accepts, hdecimal, show Text.isSpace '[' = false by decide]
      have := Regex.mem_sub_of_not_accepts hacc "[REDACTED_PHONE]".toList hmem
      exact hbracket (hsame ▸ this)
  · intro hten
    have hcard : (creditCardRe u).sub "[REDACTED_CARD]".toList s = s := by
      refine Regex.sub_eq_self fun v w hvw ↦ List.eq_nil_iff_forall_not_mem.mpr fun y hy ↦ hten ?_
      subst hvw
      exact endsInTenDigits_of_mem_run u (by rw [minLength_cardDigits]; decide)
        (fun c ↦ cardDigits_accepts u) hs (Regex.mem_run_of_boundary_seq hy)
    have hphone : (phoneRe u).sub "[REDACTED_PHONE]".toList s = s := by
      refine Regex.sub_eq_self fun v w hvw ↦ List.eq_nil_iff_forall_not_mem.mpr fun y hy ↦ hten ?_
      subst hvw
      exact endsInTenDigits_of_mem_run u (minLength_phoneNumber u).ge
        (fun c ↦ phoneNumber_accepts u) hs hy
    rw [hcard, hphone]

end

/-! ## Spans and their ids -/

variable {K : Type}

/-- The ids are of the form in which `generate_span_id` and `generate_trace_id` return them. -/
structure SpanIdentity.Conformant (i : SpanIdentity) : Prop where
  spanId : i.spanId.length = 16 ∧ ∀ c ∈ i.spanId, isLowerHex c = true
  traceId : i.traceId.length = 32 ∧ ∀ c ∈ i.traceId, isLowerHex c = true
  parentSpanId : ∀ p ∈ i.parentSpanId, p.length = 16 ∧ ∀ c ∈ p, isLowerHex c = true

/-- No id ends in ten decimal digits. -/
structure SpanIdentity.NoTenDigits (i : SpanIdentity) : Prop where
  spanId : ¬ EndsInTenDigits i.spanId
  traceId : ¬ EndsInTenDigits i.traceId
  parentSpanId : ∀ p ∈ i.parentSpanId, ¬ EndsInTenDigits p

/-- All ids changed in the same way. -/
def SpanIdentity.map (f : Str → Str) (i : SpanIdentity) : SpanIdentity :=
  ⟨f i.spanId, f i.traceId, i.parentSpanId.map f⟩

/-- **Whose ids survive redaction.** -/
theorem SpanIdentity.map_redact_iff (u : Unicode) {i : SpanIdentity} (hi : i.Conformant) :
    i.map (redactRegexMatches u) = i ↔ i.NoTenDigits := by
  obtain ⟨spanId, traceId, parentSpanId⟩ := i
  rw [SpanIdentity.map, SpanIdentity.mk.injEq, redact_hex_iff u hi.spanId.2,
    redact_hex_iff u hi.traceId.2]
  have hparent : parentSpanId.map (redactRegexMatches u) = parentSpanId ↔
      ∀ p ∈ parentSpanId, ¬ EndsInTenDigits p := by
    cases parentSpanId with
    | none => simp
    | some p =>
      rw [Option.map_some, Option.some.injEq, redact_hex_iff u (hi.parentSpanId p rfl).2]
      simp
  rw [hparent]
  exact ⟨fun h ↦ ⟨h.1, h.2.1, h.2.2⟩, fun h ↦ ⟨h.spanId, h.traceId, h.parentSpanId⟩⟩

/-- For every span of a list, where in the list its parent stands. -/
def forest (ids : List SpanIdentity) : List (Option ℕ) :=
  ids.map fun i ↦ i.parentSpanId.bind fun p ↦
    ids.findIdx? fun j ↦ j.spanId = p ∧ j.traceId = i.traceId

/-! ## Dumping a span -/

/-- How `model_dump` writes what has no JSON type of its own. -/
structure DumpText (K : Type) where
  /-- A `datetime`. -/
  datetime : Datetime → Str
  /-- A `float`. -/
  float : K → FloatLit

/-- A value, or `null`. -/
def optional {α : Type} (f : α → Json) : Option α → Json
  | none => .null
  | some x => f x

/-- The members every dumped span starts with. -/
def SpanBase.dump (text : DumpText K) (s : SpanBase) : Payload :=
  [("schema_version".toList, .str s.schemaVersion), ("span_id".toList, .str s.spanId),
    ("trace_id".toList, .str s.traceId), ("parent_span_id".toList, optional .str s.parentSpanId),
    ("tenant_id".toList, optional .str s.tenantId),
    ("started_at".toList, .str (text.datetime s.startedAt)),
    ("ended_at".toList, optional (fun t ↦ .str (text.datetime t)) s.endedAt)]

/-- `span.model_dump(mode="json")`. -/
def Span.modelDump (text : DumpText K) : Span K → Payload
  | .agent s => s.dump text ++
    [("agent_id".toList, .str s.agentId), ("agent_name".toList, .str s.agentName),
      ("description".toList, optional .str s.description),
      ("conversation_id".toList, optional .str s.conversationId),
      ("operation_name".toList, .str s.operationName),
      ("loop_iteration".toList, .int s.loopIteration)]
  | .tool s => s.dump text ++
    [("tool_name".toList, .str s.toolName),
      ("tool_call_id".toList, optional .str s.toolCallId), ("tool_type".toList, .str s.toolType),
      ("description".toList, optional .str s.description),
      ("success".toList, optional .bool s.success),
      ("error_message".toList, optional .str s.errorMessage)]
  | .llm s => s.dump text ++
    [("provider_name".toList, .str s.providerName), ("request_model".toList, .str s.requestModel),
      ("response_model".toList, optional .str s.responseModel),
      ("operation_name".toList, .str s.operationName),
      ("input_tokens".toList, optional .int s.inputTokens),
      ("output_tokens".toList, optional .int s.outputTokens),
      ("reasoning_tokens".toList, optional .int s.reasoningTokens),
      ("cache_read_input_tokens".toList, optional .int s.cacheReadInputTokens),
      ("cache_creation_input_tokens".toList, optional .int s.cacheCreationInputTokens),
      ("finish_reasons".toList, .arr (s.finishReasons.map .str)),
      ("temperature".toList, optional (fun x ↦ .float (text.float x)) s.temperature),
      ("max_tokens".toList, optional .int s.maxTokens),
      ("estimated_cost_usd".toList, optional (fun x ↦ .float (text.float x)) s.estimatedCostUsd),
      ("prompt_version_id".toList, optional .str s.promptVersionId)]

theorem Span.get?_modelDump (text : DumpText K) (s : Span K) :
    Json.get? "span_id".toList (s.modelDump text) = some (.str s.base.spanId) ∧
    Json.get? "trace_id".toList (s.modelDump text) = some (.str s.base.traceId) ∧
    Json.get? "parent_span_id".toList (s.modelDump text) =
      some (optional .str s.base.parentSpanId) := by
  cases s <;> exact ⟨rfl, rfl, rfl⟩

/-- What the writer thread calls `append_commit` with. -/
def QueuedAppend.args (q : QueuedAppend) : AppendArgs where
  streamId := q.streamId
  recordType := q.recordType
  payload := q.payload
  tenantId := q.tenantId

/-- `row` is a row in which a span is stored that was handed to the writer thread. -/
def Span.StoredAs (u : Unicode) (text : DumpText K) (s : Span K) (row : StorageCommit) : Prop :=
  ∃ q : QueuedAppend, q.payload = s.modelDump text ∧
    q.args.Inserts (defaultMaskingCallback u) row

/-- The ids a row is read back with. -/
def storedIdentity (row : StorageCommit) : Option SpanIdentity :=
  match Json.loads row.payload with
  | some (.obj stored) =>
    match Json.get? "span_id".toList stored, Json.get? "trace_id".toList stored,
      Json.get? "parent_span_id".toList stored with
    | some (.str s), some (.str t), some (.str p) => some ⟨s, t, some p⟩
    | some (.str s), some (.str t), some .null => some ⟨s, t, none⟩
    | _, _, _ => none
  | _ => none

/-- **A span is read back with its ids scrubbed.** -/
theorem storedIdentity_eq {u : Unicode} {text : DumpText K} {s : Span K} {row : StorageCommit}
    (h : s.StoredAs u text row) :
    storedIdentity row = some (s.identity.map (redactRegexMatches u)) := by
  obtain ⟨q, hq, hrow⟩ := h
  obtain ⟨stored, hloads, hget⟩ := stored_member u hrow
  obtain ⟨hspan, htrace, hparent⟩ := s.get?_modelDump text
  have hpayload : q.args.payload = s.modelDump text := hq
  have hsensitive : ∀ key ∈ ["span_id".toList, "trace_id".toList, "parent_span_id".toList],
      isSensitive u key = false := by
    intro key hkey
    have hascii : ∀ key ∈ ["span_id".toList, "trace_id".toList, "parent_span_id".toList],
        (∀ c ∈ key, c.toNat < 128) ∧ sensitiveFieldNames.contains (Text.lower key) = false := by
      decide
    rw [isSensitive, u.lower_ascii key (hascii key hkey).1, (hascii key hkey).2]
  have hmember (key : Str) (value : Json)
      (hkey : key ∈ ["span_id".toList, "trace_id".toList, "parent_span_id".toList])
      (hvalue : Json.get? key (s.modelDump text) = some value) :
      Json.get? key stored = some (scrub u value).sortKeys := by
    rw [hget key, hpayload, hvalue, Option.map_some, maskField, hsensitive key hkey,
      if_neg Bool.false_ne_true]
  rw [storedIdentity, hloads]
  simp only [hmember _ _ (by simp) hspan, hmember _ _ (by simp) htrace,
    hmember _ _ (by simp) hparent, scrub, Json.sortKeys]
  cases hp : s.base.parentSpanId with
  | none => simp [optional, Json.sortKeys, Span.identity, SpanIdentity.map, hp]
  | some p => simp [optional, Json.sortKeys, Span.identity, SpanIdentity.map, hp]

/-! ## Spans read back -/

/-- **Which spans are read back with their own ids**: those none of whose ids ends in ten decimal
digits.  If there are no others, the parent links read back form the same forest. -/
theorem span_identity_survives (u : Unicode) (text : DumpText K) {spans : List (Span K)}
    {rows : List StorageCommit} (hrows : List.Forall₂ (Span.StoredAs u text) spans rows)
    (hids : ∀ s ∈ spans, s.identity.Conformant) :
    (rows.map storedIdentity = spans.map (fun s ↦ some s.identity) ↔
      ∀ s ∈ spans, s.identity.NoTenDigits) ∧
    ((∀ s ∈ spans, s.identity.NoTenDigits) →
      forest (rows.filterMap storedIdentity) = forest (spans.map Span.identity)) := by
  have hread : rows.map storedIdentity =
      spans.map fun s ↦ some (s.identity.map (redactRegexMatches u)) := by
    clear hids
    induction hrows with
    | nil => rfl
    | cons h _ ih => rw [List.map_cons, List.map_cons, storedIdentity_eq h, ih]
  have hiff : rows.map storedIdentity = spans.map (fun s ↦ some s.identity) ↔
      ∀ s ∈ spans, s.identity.NoTenDigits := by
    rw [hread, List.map_inj_left]
    refine forall₂_congr fun s hs ↦ ?_
    rw [Option.some.injEq, SpanIdentity.map_redact_iff u (hids s hs)]
  refine ⟨hiff, fun h ↦ ?_⟩
  have hsame : rows.filterMap storedIdentity = spans.map Span.identity := by
    calc rows.filterMap storedIdentity = (rows.map storedIdentity).filterMap id := by
          rw [List.filterMap_map, Function.id_comp]
      _ = (spans.map fun s ↦ some s.identity).filterMap id := by rw [hiff.mpr h]
      _ = spans.map Span.identity := by
          rw [List.filterMap_map]
          exact congrFun List.filterMap_eq_map spans
  rw [hsame]

/-- An agent step with these ids. -/
def agentSpan (spanId : Str) (parentSpanId : Option Str) : Span Unit :=
  .agent
    { schemaVersion := schemaVersion, spanId := spanId
      traceId := "0af7651916cd43dd8448eb211c80319c".toList
      parentSpanId := parentSpanId, tenantId := none, startedAt := utcnow noon, endedAt := none
      agentId := "a".toList, agentName := "planner".toList, description := none
      conversationId := none, operationName := "plan".toList, loopIteration := 0 }

/-- One way to write dates and numbers. -/
def plainText : DumpText Unit := ⟨Datetime.isoformat, fun _ ↦ ⟨"0.0".toList, by decide⟩⟩

/-- The row of a span that is the first of its stream. -/
def spanRow (s : Span Unit) : StorageCommit :=
  (AppendTask.commit ⟨"spans".toList, s.eventName, s.tenantId, 20,
    (s.modelDump plainText).map fun m ↦ (m.1, maskField .ascii m.1 m.2)⟩ 1 none noon).column

theorem spanRow_storedAs (s : Span Unit) : s.StoredAs .ascii plainText (spanRow s) := by
  refine ⟨⟨"spans".toList, s.eventName, s.modelDump plainText, s.tenantId⟩, rfl, _, 1, none, noon,
    ?_, rfl⟩
  rw [AppendArgs.prepare, applyMasking, defaultMaskingCallback_eq]
  rfl

theorem span_identity_survives_once :
    [spanRow (agentSpan "53995c3f42cd8ad8".toList none),
      spanRow (agentSpan "00f067aa0ba902b7".toList (some "53995c3f42cd8ad8".toList))].map
        storedIdentity =
      [some ⟨"53995c3f42cd8ad8".toList, "0af7651916cd43dd8448eb211c80319c".toList, none⟩,
        some ⟨"00f067aa0ba902b7".toList, "0af7651916cd43dd8448eb211c80319c".toList,
          some "53995c3f42cd8ad8".toList⟩] := by
  refine (span_identity_survives .ascii plainText
    (.cons (spanRow_storedAs _) (.cons (spanRow_storedAs _) .nil)) ?_).1.mpr ?_
  · intro s hs
    simp only [List.mem_cons, List.not_mem_nil, or_false] at hs
    rcases hs with rfl | rfl
    · exact ⟨by decide, by decide, by decide⟩
    · exact ⟨by decide, by decide, by decide⟩
  · intro s hs
    simp only [List.mem_cons, List.not_mem_nil, or_false] at hs
    rcases hs with rfl | rfl
    · exact ⟨by decide, by decide, by decide⟩
    · exact ⟨by decide, by decide, by decide⟩

/-- **Two spans with one id.**  The ids of two spans of a trace end in different phone numbers; read
back they are the same, and a child of the second span has become a child of the first. -/
theorem colliding_spans :
    let spans := [agentSpan "b7ad6b7169203331".toList none,
      agentSpan "b7ad6b7169203332".toList none,
      agentSpan "00f067aa0ba902b7".toList (some "b7ad6b7169203332".toList)]
    (∀ s ∈ spans, s.identity.Conformant) ∧
    List.Forall₂ (Span.StoredAs .ascii plainText) spans (spans.map spanRow) ∧
    (spans.map spanRow).map storedIdentity ≠ spans.map (fun s ↦ some s.identity) ∧
    forest (spans.map Span.identity) = [none, none, some 1] ∧
    forest ((spans.map spanRow).filterMap storedIdentity) = [none, none, some 0] := by
  intro spans
  have hread : (spans.map spanRow).map storedIdentity =
      [some ⟨"b7ad6b[REDACTED_PHONE]".toList, "0af7651916cd43dd8448eb211c80319c".toList, none⟩,
        some ⟨"b7ad6b[REDACTED_PHONE]".toList, "0af7651916cd43dd8448eb211c80319c".toList, none⟩,
        some ⟨"00f067aa0ba902b7".toList, "0af7651916cd43dd8448eb211c80319c".toList,
          some "b7ad6b[REDACTED_PHONE]".toList⟩] := by
    simp only [spans, List.map_cons, List.map_nil, storedIdentity_eq (spanRow_storedAs _)]
    decide
  refine ⟨?_, ?_, ?_, by decide, ?_⟩
  · intro s hs
    simp only [spans, List.mem_cons, List.not_mem_nil, or_false] at hs
    rcases hs with rfl | rfl | rfl <;> exact ⟨by decide, by decide, by decide⟩
  · exact .cons (spanRow_storedAs _) (.cons (spanRow_storedAs _) (.cons (spanRow_storedAs _) .nil))
  · rw [hread]
    decide
  · rw [← Function.id_comp storedIdentity, ← List.filterMap_map, hread]
    decide

end WiseTraceLoom
