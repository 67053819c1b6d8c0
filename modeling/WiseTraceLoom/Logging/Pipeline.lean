import WiseTraceLoom.Instrumentation.Identity

/-!
# The way of an event into the log

`configure` gives `structlog` a list of processors: the bound context is merged in, the event is
redacted, and then its level, the time, a stack and an exception are added and everything is written
as one line of JSON.  What is added after the redaction is not redacted.

Of the processors only the redaction is this program's.  The others are a parameter, `Structlog`,
and what is relied on of them is `Structlog.Documented`.

A span is written to the log and, on another way with a redaction of its own, to the store.

* `Structlog.Documented.renderEvent_member` — what a line holds under every key.
* `span_line_agrees_with_store` — for every member of a span the line and the stored row hold the
  same value.
-/

set_option autoImplicit false

namespace WiseTraceLoom

/-! ## Processors -/

/-- A processor makes an event dict of the one before it, for a call of the method it is given. -/
abbrev Processor := Str → Payload → Payload

/-- The processor touches no key but these. -/
def Processor.Only (keys : List Str) (p : Processor) : Prop :=
  ∀ methodName d key, key ∉ keys → Json.get? key (p methodName d) = Json.get? key d

/-- One processor after the other, in the order of the list. -/
def runProcessors (ps : List Processor) : Processor := fun methodName d ↦
  ps.foldl (fun d p ↦ p methodName d) d

/-- What no processor of a list touches stays. -/
theorem Processor.only_runProcessors {keys : List Str} {ps : List Processor}
    (h : ∀ p ∈ ps, p.Only keys) : (runProcessors ps).Only keys := by
  intro methodName d key hkey
  induction ps generalizing d with
  | nil => rfl
  | cons p ps ih =>
    calc Json.get? key (runProcessors ps methodName (p methodName d))
        = Json.get? key (p methodName d) := ih (fun q hq ↦ h q (List.mem_cons_of_mem p hq)) _
      _ = Json.get? key d := h p List.mem_cons_self methodName d key hkey

theorem Processor.Only.mono {keys keys' : List Str} {p : Processor} (h : p.Only keys)
    (hkeys : keys ⊆ keys') : p.Only keys' :=
  fun methodName d key hkey ↦ h methodName d key fun hmem ↦ hkey (hkeys hmem)

/-- A call of a method of a logger. -/
structure LogCall where
  /-- The method. -/
  methodName : Str
  /-- The event. -/
  event : Str
  /-- The keyword arguments. -/
  fields : Payload

/-- What `structlog` does of the way of an event. -/
structure Structlog where
  /-- The event dict a logger to which the context `bound` is bound starts with. -/
  eventDict (bound : Payload) (call : LogCall) : Payload
  /-- `contextvars.merge_contextvars`, when the task has the context `context`. -/
  mergeContextvars (context : Payload) : Processor
  /-- `processors.add_log_level`. -/
  addLogLevel : Processor
  /-- `processors.TimeStamper(fmt="iso", utc=True)`, at the time of the call. -/
  timeStamper : Processor
  /-- `processors.StackInfoRenderer()`. -/
  stackInfoRenderer : Processor
  /-- `processors.format_exc_info`. -/
  formatExcInfo : Processor
  /-- `processors.JSONRenderer()`. -/
  jsonRenderer (d : Payload) : Str

/-- `pii_redaction_processor`. -/
def piiRedactionProcessor (u : Unicode) : Processor := fun _ d ↦
  (redactStructuredFields u sensitiveFieldNames d).map fun m ↦ (m.1, scrub u m.2)

/-- The line an event makes: the `processors` of `configure`, with a `JSONRenderer` at their end. -/
def Structlog.renderEvent (S : Structlog) (u : Unicode) (context bound : Payload)
    (call : LogCall) : Str :=
  S.jsonRenderer (runProcessors
    [S.mergeContextvars context, piiRedactionProcessor u, S.addLogLevel, S.timeStamper,
      S.stackInfoRenderer, S.formatExcInfo] call.methodName (S.eventDict bound call))

/-- The documented behaviour of `structlog`. -/
structure Structlog.Documented (S : Structlog) : Prop where
  /-- An event dict holds the event, the keyword arguments and, under other keys, what is bound. -/
  eventDict (bound : Payload) (call : LogCall) (key : Str) :
    Json.get? key (S.eventDict bound call) =
      if key = "event".toList then some (.str call.event)
      else (Json.get? key call.fields).or (Json.get? key bound)
  /-- The values of the context are merged in; what the event has itself is preferred. -/
  mergeContextvars (context : Payload) (methodName : Str) (d : Payload) (key : Str) :
    Json.get? key (S.mergeContextvars context methodName d) =
      (Json.get? key d).or (Json.get? key context)
  /-- The name of the method is added as the level. -/
  addLogLevel : S.addLogLevel.Only ["level".toList]
  /-- The time is added. -/
  timeStamper : S.timeStamper.Only ["timestamp".toList]
  /-- A `stack_info` is taken out and the stack is added. -/
  stackInfoRenderer : S.stackInfoRenderer.Only ["stack_info".toList, "stack".toList]
  /-- An `exc_info` is taken out and the text of the exception is added. -/
  formatExcInfo : S.formatExcInfo.Only ["exc_info".toList, "exception".toList]
  /-- The event dict is written as JSON. -/
  jsonRenderer (d : Payload) : Json.loads (S.jsonRenderer d) = some (.obj d)

/-- The keys that are written after the redaction. -/
def addedKeys : List Str :=
  ["level".toList, "timestamp".toList, "stack_info".toList, "stack".toList, "exc_info".toList,
    "exception".toList]

variable (u : Unicode)

theorem get?_piiRedactionProcessor (methodName key : Str) (d : Payload) :
    Json.get? key (piiRedactionProcessor u methodName d) =
      (Json.get? key d).map (maskField u key) := by
  have hmask : piiRedactionProcessor u methodName d = d.map fun m ↦ (m.1, maskField u m.1 m.2) := by
    have h := defaultMaskingCallback_eq u d
    rw [defaultMaskingCallback] at h
    exact Masked.dict.inj (Except.ok.inj h)
  rw [hmask, Json.get?_map (maskField u)]

/-- The processors after the redaction touch nothing but what they add. -/
theorem Structlog.Documented.only_addedKeys {S : Structlog} (hS : S.Documented) :
    (runProcessors [S.addLogLevel, S.timeStamper, S.stackInfoRenderer, S.formatExcInfo]).Only
      addedKeys := by
  refine Processor.only_runProcessors fun p hp ↦ ?_
  rw [List.mem_cons, List.mem_cons, List.mem_pair] at hp
  obtain rfl | rfl | rfl | rfl := hp
  · exact hS.addLogLevel.mono (by decide)
  · exact hS.timeStamper.mono (by decide)
  · exact hS.stackInfoRenderer.mono (by decide)
  · exact hS.formatExcInfo.mono (by decide)

/-- **What a line holds** under a key that is not written after the redaction: the event, the field,
the bound value or the value of the context, in that order, and masked. -/
theorem Structlog.Documented.renderEvent_member {S : Structlog} (hS : S.Documented)
    (context bound : Payload) (call : LogCall) :
    ∃ shown, Json.loads (S.renderEvent u context bound call) = some (.obj shown) ∧
      ∀ key, key ∉ addedKeys → Json.get? key shown =
        (if key = "event".toList then some (Json.str call.event)
          else (Json.get? key call.fields).or
            ((Json.get? key bound).or (Json.get? key context))).map (maskField u key) := by
  refine ⟨_, hS.jsonRenderer _, fun key hkey ↦ ?_⟩
  let merged := S.mergeContextvars context call.methodName (S.eventDict bound call)
  have hmerged : Json.get? key merged =
      if key = "event".toList then some (Json.str call.event)
      else (Json.get? key call.fields).or ((Json.get? key bound).or (Json.get? key context)) := by
    rw [hS.mergeContextvars, hS.eventDict]
    by_cases hevent : key = "event".toList
    · rw [if_pos hevent, if_pos hevent, Option.some_or]
    · rw [if_neg hevent, if_neg hevent, Option.or_assoc]
  calc Json.get? key (runProcessors [S.addLogLevel, S.timeStamper, S.stackInfoRenderer,
          S.formatExcInfo] call.methodName (piiRedactionProcessor u call.methodName merged))
      = Json.get? key (piiRedactionProcessor u call.methodName merged) :=
        hS.only_addedKeys call.methodName _ key hkey
    _ = (Json.get? key merged).map (maskField u key) := get?_piiRedactionProcessor u _ key merged
    _ = _ := by rw [hmerged]

/-! ## Spans -/

variable {K : Type}

/-- The call by which a span is written to the log. -/
def Span.logCall (text : DumpText K) (s : Span K) : LogCall where
  methodName := "info".toList
  event := s.eventName
  fields := s.modelDump text

/-- No member of a span is written over. -/
theorem Span.modelDump_keys (text : DumpText K) (s : Span K) {key : Str} {value : Json}
    (h : Json.get? key (s.modelDump text) = some value) :
    key ≠ "event".toList ∧ key ∉ addedKeys := by
  have hmem : key ∈ (s.modelDump text).map Prod.fst := by
    rw [Json.get?, Option.map_eq_some_iff] at h
    obtain ⟨m, hm, -⟩ := h
    have hkey : m.1 = key := by simpa using List.find?_some hm
    exact List.mem_map.mpr ⟨m, List.mem_reverse.mp (List.mem_of_find?_eq_some hm), hkey⟩
  have hkeys : ∀ k ∈ (s.modelDump text).map Prod.fst, k ≠ "event".toList ∧ k ∉ addedKeys := by
    cases s <;> (simp only [Span.modelDump, SpanBase.dump, List.map_append, List.map_cons,
      List.map_nil]; decide)
  exact hkeys key hmem

/-- **The log and the store tell the same about a span**, although they are redacted on two separate
ways: for every span, whatever is bound to the context of the task and to the logger, every member
of the span stands in the line that is written to the log with the value that it has in the row it
is stored in. -/
theorem span_line_agrees_with_store {S : Structlog} (hS : S.Documented) (text : DumpText K)
    (s : Span K) (context bound : Payload) {row : StorageCommit} (h : s.StoredAs u text row) :
    ∃ shown stored,
      Json.loads (S.renderEvent u context bound (s.logCall text)) = some (.obj shown) ∧
      Json.loads row.payload = some (.obj stored) ∧
      ∀ key value, Json.get? key (s.modelDump text) = some value →
        Json.get? key shown = some (maskField u key value) ∧
        Json.get? key stored = some (maskField u key value).sortKeys := by
  obtain ⟨q, hq, hrow⟩ := h
  obtain ⟨shown, hshown, hline⟩ := hS.renderEvent_member u context bound (s.logCall text)
  obtain ⟨stored, hstored, hget⟩ := stored_member u hrow
  refine ⟨shown, stored, hshown, hstored, fun key value hvalue ↦ ⟨?_, ?_⟩⟩
  · obtain ⟨hevent, hadded⟩ := s.modelDump_keys text hvalue
    rw [hline key hadded, if_neg hevent]
    show ((Json.get? key (s.modelDump text)).or _).map _ = _
    rw [hvalue, Option.some_or, Option.map_some]
  · have hpayload : Json.get? key q.args.payload = some value := by
      show Json.get? key q.payload = some value
      rw [hq, hvalue]
    rw [hget, hpayload, Option.map_some]

/-! ## An event without a stack or an exception -/

/-- `d[key] = value`: the place of a key that is there stays the same. -/
def setItem (key : Str) (value : Json) (d : Payload) : Payload :=
  if d.any fun m ↦ m.1 = key then d.map fun m ↦ if m.1 = key then (key, value) else m
  else d ++ [(key, value)]

/-- `d.update(e)`. -/
def update (d e : Payload) : Payload := e.foldl (fun d m ↦ setItem m.1 m.2 d) d

theorem get?_overwrite (key k : Str) (value : Json) (d : Payload) :
    Json.get? key (d.map fun m ↦ if m.1 = k then (k, value) else m) =
      (Json.get? key d).map fun v ↦ if key = k then value else v := by
  have hsame : (d.map fun m ↦ if m.1 = k then (k, value) else m) =
      d.map fun m ↦ (m.1, if m.1 = k then value else m.2) := by
    refine List.map_congr_left fun m _ ↦ ?_
    by_cases hm : m.1 = k <;> simp [hm]
  rw [hsame, Json.get?_map fun k' v ↦ if k' = k then value else v]

theorem get?_setItem (key k : Str) (value : Json) (d : Payload) :
    Json.get? key (setItem k value d) = if k = key then some value else Json.get? key d := by
  rw [setItem]
  split_ifs with hany hk hk
  · subst hk
    obtain ⟨m, hmem, hm⟩ := List.any_eq_true.mp hany
    have hfound : (d.reverse.find? fun m ↦ m.1 = k).isSome :=
      List.find?_isSome.mpr ⟨m, List.mem_reverse.mpr hmem, hm⟩
    obtain ⟨old, hold⟩ := Option.isSome_iff_exists.mp hfound
    rw [get?_overwrite, Json.get?, hold]
    simp
  · rw [get?_overwrite]
    cases Json.get? key d <;> simp [Ne.symm hk]
  · rw [Json.get?_append, Json.get?_singleton, if_pos hk, Option.some_or]
  · rw [Json.get?_append, Json.get?_singleton, if_neg hk, Option.none_or]

/-- What was put in last stands. -/
theorem get?_update (key : Str) (d e : Payload) :
    Json.get? key (update d e) = (Json.get? key e).or (Json.get? key d) := by
  induction e using List.reverseRecOn with
  | nil => rfl
  | append_singleton e m ih =>
    rw [update, List.foldl_append, List.foldl_cons, List.foldl_nil, get?_setItem, Json.get?_append,
      Json.get?_singleton]
    by_cases hm : m.1 = key
    · rw [if_pos hm, if_pos hm, Option.some_or, Option.some_or]
    · rw [if_neg hm, if_neg hm, Option.none_or]
      exact ih

/-- `d.setdefault(key, value)` for every member of `e`. -/
def setDefaults (d e : Payload) : Payload :=
  d ++ e.filter fun m ↦ (Json.get? m.1 d).isNone

theorem get?_setDefaults (key : Str) (d e : Payload) :
    Json.get? key (setDefaults d e) = (Json.get? key d).or (Json.get? key e) := by
  rw [setDefaults, Json.get?_append, Json.get?_filter_key fun k ↦ (Json.get? k d).isNone]
  cases hd : Json.get? key d <;> simp

/-- `d.pop(key, None)`, as far as what is left. -/
def pop (key : Str) (d : Payload) : Payload := d.filter fun m ↦ m.1 ≠ key

/-- What `structlog` does with an event that is not given a stack or an exception, at a fixed
time. -/
def quietStructlog : Structlog where
  eventDict bound call := setItem "event".toList (.str call.event) (update bound call.fields)
  mergeContextvars context _ d := setDefaults d context
  addLogLevel methodName d := setItem "level".toList (.str methodName) d
  timeStamper _ d := setItem "timestamp".toList (.str "2026-01-01T00:00:00Z".toList) d
  stackInfoRenderer _ d := pop "stack_info".toList d
  formatExcInfo _ d := pop "exc_info".toList d
  jsonRenderer d := (Json.obj d).render

theorem setItem_only (key : Str) (value : Str → Json) :
    Processor.Only [key] fun methodName d ↦ setItem key (value methodName) d := by
  intro methodName d k hk
  rw [get?_setItem, if_neg fun h ↦ hk (List.mem_singleton.mpr h.symm)]

theorem pop_only (key other : Str) : Processor.Only [key, other] fun _ d ↦ pop key d := by
  intro methodName d k hk
  have hne : k ≠ key := fun h ↦ hk (h ▸ List.mem_cons_self)
  show Json.get? k (d.filter fun m ↦ decide (m.1 ≠ key)) = _
  rw [Json.get?_filter_key fun k ↦ decide (k ≠ key), if_pos (decide_eq_true hne)]

theorem quietStructlog_documented : quietStructlog.Documented where
  eventDict bound call key := by
    show Json.get? key (setItem _ _ (update bound call.fields)) = _
    rw [get?_setItem, get?_update]
    simp only [eq_comm]
  mergeContextvars context _ d key := get?_setDefaults key d context
  addLogLevel := setItem_only "level".toList fun methodName ↦ .str methodName
  timeStamper := setItem_only "timestamp".toList fun _ ↦ .str "2026-01-01T00:00:00Z".toList
  stackInfoRenderer := pop_only "stack_info".toList "stack".toList
  formatExcInfo := pop_only "exc_info".toList "exception".toList
  jsonRenderer d := Json.loads_render (.obj d)

/-- A step of an agent, logged with an address bound to the context. -/
theorem span_line_agrees_with_store_step :
    let s := agentSpan "53995c3f42cd8ad8".toList none
    let context := [("user".toList, Json.str "a@b.c".toList)]
    ∃ shown stored,
      Json.loads (quietStructlog.renderEvent .ascii context [] (s.logCall plainText)) =
        some (.obj shown) ∧
      Json.loads (spanRow s).payload = some (.obj stored) ∧
      ∀ key value, Json.get? key (s.modelDump plainText) = some value →
        Json.get? key shown = some (maskField .ascii key value) ∧
        Json.get? key stored = some (maskField .ascii key value).sortKeys :=
  span_line_agrees_with_store .ascii quietStructlog_documented plainText _ _ []
    (spanRow_storedAs _)

end WiseTraceLoom
