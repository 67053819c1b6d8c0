import WiseTraceLoom.Instrumentation.Program

/-!
# Relaying a trace context

A trace context crosses a process boundary in two headers.  `extractTraceparent` reads the ids and
the sampled flag out of an inbound header, `boundTraceContext` binds the ids and the tracestate, and
`injectTraceparent` writes what is bound into outbound headers.

What comes out is what came in for the trace id only.  The flag is not bound, and is always written
as sampled; and every block on the way binds the trace context anew, without the tracestate.
`relay_iff` says when a relay is faithful nevertheless.
-/

set_option autoImplicit false

namespace WiseTraceLoom

variable {ε K σ α : Type}

/-! ## Headers -/

/-- The headers of a request, by their names. -/
abbrev Headers := List (Str × Str)

/-- `headers.get(name)`. -/
def Headers.get? (h : Headers) (name : Str) : Option Str :=
  (h.find? fun entry ↦ entry.1 = name).map Prod.snd

/-- `headers[name] = value`. -/
def Headers.set (name value : Str) : Headers → Headers
  | [] => [(name, value)]
  | entry :: h => if entry.1 = name then (name, value) :: h else entry :: Headers.set name value h

theorem Headers.get?_set (name value other : Str) (h : Headers) :
    (h.set name value).get? other = if other = name then some value else h.get? other := by
  induction h with
  | nil =>
    by_cases hother : other = name
    · simp [Headers.set, Headers.get?, hother]
    · simp [Headers.set, Headers.get?, hother, Ne.symm hother]
  | cons entry h ih =>
    rw [Headers.set]
    by_cases hname : entry.1 = name
    · rw [if_pos hname]
      by_cases hother : other = name
      · simp [Headers.get?, hother]
      · simp [Headers.get?, hname, hother, Ne.symm hother]
    · rw [if_neg hname]
      by_cases hentry : entry.1 = other
      · have hother : other ≠ name := hentry ▸ hname
        simp [Headers.get?, hentry, hother]
      · simpa [Headers.get?, hentry] using ih

/-- `TRACEPARENT_HEADER`. -/
def traceparentHeader : Str := "traceparent".toList

/-- `TRACESTATE_HEADER`. -/
def tracestateHeader : Str := "tracestate".toList

/-! ## The traceparent header -/

/-- `format_traceparent`. -/
def formatTraceparent (traceId spanId : Str) (sampled : Bool) : Str :=
  "00-".toList ++ traceId ++ '-' :: spanId ++ '-' :: if sampled then "01".toList else "00".toList

/-- `[0-9a-f]{n}`: the characters, and the rest of the text. -/
def hexField (n : ℕ) (s : Str) : Option (Str × Str) :=
  if n ≤ s.length ∧ (s.take n).all isLowerHex then some (s.take n, s.drop n) else none

/-- `-`: the rest of the text. -/
def dash : Str → Option Str
  | '-' :: rest => some rest
  | _ => none

/-- `$`: the end of the text, or of its last line. -/
def atEnd (s : Str) : Option Unit := if s = [] ∨ s = ['\n'] then some () else none

/-- The groups of `_TRACEPARENT_RE`. -/
structure TraceparentMatch where
  version : Str
  traceId : Str
  spanId : Str
  flags : Str

/-- `_TRACEPARENT_RE.match`. -/
def matchTraceparent (s : Str) : Option TraceparentMatch := do
  let (version, s) ← hexField 2 s
  let s ← dash s
  let (traceId, s) ← hexField 32 s
  let s ← dash s
  let (spanId, s) ← hexField 16 s
  let s ← dash s
  let (flags, s) ← hexField 2 s
  atEnd s
  some ⟨version, traceId, spanId, flags⟩

/-- The value of a hexadecimal digit. -/
def hexDigit (c : Char) : ℕ := "0123456789abcdef".toList.idxOf c

/-- `int(s, 16)`. -/
def hexValue (s : Str) : ℕ := s.foldl (fun n c ↦ 16 * n + hexDigit c) 0

/-- The trace id that is not allowed. -/
def zeroTraceId : Str := List.replicate 32 '0'

/-- The span id that is not allowed. -/
def zeroSpanId : Str := List.replicate 16 '0'

/-- `parse_traceparent`. -/
def parseTraceparent (header : Str) : Option (Str × Str × Bool) :=
  match matchTraceparent (Text.strip header) with
  | none => none
  | some m =>
    if m.traceId = zeroTraceId ∨ m.spanId = zeroSpanId then none
    else some (m.traceId, m.spanId, (hexValue m.flags).testBit 0)

/-- `extract_traceparent`. -/
def extractTraceparent (h : Headers) : Option (Str × Str × Bool) :=
  match h.get? traceparentHeader with
  | none => none
  | some header => parseTraceparent header

/-- `inject_traceparent`. -/
def injectTraceparent (h : Headers) (context : TraceContext) : Headers :=
  match context.traceId, context.spanId with
  | some traceId, some spanId =>
    let result := h.set traceparentHeader (formatTraceparent traceId spanId true)
    match context.tracestate with
    | some (c :: cs) => result.set tracestateHeader (c :: cs)
    | _ => result
  | _, _ => h

/-! ### What is read and written -/

/-- An id of this length in lowercase hexadecimal digits. -/
def IsHexId (n : ℕ) (s : Str) : Prop := s.length = n ∧ ∀ c ∈ s, isLowerHex c = true

instance (n : ℕ) (s : Str) : Decidable (IsHexId n s) := inferInstanceAs (Decidable (_ ∧ _))

theorem hexField_append {n : ℕ} {s : Str} (hs : IsHexId n s) (rest : Str) :
    hexField n (s ++ rest) = some (s, rest) := by
  have hall : ((s ++ rest).take n).all isLowerHex = true := by
    rw [List.take_left' hs.1]
    exact List.all_eq_true.mpr hs.2
  rw [hexField, if_pos ⟨by simp [hs.1], hall⟩, List.take_left' hs.1, List.drop_left' hs.1]

theorem hexField_eq_some {n : ℕ} {s field rest : Str} (h : hexField n s = some (field, rest)) :
    IsHexId n field ∧ s = field ++ rest := by
  rw [hexField] at h
  split_ifs at h with hs
  obtain ⟨rfl, rfl⟩ := Prod.mk.inj (Option.some.inj h)
  refine ⟨⟨by simp [hs.1], List.all_eq_true.mp hs.2⟩, (List.take_append_drop n s).symm⟩

theorem isSpace_of_isLowerHex {c : Char} (hc : isLowerHex c = true) : Text.isSpace c = false :=
  lowerHex_cases (P := fun c ↦ Text.isSpace c = false) (by decide) hc

/-- There is no white space in a header of this form. -/
theorem strip_fields {version traceId spanId flags : Str} (hv : IsHexId 2 version)
    (ht : IsHexId 32 traceId) (hs : IsHexId 16 spanId) (hf : IsHexId 2 flags) :
    Text.strip (version ++ '-' :: (traceId ++ '-' :: (spanId ++ '-' :: flags))) =
      version ++ '-' :: (traceId ++ '-' :: (spanId ++ '-' :: flags)) := by
  have hspace {n : ℕ} {s : Str} (h : IsHexId n s) : ∀ c ∈ s, Text.isSpace c = false :=
    fun c hc ↦ isSpace_of_isLowerHex (h.2 c hc)
  have hdash : Text.isSpace '-' = false := by decide
  refine Text.strip_of_not_isSpace ?_
  simp only [List.forall_mem_append, List.forall_mem_cons]
  exact ⟨hspace hv, hdash, hspace ht, hdash, hspace hs, hdash, hspace hf⟩

/-- What a header of this form is matched as. -/
theorem matchTraceparent_fields {version traceId spanId flags : Str} (hv : IsHexId 2 version)
    (ht : IsHexId 32 traceId) (hs : IsHexId 16 spanId) (hf : IsHexId 2 flags) :
    matchTraceparent (version ++ '-' :: (traceId ++ '-' :: (spanId ++ '-' :: flags))) =
      some ⟨version, traceId, spanId, flags⟩ := by
  have hflags : hexField 2 flags = some (flags, []) := by
    simpa using hexField_append hf []
  simp only [matchTraceparent, hexField_append hv, hexField_append ht, hexField_append hs, hflags,
    dash, atEnd, bind, Option.bind]
  rfl

/-- **What was written is read back**, if the ids are none of the two that are not allowed. -/
theorem parseTraceparent_format {traceId spanId : Str} (ht : IsHexId 32 traceId)
    (hs : IsHexId 16 spanId) (sampled : Bool) :
    parseTraceparent (formatTraceparent traceId spanId sampled) =
      if traceId = zeroTraceId ∨ spanId = zeroSpanId then none
      else some (traceId, spanId, sampled) := by
  let flags : Str := if sampled then "01".toList else "00".toList
  have hflags : IsHexId 2 flags ∧ (hexValue flags).testBit 0 = sampled := by
    cases sampled <;> decide
  have hversion : IsHexId 2 "00".toList := by decide
  have hmatch := matchTraceparent_fields hversion ht hs hflags.1
  have hformat : formatTraceparent traceId spanId sampled =
      "00".toList ++ '-' :: (traceId ++ '-' :: (spanId ++ '-' :: flags)) := by
    simp [formatTraceparent, flags]
  rw [parseTraceparent, hformat, strip_fields hversion ht hs hflags.1, hmatch]
  simp only [hflags.2]

/-- **What is read is well formed.** -/
theorem parseTraceparent_eq_some {header traceId spanId : Str} {sampled : Bool}
    (h : parseTraceparent header = some (traceId, spanId, sampled)) :
    (IsHexId 32 traceId ∧ traceId ≠ zeroTraceId) ∧ IsHexId 16 spanId ∧ spanId ≠ zeroSpanId := by
  rw [parseTraceparent] at h
  cases hm : matchTraceparent (Text.strip header) with
  | none => simp [hm] at h
  | some m =>
    rw [hm] at h
    dsimp only at h
    split_ifs at h with hzero
    rw [not_or] at hzero
    simp only [Option.some.injEq, Prod.mk.injEq] at h
    obtain ⟨rfl, rfl, -⟩ := h
    simp only [matchTraceparent, Option.bind_eq_bind, Option.bind_eq_some_iff] at hm
    obtain ⟨⟨version, s₁⟩, -, s₂, -, ⟨traceId, s₃⟩, htrace, s₄, -, ⟨spanId, s₅⟩, hspan, s₆, -,
      ⟨flags, s₇⟩, -, -, -, hm⟩ := hm
    obtain rfl := Option.some.inj hm
    exact ⟨⟨(hexField_eq_some htrace).1, hzero.1⟩, (hexField_eq_some hspan).1, hzero.2⟩

/-- What is injected is read back. -/
theorem extractTraceparent_inject {traceId spanId : Str} (ht : IsHexId 32 traceId)
    (hs : IsHexId 16 spanId) (tracestate : Option Str) (h : Headers) :
    extractTraceparent (injectTraceparent h ⟨some traceId, some spanId, tracestate⟩) =
      if traceId = zeroTraceId ∨ spanId = zeroSpanId then none
      else some (traceId, spanId, true) := by
  have hne : traceparentHeader ≠ tracestateHeader := by decide
  have hheader : (injectTraceparent h ⟨some traceId, some spanId, tracestate⟩).get?
      traceparentHeader = some (formatTraceparent traceId spanId true) := by
    rw [injectTraceparent]
    dsimp only
    split
    · rw [Headers.get?_set, if_neg hne, Headers.get?_set, if_pos rfl]
    · rw [Headers.get?_set, if_pos rfl]
  rw [extractTraceparent, hheader]
  exact parseTraceparent_format ht hs true

/-- The tracestate is written if it is bound and not empty. -/
theorem get?_tracestate_inject (traceId spanId : Str) (tracestate : Option Str) (h : Headers) :
    (injectTraceparent h ⟨some traceId, some spanId, tracestate⟩).get? tracestateHeader =
      match tracestate with
      | some (c :: cs) => some (c :: cs)
      | _ => h.get? tracestateHeader := by
  have hne : tracestateHeader ≠ traceparentHeader := by decide
  rw [injectTraceparent]
  dsimp only
  split
  · rw [Headers.get?_set, if_pos rfl]
  · rw [Headers.get?_set, if_neg hne]

/-! ## Relaying -/

/-- A call of `inject_traceparent`. -/
def injectBody (h : Headers) : Prog ε K σ Headers := fun w ↦
  (.ok (injectTraceparent h w.context), w)

/-- The trace context inside a nest of blocks. -/
def innerContext : List (Block ε K) → TraceContext → TraceContext
  | [], context => context
  | b :: blocks, context => innerContext blocks (Entered.inner ⟨b, context⟩)

/-- **What is injected inside a nest.** -/
theorem instrument_inject {blocks : List (Block ε K)}
    (hblocks : ∀ b ∈ blocks, b.constructError = none) (h : Headers) (w : World K σ) :
    (instrument blocks (injectBody h) w).1 =
      .ok (injectTraceparent h (innerContext blocks w.context)) := by
  induction blocks generalizing w with
  | nil => rfl
  | cons b blocks ih =>
    rw [List.forall_mem_cons] at hblocks
    have hrun : instrument (b :: blocks) (injectBody h) w =
      b.run (instrument blocks (injectBody h)) w := rfl
    obtain ⟨t, -, heq⟩ := Block.run_eq hblocks.1 (instrument blocks (injectBody h)) w
    rw [hrun, heq, ih hblocks.2, Block.relay_ok]
    rfl

/-- In a nest the trace id stays bound, the span id is that of the innermost block, and the
tracestate is not bound. -/
theorem innerContext_eq {traceId : Str} (hne : traceId ≠ []) (blocks : List (Block ε K))
    (spanId : Str) (tracestate : Option Str) :
    innerContext blocks ⟨some traceId, some spanId, tracestate⟩ =
      match blocks.getLast? with
      | none => ⟨some traceId, some spanId, tracestate⟩
      | some b => ⟨some traceId, some b.spanId, none⟩ := by
  obtain ⟨c, cs, rfl⟩ := List.exists_cons_of_ne_nil hne
  induction blocks generalizing spanId tracestate with
  | nil => rfl
  | cons b blocks ih =>
    have hinner : Entered.inner ⟨b, ⟨some (c :: cs), some spanId, tracestate⟩⟩ =
      ⟨some (c :: cs), some b.spanId, none⟩ := rfl
    rw [innerContext, hinner, ih]
    cases blocks with
    | nil => rfl
    | cons b' blocks => rw [List.getLast?_cons_cons, List.getLast?_cons]

/-- A call of `inject_traceparent` in a nest of blocks, inside the context of an inbound request. -/
def relay (traceId spanId : Str) (tracestate : Option Str) (blocks : List (Block ε K))
    (outbound : Headers) : Prog ε K σ Headers :=
  boundTraceContext traceId spanId tracestate (instrument blocks (injectBody outbound))

/-- The outbound headers carry on the trace of the inbound ones. -/
def Headers.Carries (h : Headers) (traceId : Str) (sampled : Bool) (tracestate : Option Str) :
    Prop :=
  (∃ spanId, extractTraceparent h = some (traceId, spanId, sampled)) ∧
    ∀ v, tracestate = some v → v ≠ [] → h.get? tracestateHeader = some v

theorem relay_eq {blocks : List (Block ε K)} (hblocks : ∀ b ∈ blocks, b.constructError = none)
    {traceId : Str} (hne : traceId ≠ []) (spanId : Str) (tracestate : Option Str)
    (outbound : Headers) (w : World K σ) :
    (relay traceId spanId tracestate blocks outbound w).1 =
      .ok (injectTraceparent outbound
        (match blocks.getLast? with
          | none => ⟨some traceId, some spanId, tracestate⟩
          | some b => ⟨some traceId, some b.spanId, none⟩)) := by
  rw [← innerContext_eq hne]
  exact instrument_inject hblocks outbound { w with context := ⟨_, _, _⟩ }

/-- **A relay is faithful** exactly if the context is sampled, the span id of the innermost block is
not the one that is not allowed, and a tracestate does not have to pass a block, unless the outbound
headers have it already. -/
theorem relay_iff {inbound : Headers} {traceId spanId : Str} {sampled : Bool}
    (hinbound : extractTraceparent inbound = some (traceId, spanId, sampled))
    (tracestate : Option Str) {blocks : List (Block ε K)}
    (hblocks : ∀ b ∈ blocks, b.constructError = none) (hids : ∀ b ∈ blocks, IsHexId 16 b.spanId)
    (outbound : Headers) (w : World K σ) :
    (∃ h, (relay traceId spanId tracestate blocks outbound w).1 = .ok h ∧
      h.Carries traceId sampled tracestate) ↔
      sampled = true ∧ (∀ b ∈ blocks.getLast?, b.spanId ≠ zeroSpanId) ∧
        ∀ v, tracestate = some v → v ≠ [] → blocks ≠ [] →
          outbound.get? tracestateHeader = some v := by
  obtain ⟨⟨ht, htne⟩, hs, hsne⟩ : (IsHexId 32 traceId ∧ traceId ≠ zeroTraceId) ∧
      IsHexId 16 spanId ∧ spanId ≠ zeroSpanId := by
    rw [extractTraceparent] at hinbound
    split at hinbound
    · cases hinbound
    · exact parseTraceparent_eq_some hinbound
  have hne : traceId ≠ [] := by
    rintro rfl
    exact absurd ht.1 (by decide)
  rw [relay_eq hblocks hne]
  simp only [Except.ok.injEq, exists_eq_left', Headers.Carries]
  cases hlast : blocks.getLast? with
  | none =>
    obtain rfl := List.getLast?_eq_none_iff.mp hlast
    rw [extractTraceparent_inject ht hs, get?_tracestate_inject,
      if_neg (not_or.mpr ⟨htne, hsne⟩)]
    constructor
    · rintro ⟨⟨_, hsame⟩, -⟩
      simp only [Option.some.injEq, Prod.mk.injEq] at hsame
      exact ⟨hsame.2.2.symm, nofun, fun _ _ _ h ↦ absurd rfl h⟩
    · rintro ⟨rfl, -, -⟩
      refine ⟨⟨spanId, rfl⟩, ?_⟩
      rintro v rfl hv
      obtain ⟨c, cs, rfl⟩ := List.exists_cons_of_ne_nil hv
      rfl
  | some b =>
    have hb : b ∈ blocks := List.mem_of_getLast? hlast
    have hblocks : blocks ≠ [] := List.ne_nil_of_mem hb
    rw [extractTraceparent_inject ht (hids b hb), get?_tracestate_inject]
    constructor
    · rintro ⟨⟨_, hsame⟩, hstate⟩
      split_ifs at hsame with hzero
      simp only [Option.some.injEq, Prod.mk.injEq] at hsame
      refine ⟨hsame.2.2.symm, ?_, fun v hv hne _ ↦ hstate v hv hne⟩
      rintro _ ⟨⟩
      exact (not_or.mp hzero).2
    · rintro ⟨rfl, hspan, hstate⟩
      rw [if_neg (not_or.mpr ⟨htne, hspan b rfl⟩)]
      exact ⟨⟨b.spanId, rfl⟩, fun v hv hne ↦ hstate v hv hne hblocks⟩

/-! ### Three relays -/

/-- An inbound request. -/
def inboundHeaders (flags : String) : Headers :=
  [(traceparentHeader,
    "00-0af7651916cd43dd8448eb211c80319c-b7ad6b7169203331-".toList ++ flags.toList)]

/-- The trace of the request. -/
def inboundTrace : Str := "0af7651916cd43dd8448eb211c80319c".toList

/-- The span of the caller. -/
def inboundSpan : Str := "b7ad6b7169203331".toList

/-- A sampled context is relayed through a block. -/
theorem sampled_relay : ∃ h, (relay inboundTrace inboundSpan none [plannerStep 'a'] [] unbound).1 =
    .ok h ∧ h.Carries inboundTrace true none := by
  have hinbound : extractTraceparent (inboundHeaders "01") =
    some (inboundTrace, inboundSpan, true) := by decide +kernel
  refine (relay_iff hinbound none ?_ ?_ [] unbound).mpr ⟨rfl, ?_, nofun⟩
  · exact List.forall_mem_singleton.mpr rfl
  · exact List.forall_mem_singleton.mpr (by decide)
  · rintro _ ⟨⟩
    decide

/-- **A context that is not sampled is sampled afterwards**, and a tracestate is lost in a block. -/
theorem relay_fails :
    (extractTraceparent (inboundHeaders "00") = some (inboundTrace, inboundSpan, false) ∧
      ∃ h, (relay inboundTrace inboundSpan none ([] : List (Block Str ℕ)) [] unbound).1 = .ok h ∧
        extractTraceparent h = some (inboundTrace, inboundSpan, true)) ∧
    (extractTraceparent (inboundHeaders "01") = some (inboundTrace, inboundSpan, true) ∧
      ∃ h, (relay inboundTrace inboundSpan (some "vendor=1".toList) [plannerStep 'a'] []
          unbound).1 = .ok h ∧ h.get? tracestateHeader = none) := by
  refine ⟨⟨by decide +kernel, _, rfl, by decide +kernel⟩, by decide +kernel, _, rfl, ?_⟩
  decide +kernel

end WiseTraceLoom
