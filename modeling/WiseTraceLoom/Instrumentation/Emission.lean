import WiseTraceLoom.Instrumentation.Entered

/-!
# What blocks hand to the writer thread

A block hands over one append at most, for the span it emits: nothing if the tenant or the namespace
of the span is not a name, if the span cannot be dumped, or if the queue does not take it.
`instrument_queued` is the statement for a nest: whatever is in the queue afterwards was there
before, or was emitted by one of the blocks.
-/

set_option autoImplicit false

namespace WiseTraceLoom

variable {ε K σ α : Type}

/-! ## Emitting a span -/

/-- The stream a span is stored on. -/
def Span.streamId (span : Span K) (ns : Option Str) : Except TenancyError Str :=
  match span.tenantId with
  | some tenantId => isolatedStreamId "spans".toList tenantId ns
  | none => .ok "spans".toList

/-- The second half of `_emit_span` hands one append to the writer thread, or none. -/
theorem storeSpan_queued {sdk : Sdk ε K} {span : Span K} {streamId : Str} {t : Telemetry K}
    {queue : List QueuedAppend}
    (h : (ExceptT.run (do
      let payload ← sdk.storeDump span
      let append : QueuedAppend := ⟨streamId, span.eventName, payload, span.tenantId⟩
      sdk.enqueueAppend append
      modify fun t ↦ { t with queued := t.queued ++ [append] } : SdkM ε K Unit) |>.run t).2.queued =
        queue) :
    queue = t.queued ∨ ∃ payload, sdk.storeDump span = .ok payload ∧
      queue = t.queued ++ [⟨streamId, span.eventName, payload, span.tenantId⟩] := by
  rw [SdkM.run_lift_bind] at h
  cases hdump : sdk.storeDump span with
  | error e =>
    rw [hdump] at h
    exact Or.inl h.symm
  | ok payload =>
    rw [hdump] at h
    simp only [SdkM.run_lift_bind] at h
    cases henqueue : sdk.enqueueAppend ⟨streamId, span.eventName, payload, span.tenantId⟩ with
    | error e =>
      rw [henqueue] at h
      exact Or.inl h.symm
    | ok _ =>
      rw [henqueue] at h
      exact Or.inr ⟨payload, rfl, h.symm⟩

/-- **What `_emit_span` hands to the writer thread**: one append at most, to the stream of the
span. -/
theorem emitSpan_queued {sdk : Sdk ε K} {span : Span K} {ns : Option Str} {t : Telemetry K}
    {queue : List QueuedAppend} (h : ((emitSpan sdk span ns).run t).2.queued = queue) :
    queue = t.queued ∨ ∃ streamId payload, span.streamId ns = .ok streamId ∧
      sdk.storeDump span = .ok payload ∧
      queue = t.queued ++ [⟨streamId, span.eventName, payload, span.tenantId⟩] := by
  rw [emitSpan, StateT.run_bind] at h
  generalize hp : StateT.run (failOpenContext sdk ("emit_span:".toList ++ span.typeName) _) t = p
    at h
  have hlogged : p.2.queued = t.queued := by
    rw [← hp, failOpenContext_keeps (f := Telemetry.queued) fun _ _ ↦ rfl, SdkM.run_lift_bind]
    cases sdk.logDump span with
    | error e => rfl
    | ok payload =>
      simp only [SdkM.run_lift_bind]
      cases sdk.logInfo span.eventName payload with
      | error e => rfl
      | ok _ =>
        simp only [SdkM.run_modify_bind, SdkM.run_lift_bind]
        cases sdk.exportSpan span <;> rfl
  change (StateT.run (failOpenContext sdk ("store_span:".toList ++ span.typeName) _) p.2).2.queued
    = queue at h
  rw [failOpenContext_keeps (f := Telemetry.queued) fun _ _ ↦ rfl] at h
  rw [Span.streamId, ← hlogged]
  have hstore (streamId : Str) := @storeSpan_queued ε K sdk span streamId p.2 queue
  cases htenant : span.tenantId with
  | none =>
    rw [htenant] at hstore
    simp only [htenant] at h
    refine (hstore _ h).imp_right ?_
    rintro ⟨payload, hdump, hqueue⟩
    exact ⟨_, payload, rfl, hdump, hqueue⟩
  | some tenantId =>
    rw [htenant] at hstore
    simp only [htenant] at h
    rw [SdkM.run_lift_bind] at h
    cases hstream : isolatedStreamId "spans".toList tenantId ns with
    | error e =>
      rw [hstream] at h
      exact Or.inl h.symm
    | ok streamId =>
      rw [hstream] at h
      refine (hstore _ h).imp_right ?_
      rintro ⟨payload, hdump, hqueue⟩
      exact ⟨streamId, payload, hstream, hdump, hqueue⟩

/-! ## Blocks -/

/-- `q` is what emitting the span in this namespace hands to the writer thread. -/
def Span.Emits (sdk : Sdk ε K) (span : Span K) (ns : Option Str) (q : QueuedAppend) : Prop :=
  ∃ t : Telemetry K, ((emitSpan sdk span ns).run t).2.queued = t.queued ++ [q]

theorem Span.Emits.eq {sdk : Sdk ε K} {span : Span K} {ns : Option Str} {q : QueuedAppend}
    (h : span.Emits sdk ns q) : ∃ streamId payload, span.streamId ns = .ok streamId ∧
      sdk.storeDump span = .ok payload ∧
      q = ⟨streamId, span.eventName, payload, span.tenantId⟩ := by
  obtain ⟨t, ht⟩ := h
  rcases emitSpan_queued ht with hsame | ⟨streamId, payload, hstream, hdump, hqueue⟩
  · simp at hsame
  · exact ⟨streamId, payload, hstream, hdump, by simpa using hqueue⟩

/-- What is in the queue after a span was emitted. -/
theorem mem_queued_emitSpan {sdk : Sdk ε K} {span : Span K} {ns : Option Str} {t : Telemetry K}
    {q : QueuedAppend} (h : q ∈ ((emitSpan sdk span ns).run t).2.queued) :
    q ∈ t.queued ∨ span.Emits sdk ns q := by
  generalize hqueue : ((emitSpan sdk span ns).run t).2.queued = queue at h
  rcases emitSpan_queued hqueue with rfl | ⟨streamId, payload, -, -, hadd⟩
  · exact Or.inl h
  · rw [hadd, List.mem_append, List.mem_singleton] at h
    refine h.imp_right ?_
    rintro rfl
    exact ⟨t, hqueue.trans hadd⟩

/-- **What a nest of blocks hands over** is what its blocks emit. -/
theorem instrument_queued (blocks : List (Block ε K)) (body : σ → Except ε α × σ)
    (w : World K σ) {q : QueuedAppend}
    (h : q ∈ (instrument blocks (hostBody body) w).2.telemetry.queued) :
    q ∈ w.telemetry.queued ∨ ∃ b ∈ blocks, ∃ span, Span.Emits b.sdk span b.ns q := by
  induction blocks generalizing w with
  | nil => exact Or.inl h
  | cons b blocks ih =>
    have hrun : instrument (b :: blocks) (hostBody body) w =
      b.run (instrument blocks (hostBody body)) w := rfl
    rw [hrun] at h
    cases hb : b.constructError with
    | some exc =>
      rw [Block.run_error hb] at h
      exact Or.inl h
    | none =>
      obtain ⟨t, hemits, heq⟩ := Block.run_eq hb (instrument blocks (hostBody body)) w
      rw [heq] at h
      cases hemits with
      | emit span priced hpriced =>
        rcases mem_queued_emitSpan h with h | h
        · rw [hpriced.queued] at h
          exact (ih _ h).imp_right fun ⟨b', hb', hspan⟩ ↦
            ⟨b', List.mem_cons_of_mem b hb', hspan⟩
        · exact Or.inr ⟨b, List.mem_cons_self, span, h⟩

end WiseTraceLoom
