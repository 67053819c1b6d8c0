import WiseTraceLoom.Instrumentation.Blocks

/-!
# What one block does

A block that is entered builds its span, binds the ids of the span, runs its body, and emits the
span after the body has ended.  `Block.run_error` and `Block.run_eq` say all there is to say: a
block whose span cannot be built raises at once; any other block relays the outcome of its body,
leaves the host's state to the body, has the old trace context back afterwards, and has emitted one
span.  What is proved about nests and programs of blocks uses these two, and does not look at the
three kinds of blocks again.
-/

set_option autoImplicit false

namespace WiseTraceLoom

variable {ε K σ α : Type}

/-! ## The parts of a block -/

/-- The fields every span has. -/
def Span.base : Span K → SpanBase
  | .agent s => s.toSpanBase
  | .tool s => s.toSpanBase
  | .llm s => s.toSpanBase

/-- What places a span in its trace. -/
structure SpanIdentity where
  /-- Its own id. -/
  spanId : Str
  /-- The id of the trace. -/
  traceId : Str
  /-- The id of the enclosing span. -/
  parentSpanId : Option Str
  deriving DecidableEq

/-- The identity of a span in memory. -/
def Span.identity (s : Span K) : SpanIdentity :=
  ⟨s.base.spanId, s.base.traceId, s.base.parentSpanId⟩

/-- What building the span of a block raises. -/
def Block.constructError : Block ε K → Option ε
  | .agent sdk a _ => a.constructError sdk
  | .tool sdk a _ => a.constructError sdk
  | .llm sdk _ _ => sdk.construct

/-- Can the block get the text of an exception, if it asks for it? -/
def Block.CanDescribe (exc : ε) : Block ε K → Prop
  | .tool sdk _ _ => ∃ message, sdk.str exc = .ok message
  | _ => True

/-- The outcome of a block whose body has ended like this. -/
def Block.relay (b : Block ε K) (r : Except (Raised ε) α) : Except (Raised ε) α :=
  match b, r with
  | .tool sdk _ _, .error raised =>
    match sdk.str raised.exc with
    | .ok _ => .error raised
    | .error exc => .error (.sdk exc)
  | _, r => r

theorem Block.relay_ok (b : Block ε K) (value : α) : b.relay (.ok value) = .ok value := by
  cases b <;> rfl

theorem Block.relay_error {b : Block ε K} {raised : Raised ε} (h : b.CanDescribe raised.exc) :
    b.relay (.error raised : Except (Raised ε) α) = .error raised := by
  cases b with
  | tool sdk a form =>
    obtain ⟨message, hmessage⟩ := h
    simp only [Block.relay, hmessage]
  | _ => rfl

/-- An exception of the host that comes out of a block has gone through it. -/
theorem Block.relay_eq_host {b : Block ε K} {r : Except (Raised ε) α} {exc : ε}
    (h : b.relay r = .error (.host exc)) : r = .error (.host exc) ∧ b.CanDescribe exc := by
  cases b with
  | tool sdk a form =>
    cases r with
    | ok value => simp [Block.relay] at h
    | error raised =>
      simp only [Block.relay] at h
      split at h
      · rename_i message hmessage
        obtain rfl := Except.error.inj h
        exact ⟨rfl, message, hmessage⟩
      · simp at h
  | _ => exact ⟨h, trivial⟩

theorem Block.relay_eq_ok {b : Block ε K} {r : Except (Raised ε) α} {value : α}
    (h : b.relay r = .ok value) : r = .ok value := by
  cases b with
  | tool sdk a form =>
    cases r with
    | ok value => exact h
    | error raised =>
      simp only [Block.relay] at h
      split at h <;> simp at h
  | _ => exact h

/-- What the host does to the span. -/
def Form.edit {S : Type} : Form S → S → S
  | .context edit => edit
  | .decorator => id

/-- The two forms differ in the edit only. -/
theorem Form.apply_eq {S : Type} (form : Form S)
    (block : (S → S) → Prog ε K σ α → Prog ε K σ α) (body : Prog ε K σ α) :
    form.apply block body = block form.edit body := by
  cases form <;> rfl

/-- What the SDK of a block does. -/
def Block.sdk : Block ε K → Sdk ε K
  | .agent sdk _ _ => sdk
  | .tool sdk _ _ => sdk
  | .llm sdk _ _ => sdk

/-- The namespace a block emits its span in. -/
def Block.ns : Block ε K → Option Str
  | .agent _ a _ => a.ns
  | .tool _ a _ => a.ns
  | .llm _ a _ => a.ns

/-! ## Steps of the SDK -/

/-- A swallowed exception changes the warnings only. -/
theorem logSwallowedException_keeps {β : Type} {f : Telemetry K → β}
    (hf : ∀ t s, f { t with swallowed := s } = f t) (sdk : Sdk ε K) (operation : Str) (exc : ε)
    (t : Telemetry K) : f ((logSwallowedException sdk operation exc).run t).2 = f t := by
  rw [logSwallowedException]
  cases sdk.str exc with
  | error e => rfl
  | ok message =>
    simp only
    cases sdk.warning ⟨operation, sdk.typeName exc, message⟩ with
    | error e => rfl
    | ok _ => exact hf t _

theorem failOpenContext_keeps {β : Type} {f : Telemetry K → β}
    (hf : ∀ t s, f { t with swallowed := s } = f t) (sdk : Sdk ε K) (operation : Str)
    (body : SdkM ε K Unit) (t : Telemetry K) :
    f ((failOpenContext sdk operation body).run t).2 = f (body.run.run t).2 := by
  rw [failOpenContext, StateT.run_bind]
  generalize body.run.run t = p
  obtain ⟨r, t'⟩ := p
  cases r with
  | ok _ => rfl
  | error exc => exact logSwallowedException_keeps hf sdk operation exc t'

/-- A step of the SDK raises, or it returns and the code goes on. -/
theorem SdkM.run_lift_bind {α β : Type} (x : Except ε α) (f : α → SdkM ε K β) (t : Telemetry K) :
    (liftM x >>= f : SdkM ε K β).run.run t =
      match x with
      | .error e => (.error e, t)
      | .ok a => (f a).run.run t := by
  cases x <;> rfl

theorem SdkM.run_modify_bind {β : Type} (g : Telemetry K → Telemetry K) (f : PUnit → SdkM ε K β)
    (t : Telemetry K) :
    (modify g >>= f : SdkM ε K β).run.run t = (f ⟨⟩).run.run (g t) := rfl

/-- Pricing a call records an amount, or warns. -/
theorem attributeCost_keeps {β : Type} {f : Telemetry K → β}
    (hf : ∀ t s, f { t with swallowed := s } = f t)
    (hspends : ∀ t s, f { t with spends := s } = f t) (sdk : Sdk ε K) (span : LLMSpan K)
    (t : Telemetry K) : f ((attributeCost sdk span).run t).2 = f t := by
  rw [attributeCost, StateT.run_bind]
  generalize hp : StateT.run (failOpenContext sdk "attribute_cost".toList _) t = p
  have hkeeps : f p.2 = f t := by
    rw [← hp, failOpenContext_keeps hf, SdkM.run_lift_bind]
    split
    · rfl
    · split
      · rename_i cost tenantId _ _
        rw [SdkM.run_lift_bind]
        cases sdk.recordSpend tenantId cost with
        | error e => rfl
        | ok _ =>
          simp only [SdkM.run_modify_bind]
          cases sdk.checkSpendAnomaly tenantId <;> exact hspends t _
      · rfl
  rw [← hkeeps]
  obtain ⟨-, t'⟩ := p
  change f (StateT.run (_ : StateM (Telemetry K) (LLMSpan K)) t').2 = f t'
  split <;> rfl

/-! ## One block -/

/-- A span that cannot be built ends the block before its body is run. -/
theorem spanBlock_error {S : Type} {sdk : Sdk ε K} {error : Option ε} {span : TraceContext → S}
    {edit : S → S} {finish : S → Except (Raised ε) α → StateM (Telemetry K) (Except (Raised ε) α)}
    {body : Prog ε K σ α} {w : World K σ} {exc : ε} (h : error = some exc) :
    spanBlock sdk error span edit finish body w = (.error (.sdk exc), w) := by
  subst h
  rfl

/-- **A block whose span cannot be built** raises, and its body is not run. -/
theorem Block.run_error {b : Block ε K} {exc : ε} (h : b.constructError = some exc)
    (body : Prog ε K σ α) (w : World K σ) : b.run body w = (.error (.sdk exc), w) := by
  cases b with
  | agent sdk a form =>
    rw [Block.run, Form.apply_eq]
    exact spanBlock_error h
  | tool sdk a form =>
    rw [Block.run, Form.apply_eq]
    exact spanBlock_error h
  | llm sdk a form =>
    rw [Block.run, Form.apply_eq]
    exact spanBlock_error h

/-- A block that is entered, and the trace context that was bound before. -/
structure Entered (ε K : Type) where
  /-- The block. -/
  block : Block ε K
  /-- The trace context around it. -/
  context : TraceContext

/-- The ids of the span of the block. -/
def Entered.identity (e : Entered ε K) : SpanIdentity :=
  ⟨e.block.sdk.newSpanId, currentTraceId e.block.sdk e.context, e.context.spanId⟩

/-- The trace context inside the block. -/
def Entered.inner (e : Entered ε K) : TraceContext :=
  ⟨some (currentTraceId e.block.sdk e.context), some e.block.sdk.newSpanId, none⟩

/-- The host does not change the ids of the span. -/
def Block.KeepsIdentity : Block ε K → Prop
  | .agent _ _ form =>
    ∀ s, (Span.agent (form.edit s) : Span K).identity = (Span.agent s : Span K).identity
  | .tool _ _ form =>
    ∀ s, (Span.tool (form.edit s) : Span K).identity = (Span.tool s : Span K).identity
  | .llm _ _ form => ∀ s, (Span.llm (form.edit s)).identity = (Span.llm s).identity

/-- Nothing was logged, exported or handed to the writer thread in between. -/
structure Telemetry.SameSpans (t t' : Telemetry K) : Prop where
  logged : t'.logged = t.logged
  exported : t'.exported = t.exported
  queued : t'.queued = t.queued

/-- **A block emits its span once**: after its body has ended, and before that its call may be
priced. -/
inductive Entered.Emits (e : Entered ε K) (t : Telemetry K) : Telemetry K → Prop
  | emit (span : Span K) (priced : Telemetry K) (hpriced : t.SameSpans priced)
      (hspan : e.block.KeepsIdentity → span.identity = e.identity) :
      e.Emits t ((emitSpan e.block.sdk span e.block.ns).run priced).2

/-- A block whose `finish` emits its span. -/
theorem spanBlock_entered {S : Type} {e : Entered ε K} {error : Option ε}
    {span : TraceContext → S} {edit : S → S}
    {finish : S → Except (Raised ε) α → StateM (Telemetry K) (Except (Raised ε) α)}
    {body : Prog ε K σ α} {w : World K σ} (h : error = none) (hw : w.context = e.context)
    (relay : Except (Raised ε) α → Except (Raised ε) α)
    (hfinish : ∀ r t, ((finish (edit (span e.context)) r).run t).1 = relay r ∧
      e.Emits t ((finish (edit (span e.context)) r).run t).2) :
    let inner := body { w with context := e.inner }
    ∃ t, e.Emits inner.2.telemetry t ∧
      spanBlock e.block.sdk error span edit finish body w =
        (relay inner.1, ⟨inner.2.host, w.context, t⟩) := by
  obtain ⟨host, context, telemetry⟩ := w
  obtain rfl : context = e.context := hw
  subst h
  intro inner
  obtain ⟨hrelay, hemits⟩ := hfinish inner.1 inner.2.telemetry
  refine ⟨_, hemits, ?_⟩
  rw [← hrelay]
  rfl

/-- The span keeps its ids while its call is priced. -/
theorem attributeCost_identity (sdk : Sdk ε K) (span : LLMSpan K) (t : Telemetry K) :
    (Span.llm ((attributeCost sdk span).run t).1).identity = (Span.llm span).identity := by
  rw [attributeCost, StateT.run_bind]
  generalize StateT.run (failOpenContext sdk "attribute_cost".toList _) t = p
  obtain ⟨-, t'⟩ := p
  change (Span.llm (StateT.run (_ : StateM (Telemetry K) (LLMSpan K)) t').1).identity = _
  split <;> rfl

/-- **What a block does**: its body runs in its context, the old context is back afterwards, and
its span is emitted. -/
theorem Block.run_eq {b : Block ε K} (h : b.constructError = none) (body : Prog ε K σ α)
    (w : World K σ) :
    let e : Entered ε K := ⟨b, w.context⟩
    let inner := body { w with context := e.inner }
    ∃ t, e.Emits inner.2.telemetry t ∧
      b.run body w = (b.relay inner.1, ⟨inner.2.host, w.context, t⟩) := by
  intro e
  cases b with
  | agent sdk a form =>
    rw [Block.run, Form.apply_eq, agentStep]
    refine spanBlock_entered (e := e) h rfl _ fun r t ↦ ⟨rfl, ?_⟩
    exact .emit _ t ⟨rfl, rfl, rfl⟩ fun hids ↦ hids _
  | tool sdk a form =>
    rw [Block.run, Form.apply_eq, toolCall]
    refine spanBlock_entered (e := e) h rfl _ fun r t ↦ ?_
    cases r with
    | ok value => exact ⟨rfl, .emit _ t ⟨rfl, rfl, rfl⟩ fun hids ↦ hids _⟩
    | error raised =>
      simp only [Block.relay]
      cases sdk.str raised.exc with
      | ok message => exact ⟨rfl, .emit _ t ⟨rfl, rfl, rfl⟩ fun hids ↦ hids _⟩
      | error exc => exact ⟨rfl, .emit _ t ⟨rfl, rfl, rfl⟩ fun hids ↦ hids _⟩
  | llm sdk a form =>
    rw [Block.run, Form.apply_eq, llmCall]
    refine spanBlock_entered (e := e) h rfl _ fun r t ↦ ⟨rfl, ?_⟩
    refine .emit _ _ ⟨?_, ?_, ?_⟩ fun hids ↦ ?_
    · exact attributeCost_keeps (fun _ _ ↦ rfl) (fun _ _ ↦ rfl) sdk _ t
    · exact attributeCost_keeps (fun _ _ ↦ rfl) (fun _ _ ↦ rfl) sdk _ t
    · exact attributeCost_keeps (fun _ _ ↦ rfl) (fun _ _ ↦ rfl) sdk _ t
    · exact (attributeCost_identity sdk _ t).trans (hids _)

end WiseTraceLoom
