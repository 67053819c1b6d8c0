import WiseTraceLoom.Tenancy

/-!
# Instrumented blocks

`agentStep`, `toolCall` and `llmCall` are context managers: a span is built, its ids are bound while
the body of the block runs, and the span is emitted when the body has ended, in either way.

A program is a function of the world, which is made of what the host works on, the bound trace
context, and the telemetry.  What the SDK does on the way (validating and dumping a span, logging,
exporting, handing it to the writer thread, pricing it) is `Sdk`, which says for every single step
whether it raises.  These steps only reach the telemetry, so that what they can do to the host shows
in the types: return, or raise.

An exception remembers whose code has raised it (`Raised`).
-/

set_option autoImplicit false

namespace WiseTraceLoom

/-! ## Spans -/

/-- The fields of every span. -/
structure SpanBase where
  /-- The version of the schema. -/
  schemaVersion : Str
  /-- The id of the span. -/
  spanId : Str
  /-- The id of its trace. -/
  traceId : Str
  /-- The id of the enclosing span. -/
  parentSpanId : Option Str
  /-- The tenant. -/
  tenantId : Option Str
  /-- When the block was entered. -/
  startedAt : Datetime
  /-- When the block was left. -/
  endedAt : Option Datetime

/-- A step of an agent. -/
structure AgentSpan extends SpanBase where
  /-- The id of the agent. -/
  agentId : Str
  /-- The name of the agent. -/
  agentName : Str
  /-- What the step is about. -/
  description : Option Str
  /-- The conversation it belongs to. -/
  conversationId : Option Str
  /-- The kind of step. -/
  operationName : Str
  /-- The agent's own loop counter. -/
  loopIteration : ℤ

/-- A call of a tool. -/
structure ToolSpan extends SpanBase where
  /-- The name of the tool. -/
  toolName : Str
  /-- The id of the call. -/
  toolCallId : Option Str
  /-- The kind of tool. -/
  toolType : Str
  /-- What the call is about. -/
  description : Option Str
  /-- Did the block end without an exception? -/
  success : Option Bool
  /-- The text of the exception. -/
  errorMessage : Option Str

/-- A call of a language model. -/
structure LLMSpan (K : Type) extends SpanBase where
  /-- The provider. -/
  providerName : Str
  /-- The model that was asked for. -/
  requestModel : Str
  /-- The model that has answered. -/
  responseModel : Option Str
  /-- The kind of call. -/
  operationName : Str
  /-- The tokens of the prompt. -/
  inputTokens : Option ℤ
  /-- The tokens of the answer. -/
  outputTokens : Option ℤ
  /-- The tokens of its reasoning. -/
  reasoningTokens : Option ℤ
  /-- The tokens read from a cache. -/
  cacheReadInputTokens : Option ℤ
  /-- The tokens written to a cache. -/
  cacheCreationInputTokens : Option ℤ
  /-- Why the answer ended. -/
  finishReasons : List Str
  /-- The temperature. -/
  temperature : Option K
  /-- The limit on the tokens. -/
  maxTokens : Option ℤ
  /-- What the call has cost. -/
  estimatedCostUsd : Option K
  /-- The version of the prompt. -/
  promptVersionId : Option Str

/-- A span. -/
inductive Span (K : Type) where
  | agent (s : AgentSpan)
  | tool (s : ToolSpan)
  | llm (s : LLMSpan K)

/-- `_SPAN_EVENT_NAMES`. -/
def Span.eventName {K : Type} : Span K → Str
  | .agent _ => "agent_span".toList
  | .tool _ => "tool_span".toList
  | .llm _ => "llm_span".toList

/-- `type(span).__name__`. -/
def Span.typeName {K : Type} : Span K → Str
  | .agent _ => "AgentSpan".toList
  | .tool _ => "ToolSpan".toList
  | .llm _ => "LLMSpan".toList

/-- The tenant of a span. -/
def Span.tenantId {K : Type} : Span K → Option Str
  | .agent s => s.tenantId
  | .tool s => s.tenantId
  | .llm s => s.tenantId

/-- `SCHEMA_VERSION`. -/
def schemaVersion : Str := "1.0.0".toList

/-- The values `AgentSpan.operation_name` may have. -/
def agentOperations : List Str :=
  ["create_agent".toList, "invoke_agent".toList, "invoke_workflow".toList, "plan".toList]

/-- The values `ToolSpan.tool_type` may have. -/
def toolTypes : List Str := ["function".toList, "extension".toList]

/-! ## The world -/

/-- The bound trace context. -/
structure TraceContext where
  /-- `current_trace_id()`. -/
  traceId : Option Str
  /-- `current_span_id()`. -/
  spanId : Option Str
  /-- `current_tracestate()`. -/
  tracestate : Option Str
  deriving DecidableEq

/-- An append that was handed to the writer thread. -/
structure QueuedAppend where
  /-- The stream. -/
  streamId : Str
  /-- The kind of event. -/
  recordType : Str
  /-- The event. -/
  payload : Payload
  /-- The tenant. -/
  tenantId : Option Str

/-- A warning about an exception that was swallowed. -/
structure SwallowedException where
  /-- What was going on. -/
  operation : Str
  /-- The class of the exception. -/
  excType : Str
  /-- Its text. -/
  excMessage : Str

/-- Everything the SDK writes. -/
structure Telemetry (K : Type) where
  /-- The structured log: the events and their fields. -/
  logged : List (Str × Payload)
  /-- The spans that were exported. -/
  exported : List (Span K)
  /-- The appends that were handed to the writer thread. -/
  queued : List QueuedAppend
  /-- The amounts that were recorded, with their tenants. -/
  spends : List (Str × K)
  /-- The warnings about swallowed exceptions. -/
  swallowed : List SwallowedException

/-- What a program works on. -/
structure World (K σ : Type) where
  /-- What belongs to the host. -/
  host : σ
  /-- The trace context. -/
  context : TraceContext
  /-- The telemetry. -/
  telemetry : Telemetry K

/-- An exception, and whose code has raised it. -/
inductive Raised (ε : Type) where
  | host (exc : ε)
  | sdk (exc : ε)
  deriving DecidableEq

/-- The exception itself. -/
def Raised.exc {ε : Type} : Raised ε → ε
  | .host exc => exc
  | .sdk exc => exc

/-- A program of the host, with whatever is around it. -/
abbrev Prog (ε K σ α : Type) := World K σ → Except (Raised ε) α × World K σ

/-- Code of the SDK. -/
abbrev SdkM (ε K α : Type) := ExceptT ε (StateM (Telemetry K)) α

/-- What the SDK's own steps return or raise while one block is entered and left. -/
structure Sdk (ε K : Type) where
  /-- `generate_trace_id()`. -/
  newTraceId : Str
  /-- `generate_span_id()`. -/
  newSpanId : Str
  /-- What the clock shows when the block is entered. -/
  startedAt : Timestamp
  /-- What the clock shows when the block is left. -/
  endedAt : Timestamp
  /-- The `ValidationError` for a field and its value. -/
  validationError : Str → Str → ε
  /-- What building the span raises apart from that, if anything. -/
  construct : Option ε
  /-- `TenancyError`. -/
  tenancyError : TenancyError → ε
  /-- `str(exc)`. -/
  str : ε → Except ε Str
  /-- `type(exc).__name__`. -/
  typeName : ε → Str
  /-- `span.model_dump(mode="json")`, for the log. -/
  logDump : Span K → Except ε Payload
  /-- `get_logger("wisetraceloom.spans").info(event_name, **payload)`. -/
  logInfo : Str → Payload → Except ε Unit
  /-- `exporter(span)`. -/
  exportSpan : Span K → Except ε Unit
  /-- `span.model_dump(mode="json")`, for the store. -/
  storeDump : Span K → Except ε Payload
  /-- `enqueue_append`. -/
  enqueueAppend : QueuedAppend → Except ε Unit
  /-- `estimate_cost_usd`, with the fields of the span. -/
  estimateCostUsd : LLMSpan K → Except ε (Option K)
  /-- `record_spend`. -/
  recordSpend : Str → K → Except ε Unit
  /-- `check_spend_anomaly`. -/
  checkSpendAnomaly : Str → Except ε Unit
  /-- `get_logger("wisetraceloom.failsafe").warning(…)`. -/
  warning : SwallowedException → Except ε Unit

variable {ε K σ α : Type}

/-! ## Failing open -/

/-- `_log_swallowed_exception`. -/
def logSwallowedException (sdk : Sdk ε K) (operation : Str) (exc : ε) :
    StateM (Telemetry K) Unit := do
  match sdk.str exc with
  | .error _ => pure ()
  | .ok message =>
    let event : SwallowedException := ⟨operation, sdk.typeName exc, message⟩
    match sdk.warning event with
    | .error _ => pure ()
    | .ok () => modify fun t ↦ { t with swallowed := t.swallowed ++ [event] }

/-- `fail_open_context`. -/
def failOpenContext (sdk : Sdk ε K) (operation : Str) (body : SdkM ε K Unit) :
    StateM (Telemetry K) Unit := do
  match ← body.run with
  | .ok () => pure ()
  | .error exc => logSwallowedException sdk operation exc

/-! ## Emitting a span -/

/-- `_emit_span`. -/
def emitSpan (sdk : Sdk ε K) (span : Span K) (ns : Option Str) : StateM (Telemetry K) Unit := do
  failOpenContext sdk ("emit_span:".toList ++ span.typeName) do
    let payload ← sdk.logDump span
    sdk.logInfo span.eventName payload
    modify fun t ↦ { t with logged := t.logged ++ [(span.eventName, payload)] }
    sdk.exportSpan span
    modify fun t ↦ { t with exported := t.exported ++ [span] }
  failOpenContext sdk ("store_span:".toList ++ span.typeName) do
    let streamId ← match span.tenantId with
      | some tenantId => ((isolatedStreamId "spans".toList tenantId ns).mapError sdk.tenancyError)
      | none => pure "spans".toList
    let payload ← sdk.storeDump span
    let append : QueuedAppend := ⟨streamId, span.eventName, payload, span.tenantId⟩
    sdk.enqueueAppend append
    modify fun t ↦ { t with queued := t.queued ++ [append] }

/-- `_attribute_cost`, and the span after it. -/
def attributeCost (sdk : Sdk ε K) (span : LLMSpan K) : StateM (Telemetry K) (LLMSpan K) := do
  -- the assignment to the span stays even if a later step raises
  let estimate : Except ε (Option K) := match span.estimatedCostUsd with
    | some cost => .ok (some cost)
    | none => sdk.estimateCostUsd span
  failOpenContext sdk "attribute_cost".toList do
    let cost ← estimate
    match cost, span.tenantId with
    | some cost, some tenantId =>
      sdk.recordSpend tenantId cost
      modify fun t ↦ { t with spends := t.spends ++ [(tenantId, cost)] }
      sdk.checkSpendAnomaly tenantId
    | _, _ => pure ()
  match estimate with
  | .ok cost => pure { span with estimatedCostUsd := cost }
  | .error _ => pure span

/-! ## Blocks -/

/-- `current_trace_id() or generate_trace_id()`. -/
def currentTraceId (sdk : Sdk ε K) (context : TraceContext) : Str :=
  match context.traceId with
  | some (c :: cs) => c :: cs
  | _ => sdk.newTraceId

/-- `bound_trace_context`. -/
def boundTraceContext (traceId spanId : Str) (tracestate : Option Str) (body : Prog ε K σ α) :
    Prog ε K σ α := fun w ↦
  let (r, w') := body { w with context := ⟨some traceId, some spanId, tracestate⟩ }
  (r, { w' with context := w.context })

/-- The fields of a new span. -/
def newSpanBase (sdk : Sdk ε K) (context : TraceContext) (tenantId : Option Str) : SpanBase where
  schemaVersion := schemaVersion
  spanId := sdk.newSpanId
  traceId := currentTraceId sdk context
  parentSpanId := context.spanId
  tenantId := tenantId
  startedAt := utcnow sdk.startedAt
  endedAt := none

/-- What the three context managers have in common: the span is built, which may raise `error`, the
body runs with its ids bound, the host may edit the span, and `finish` gets the edited span and the
way the body has ended, and says how the block ends. -/
def spanBlock {S : Type} (sdk : Sdk ε K) (error : Option ε) (span : TraceContext → S)
    (edit : S → S) (finish : S → Except (Raised ε) α → StateM (Telemetry K) (Except (Raised ε) α))
    (body : Prog ε K σ α) : Prog ε K σ α := fun w ↦
  match error with
  | some exc => (.error (.sdk exc), w)
  | none =>
    boundTraceContext (currentTraceId sdk w.context) sdk.newSpanId none (fun w' ↦
      let (r, w'') := body w'
      let (r', telemetry) := (finish (edit (span w.context)) r).run w''.telemetry
      (r', { w'' with telemetry := telemetry })) w

/-- The arguments of `agent_step`. -/
structure AgentArgs where
  /-- The id of the agent. -/
  agentId : Str
  /-- The name of the agent. -/
  agentName : Str
  /-- The kind of step. -/
  operationName : Str := "invoke_agent".toList
  /-- The conversation it belongs to. -/
  conversationId : Option Str := none
  /-- The tenant. -/
  tenantId : Option Str := none
  /-- The namespace. -/
  ns : Option Str := none
  /-- What the step is about. -/
  description : Option Str := none
  /-- The agent's own loop counter. -/
  loopIteration : ℤ := 0

/-- The arguments of `tool_call`. -/
structure ToolArgs where
  /-- The name of the tool. -/
  toolName : Str
  /-- The kind of tool. -/
  toolType : Str := "function".toList
  /-- The id of the call. -/
  toolCallId : Option Str := none
  /-- The tenant. -/
  tenantId : Option Str := none
  /-- The namespace. -/
  ns : Option Str := none
  /-- What the call is about. -/
  description : Option Str := none

/-- The arguments of `llm_call`. -/
structure LLMArgs (K : Type) where
  /-- The provider. -/
  providerName : Str
  /-- The model that is asked for. -/
  requestModel : Str
  /-- The kind of call. -/
  operationName : Str := "chat".toList
  /-- The tenant. -/
  tenantId : Option Str := none
  /-- The namespace. -/
  ns : Option Str := none
  /-- The version of the prompt. -/
  promptVersionId : Option Str := none
  /-- The temperature. -/
  temperature : Option K := none
  /-- The limit on the tokens. -/
  maxTokens : Option ℤ := none

/-- What building a span raises whose `field` must have one of the values `allowed`. -/
def Sdk.constructError (sdk : Sdk ε K) (field : Str) (allowed : List Str) (value : Str) :
    Option ε :=
  if allowed.contains value then sdk.construct else some (sdk.validationError field value)

/-- What `AgentSpan(…)` raises. -/
def AgentArgs.constructError (sdk : Sdk ε K) (a : AgentArgs) : Option ε :=
  sdk.constructError "operation_name".toList agentOperations a.operationName

/-- What `ToolSpan(…)` raises. -/
def ToolArgs.constructError (sdk : Sdk ε K) (a : ToolArgs) : Option ε :=
  sdk.constructError "tool_type".toList toolTypes a.toolType

/-- `agent_step`. -/
def agentStep (sdk : Sdk ε K) (a : AgentArgs) (edit : AgentSpan → AgentSpan)
    (body : Prog ε K σ α) : Prog ε K σ α :=
  spanBlock sdk (a.constructError sdk)
    (fun context ↦
      { newSpanBase sdk context a.tenantId with
        agentId := a.agentId, agentName := a.agentName, description := a.description
        conversationId := a.conversationId, operationName := a.operationName
        loopIteration := a.loopIteration })
    edit
    (fun span r ↦ do
      emitSpan sdk (.agent { span with endedAt := some (utcnow sdk.endedAt) }) a.ns
      pure r)
    body

/-- `tool_call`. -/
def toolCall (sdk : Sdk ε K) (a : ToolArgs) (edit : ToolSpan → ToolSpan) (body : Prog ε K σ α) :
    Prog ε K σ α :=
  spanBlock sdk (a.constructError sdk)
    (fun context ↦
      { newSpanBase sdk context a.tenantId with
        toolName := a.toolName, toolCallId := a.toolCallId, toolType := a.toolType
        description := a.description, success := none, errorMessage := none })
    edit
    (fun span r ↦ do
      let emit (span : ToolSpan) :=
        emitSpan sdk (.tool { span with endedAt := some (utcnow sdk.endedAt) }) a.ns
      match r with
      | .ok value =>
        emit { span with success := span.success.or (some true) }
        pure (.ok value)
      | .error raised =>
        match sdk.str raised.exc with
        | .ok message =>
          emit { span with success := some false, errorMessage := some message }
          pure (.error raised)
        | .error exc =>
          emit { span with success := some false }
          pure (.error (.sdk exc)))
    body

/-- `llm_call`. -/
def llmCall (sdk : Sdk ε K) (a : LLMArgs K) (edit : LLMSpan K → LLMSpan K) (body : Prog ε K σ α) :
    Prog ε K σ α :=
  spanBlock sdk sdk.construct
    (fun context ↦
      { newSpanBase sdk context a.tenantId with
        providerName := a.providerName, requestModel := a.requestModel, responseModel := none
        operationName := a.operationName, inputTokens := none, outputTokens := none
        reasoningTokens := none, cacheReadInputTokens := none, cacheCreationInputTokens := none
        finishReasons := [], temperature := a.temperature, maxTokens := a.maxTokens
        estimatedCostUsd := none, promptVersionId := a.promptVersionId })
    edit
    (fun span r ↦ do
      let span ← attributeCost sdk { span with endedAt := some (utcnow sdk.endedAt) }
      emitSpan sdk (.llm span) a.ns
      pure r)
    body

/-- `_wrap`: a function that is called inside a block. -/
def wrap {β : Type} (block : Prog ε K σ α → Prog ε K σ α) (func : β → Prog ε K σ α) :
    β → Prog ε K σ α := fun x ↦ block (func x)

/-! ## Nests of blocks -/

/-- How a block is put around a body: as a `with` statement, in which the host may edit the span, or
as a decorator, in which it does not see it. -/
inductive Form (S : Type) where
  | context (edit : S → S)
  | decorator

/-- A block in one of the two forms. -/
def Form.apply {S : Type} (form : Form S) (block : (S → S) → Prog ε K σ α → Prog ε K σ α)
    (body : Prog ε K σ α) : Prog ε K σ α :=
  match form with
  | .context edit => block edit body
  | .decorator => wrap (block id) (fun _ : Unit ↦ body) ()

/-- One block of a nest. -/
inductive Block (ε K : Type) where
  | agent (sdk : Sdk ε K) (a : AgentArgs) (form : Form AgentSpan)
  | tool (sdk : Sdk ε K) (a : ToolArgs) (form : Form ToolSpan)
  | llm (sdk : Sdk ε K) (a : LLMArgs K) (form : Form (LLMSpan K))

/-- Running a body inside a block. -/
def Block.run (b : Block ε K) (body : Prog ε K σ α) : Prog ε K σ α :=
  match b with
  | .agent sdk a form => form.apply (agentStep sdk a) body
  | .tool sdk a form => form.apply (toolCall sdk a) body
  | .llm sdk a form => form.apply (llmCall sdk a) body

/-- Running a body inside a nest of blocks, the outermost one first. -/
def instrument (blocks : List (Block ε K)) (body : Prog ε K σ α) : Prog ε K σ α :=
  blocks.foldr Block.run body

/-- Code of the host, which knows nothing of the trace context and the telemetry. -/
def hostBody (body : σ → Except ε α × σ) : Prog ε K σ α := fun w ↦
  ((body w.host).1.mapError .host, { w with host := (body w.host).2 })

end WiseTraceLoom
