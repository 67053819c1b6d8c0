import Mathlib.Data.List.AList
import Mathlib.Data.Rat.Defs
import WiseTraceLoom.Instrumentation.Blocks

/-!
# Spans as OpenTelemetry spans

`exportAgentSpan`, `exportToolSpan` and `exportLlmSpan` start a span of the host's tracer, set its
attributes one by one, most of them only when they have a value, and end it; a call of a model is
measured as well.  What is built here is the span those calls describe; whether the tracer keeps it
is a matter of the host.

The names of the attributes are constants of the semantic conventions (`Semconv`), which are another
package.  All that matters about them is that no two are the same.

* `OtelSpan.recover` — what can be read off an exported span.
* `Span.view` — what of a span is meant to be there: an empty text counts as missing, and of the
  outcome of a tool only a failure is shown, with its text.
* `exports_recovered` — after any number of calls exactly the spans of tenants that are opted in are
  there, each with its whole view, and the tokens that were measured are the tokens of those spans.
-/

set_option autoImplicit false

namespace WiseTraceLoom

/-! ## Names of attributes -/

/-- The constants of `gen_ai_attributes` that are used. -/
inductive GenAi where
  | operationName
  | agentId
  | agentName
  | agentDescription
  | conversationId
  | toolName
  | toolType
  | toolCallId
  | toolDescription
  | providerName
  | requestModel
  | responseModel
  | usageInputTokens
  | usageOutputTokens
  | usageReasoningOutputTokens
  | usageCacheReadInputTokens
  | usageCacheCreationInputTokens
  | responseFinishReasons
  | requestTemperature
  | requestMaxTokens
  | tokenType
  deriving DecidableEq

/-- The attributes that are not part of the conventions. -/
inductive OwnAttr where
  | schemaVersion
  | traceId
  | spanId
  | parentSpanId
  | tenantId
  | loopIteration
  | estimatedCostUsd
  | promptVersionId
  deriving DecidableEq

/-- The part of their names that is not common to all. -/
def OwnAttr.name : OwnAttr → Str
  | schemaVersion => "schema_version".toList
  | traceId => "trace_id".toList
  | spanId => "span_id".toList
  | parentSpanId => "parent_span_id".toList
  | tenantId => "tenant_id".toList
  | loopIteration => "loop_iteration".toList
  | estimatedCostUsd => "estimated_cost_usd".toList
  | promptVersionId => "prompt_version_id".toList

/-- The text of an attribute that is not part of the conventions. -/
def OwnAttr.text (k : OwnAttr) : Str := "wisetraceloom.".toList ++ k.name

theorem OwnAttr.text_injective : Function.Injective OwnAttr.text := by
  intro k k' h
  replace h := List.append_cancel_left h
  revert h
  cases k <;> cases k' <;> decide

/-- The values of `GenAiTokenTypeValues` that are used. -/
inductive TokenType where
  | input
  | completion
  deriving DecidableEq

/-- The semantic conventions. -/
structure Semconv where
  /-- The texts of the constants. -/
  text : GenAi → Str
  /-- No two are the same. -/
  injective : Function.Injective text
  /-- None is one of `wisetraceloom`. -/
  foreign : ∀ k, ¬"wisetraceloom.".toList <+: text k
  /-- The texts of the kinds of tokens. -/
  tokenText : TokenType → Str
  /-- They differ. -/
  tokenText_injective : Function.Injective tokenText

/-- The texts of the constants as they are documented. -/
def GenAi.documented : GenAi → Str
  | operationName => "gen_ai.operation.name".toList
  | agentId => "gen_ai.agent.id".toList
  | agentName => "gen_ai.agent.name".toList
  | agentDescription => "gen_ai.agent.description".toList
  | conversationId => "gen_ai.conversation.id".toList
  | toolName => "gen_ai.tool.name".toList
  | toolType => "gen_ai.tool.type".toList
  | toolCallId => "gen_ai.tool.call.id".toList
  | toolDescription => "gen_ai.tool.description".toList
  | providerName => "gen_ai.provider.name".toList
  | requestModel => "gen_ai.request.model".toList
  | responseModel => "gen_ai.response.model".toList
  | usageInputTokens => "gen_ai.usage.input_tokens".toList
  | usageOutputTokens => "gen_ai.usage.output_tokens".toList
  | usageReasoningOutputTokens => "gen_ai.usage.reasoning.output_tokens".toList
  | usageCacheReadInputTokens => "gen_ai.usage.cache_read.input_tokens".toList
  | usageCacheCreationInputTokens => "gen_ai.usage.cache_creation.input_tokens".toList
  | responseFinishReasons => "gen_ai.response.finish_reasons".toList
  | requestTemperature => "gen_ai.request.temperature".toList
  | requestMaxTokens => "gen_ai.request.max_tokens".toList
  | tokenType => "gen_ai.token.type".toList

/-- The constants. -/
def GenAi.all : List GenAi :=
  [operationName, agentId, agentName, agentDescription, conversationId, toolName, toolType,
    toolCallId, toolDescription, providerName, requestModel, responseModel, usageInputTokens,
    usageOutputTokens, usageReasoningOutputTokens, usageCacheReadInputTokens,
    usageCacheCreationInputTokens, responseFinishReasons, requestTemperature, requestMaxTokens,
    tokenType]

theorem GenAi.mem_all (k : GenAi) : k ∈ GenAi.all := by cases k <;> decide

theorem GenAi.documented_inj : ∀ k ∈ GenAi.all, ∀ k' ∈ GenAi.all,
    k.documented = k'.documented → k = k' := by
  decide +kernel

/-- The conventions as they are documented. -/
def semconv : Semconv where
  text := GenAi.documented
  injective k k' := GenAi.documented_inj k k.mem_all k' k'.mem_all
  foreign k := by cases k <;> decide
  tokenText
    | .input => "input".toList
    | .completion => "output".toList
  tokenText_injective k k' := by cases k <;> cases k' <;> decide

/-- An attribute. -/
inductive AttrKey where
  | genAi (k : GenAi)
  | own (k : OwnAttr)
  deriving DecidableEq

namespace Semconv

variable (sc : Semconv)

/-- Its name. -/
def key : AttrKey → Str
  | .genAi k => sc.text k
  | .own k => k.text

theorem key_injective : Function.Injective sc.key := by
  rintro (k | k) (k' | k') h
  · rw [sc.injective h]
  · exact absurd ⟨k'.name, h.symm⟩ (sc.foreign k)
  · exact absurd ⟨k.name, h⟩ (sc.foreign k')
  · rw [OwnAttr.text_injective h]

@[simp] theorem key_inj {k k' : AttrKey} : sc.key k = sc.key k' ↔ k = k' :=
  sc.key_injective.eq_iff

end Semconv

/-! ## Spans of a tracer -/

/-- The value of an attribute. -/
inductive AttrValue (K : Type) where
  | text (s : Str)
  | int (n : ℤ)
  | float (x : K)
  | texts (l : List Str)

/-- The status of a span. -/
inductive OtelStatus where
  | unset
  | error (description : Option Str)
  deriving DecidableEq

/-- A span of a tracer. -/
structure OtelSpan (K : Type) where
  /-- Its name. -/
  name : Str
  /-- When it was started, in nanoseconds. -/
  startTime : ℤ
  /-- Its attributes. -/
  attributes : AList fun _ : Str ↦ AttrValue K
  /-- Its status. -/
  status : OtelStatus
  /-- When it was ended. -/
  endTime : Option ℤ

section

variable {K : Type}

namespace OtelSpan

/-- `tracer.start_span`. -/
def startSpan (name : Str) (startTime : ℤ) : OtelSpan K := ⟨name, startTime, ∅, .unset, none⟩

/-- `set_attribute`. -/
def setAttribute (key : Str) (value : AttrValue K) (o : OtelSpan K) : OtelSpan K :=
  { o with attributes := o.attributes.insert key value }

/-- An attribute that is set only if it is not `None`. -/
def setSome (key : Str) (value : Option (AttrValue K)) (o : OtelSpan K) : OtelSpan K :=
  match value with
  | some value => o.setAttribute key value
  | none => o

/-- `set_status`. -/
def setStatus (status : OtelStatus) (o : OtelSpan K) : OtelSpan K := { o with status }

/-- `end`. -/
def finish (endTime : ℤ) (o : OtelSpan K) : OtelSpan K := { o with endTime := some endTime }

/-- The attribute of that name. -/
def get (key : Str) (o : OtelSpan K) : Option (AttrValue K) := o.attributes.lookup key

variable (o : OtelSpan K) (k k' : Str) (v : AttrValue K) (v? : Option (AttrValue K))

@[simp] theorem get_startSpan (name : Str) (startTime : ℤ) :
    (startSpan name startTime : OtelSpan K).get k = none := AList.lookup_empty k

@[simp] theorem get_setAttribute :
    (o.setAttribute k v).get k' = if k = k' then some v else o.get k' := by
  rw [get, get, setAttribute]
  split_ifs with h
  · rw [h, AList.lookup_insert]
  · rw [AList.lookup_insert_ne (Ne.symm h)]

@[simp] theorem get_setSome :
    (o.setSome k v?).get k' = if k = k' then v?.or (o.get k') else o.get k' := by
  rw [setSome.eq_def]
  cases v? with
  | none => simp
  | some v => simp

@[simp] theorem get_setStatus (status : OtelStatus) : (o.setStatus status).get k = o.get k := rfl

@[simp] theorem get_finish (endTime : ℤ) : (o.finish endTime).get k = o.get k := rfl

@[simp] theorem status_startSpan (name : Str) (startTime : ℤ) :
    (startSpan name startTime : OtelSpan K).status = .unset := rfl

@[simp] theorem status_setAttribute : (o.setAttribute k v).status = o.status := rfl

@[simp] theorem status_setSome : (o.setSome k v?).status = o.status := by cases v? <;> rfl

@[simp] theorem status_setStatus (status : OtelStatus) : (o.setStatus status).status = status := rfl

@[simp] theorem status_finish (endTime : ℤ) : (o.finish endTime).status = o.status := rfl

@[simp] theorem startTime_startSpan (name : Str) (startTime : ℤ) :
    (startSpan name startTime : OtelSpan K).startTime = startTime := rfl

@[simp] theorem startTime_setAttribute : (o.setAttribute k v).startTime = o.startTime := rfl

@[simp] theorem startTime_setSome : (o.setSome k v?).startTime = o.startTime := by cases v? <;> rfl

@[simp] theorem startTime_setStatus (status : OtelStatus) :
    (o.setStatus status).startTime = o.startTime := rfl

@[simp] theorem startTime_finish (endTime : ℤ) : (o.finish endTime).startTime = o.startTime := rfl

@[simp] theorem endTime_finish (endTime : ℤ) : (o.finish endTime).endTime = some endTime := rfl

end OtelSpan

/-! ## Exporting a span -/

/-- A text that counts as true. -/
def truthy (s : Option Str) : Option Str := s.filter fun s ↦ !s.isEmpty

variable (sc : Semconv)
variable (toEpochNs : Datetime → ℤ) (timeNs : ℤ)

/-- `_set_correlation_attrs`. -/
def OtelSpan.setCorrelationAttrs (span : SpanBase) (o : OtelSpan K) : OtelSpan K :=
  o
  |>.setAttribute (sc.key (.own .schemaVersion)) (.text span.schemaVersion)
  |>.setAttribute (sc.key (.own .traceId)) (.text span.traceId)
  |>.setAttribute (sc.key (.own .spanId)) (.text span.spanId)
  |>.setSome (sc.key (.own .parentSpanId)) ((truthy span.parentSpanId).map .text)
  |>.setSome (sc.key (.own .tenantId)) ((truthy span.tenantId).map .text)

/-- The end of a span, or the current time. -/
def endNs (span : SpanBase) : ℤ := (span.endedAt.map toEpochNs).getD timeNs

/-- The span `export_agent_span` makes. -/
def exportAgentSpan (span : AgentSpan) : OtelSpan K :=
  (OtelSpan.startSpan (span.operationName ++ ' ' :: span.agentName) (toEpochNs span.startedAt))
  |>.setAttribute (sc.key (.genAi .operationName)) (.text span.operationName)
  |>.setAttribute (sc.key (.genAi .agentId)) (.text span.agentId)
  |>.setAttribute (sc.key (.genAi .agentName)) (.text span.agentName)
  |>.setSome (sc.key (.genAi .agentDescription)) ((truthy span.description).map .text)
  |>.setSome (sc.key (.genAi .conversationId)) ((truthy span.conversationId).map .text)
  |>.setAttribute (sc.key (.own .loopIteration)) (.int span.loopIteration)
  |>.setCorrelationAttrs sc span.toSpanBase
  |>.finish (endNs toEpochNs timeNs span.toSpanBase)

/-- The span `export_tool_span` makes. -/
def exportToolSpan (span : ToolSpan) : OtelSpan K :=
  (OtelSpan.startSpan ("execute_tool ".toList ++ span.toolName) (toEpochNs span.startedAt))
  |>.setAttribute (sc.key (.genAi .operationName)) (.text "execute_tool".toList)
  |>.setAttribute (sc.key (.genAi .toolName)) (.text span.toolName)
  |>.setAttribute (sc.key (.genAi .toolType)) (.text span.toolType)
  |>.setSome (sc.key (.genAi .toolCallId)) ((truthy span.toolCallId).map .text)
  |>.setSome (sc.key (.genAi .toolDescription)) ((truthy span.description).map .text)
  |> (fun o ↦ if span.success = some false then o.setStatus (.error span.errorMessage) else o)
  |>.setCorrelationAttrs sc span.toSpanBase
  |>.finish (endNs toEpochNs timeNs span.toSpanBase)

/-- The span `export_llm_span` makes. -/
def exportLlmSpan (span : LLMSpan K) : OtelSpan K :=
  (OtelSpan.startSpan (span.operationName ++ ' ' :: span.requestModel) (toEpochNs span.startedAt))
  |>.setAttribute (sc.key (.genAi .operationName)) (.text span.operationName)
  |>.setAttribute (sc.key (.genAi .providerName)) (.text span.providerName)
  |>.setAttribute (sc.key (.genAi .requestModel)) (.text span.requestModel)
  |>.setSome (sc.key (.genAi .responseModel)) ((truthy span.responseModel).map .text)
  |>.setSome (sc.key (.genAi .usageInputTokens)) (span.inputTokens.map .int)
  |>.setSome (sc.key (.genAi .usageOutputTokens)) (span.outputTokens.map .int)
  |>.setSome (sc.key (.genAi .usageReasoningOutputTokens)) (span.reasoningTokens.map .int)
  |>.setSome (sc.key (.genAi .usageCacheReadInputTokens)) (span.cacheReadInputTokens.map .int)
  |>.setSome (sc.key (.genAi .usageCacheCreationInputTokens))
    (span.cacheCreationInputTokens.map .int)
  |>.setSome (sc.key (.genAi .responseFinishReasons))
    (if span.finishReasons.isEmpty then none else some (.texts span.finishReasons))
  |>.setSome (sc.key (.genAi .requestTemperature)) (span.temperature.map .float)
  |>.setSome (sc.key (.genAi .requestMaxTokens)) (span.maxTokens.map .int)
  |>.setSome (sc.key (.own .estimatedCostUsd)) (span.estimatedCostUsd.map .float)
  |>.setSome (sc.key (.own .promptVersionId)) ((truthy span.promptVersionId).map .text)
  |>.setCorrelationAttrs sc span.toSpanBase
  |>.finish (endNs toEpochNs timeNs span.toSpanBase)

/-- The span the exporter of a span makes. -/
def exportSpan : Span K → OtelSpan K
  | .agent span => exportAgentSpan sc toEpochNs timeNs span
  | .tool span => exportToolSpan sc toEpochNs timeNs span
  | .llm span => exportLlmSpan sc toEpochNs timeNs span

end

/-! ## Reading it back -/

/-- What every exported span shows. -/
structure BaseView where
  /-- The version of the schema. -/
  schemaVersion : Str
  /-- The id of the span. -/
  spanId : Str
  /-- The id of its trace. -/
  traceId : Str
  /-- The id of the enclosing span. -/
  parentSpanId : Option Str
  /-- The tenant. -/
  tenantId : Option Str
  /-- When it started. -/
  startTime : ℤ
  /-- When it ended, or was exported. -/
  endTime : ℤ
  deriving DecidableEq

/-- What the span of an agent shows. -/
structure AgentView extends BaseView where
  /-- The id of the agent. -/
  agentId : Str
  /-- The name of the agent. -/
  agentName : Str
  /-- What the step is about. -/
  description : Option Str
  /-- The conversation it belongs to. -/
  conversationId : Option Str
  /-- The kind of step. -/
  operationName : Str
  /-- The agent's own loop counter. -/
  loopIteration : ℤ
  deriving DecidableEq

/-- What the span of a tool shows. -/
structure ToolView extends BaseView where
  /-- The name of the tool. -/
  toolName : Str
  /-- The id of the call. -/
  toolCallId : Option Str
  /-- The kind of tool. -/
  toolType : Str
  /-- What the call is about. -/
  description : Option Str
  /-- The text of the failure if it has failed. -/
  failure : Option (Option Str)
  deriving DecidableEq

/-- What the span of a model shows. -/
structure LLMView (K : Type) extends BaseView where
  /-- The provider. -/
  providerName : Str
  /-- The model that was asked for. -/
  requestModel : Str
  /-- The model that has answered. -/
  responseModel : Option Str
  /-- The kind of call. -/
  operationName : Str
  /-- The tokens of the prompt. -/
  inputTokens : Option ℤ
  /-- The tokens of the answer. -/
  outputTokens : Option ℤ
  /-- The tokens of its reasoning. -/
  reasoningTokens : Option ℤ
  /-- The tokens read from a cache. -/
  cacheReadInputTokens : Option ℤ
  /-- The tokens written to a cache. -/
  cacheCreationInputTokens : Option ℤ
  /-- Why the answer ended. -/
  finishReasons : List Str
  /-- The temperature. -/
  temperature : Option K
  /-- The limit on the tokens. -/
  maxTokens : Option ℤ
  /-- What the call has cost. -/
  estimatedCostUsd : Option K
  /-- The version of the prompt. -/
  promptVersionId : Option Str
  deriving DecidableEq

/-- What an exported span shows. -/
inductive View (K : Type) where
  | agent (v : AgentView)
  | tool (v : ToolView)
  | llm (v : LLMView K)
  deriving DecidableEq

section

variable {K : Type}

/-- The text of a value. -/
def AttrValue.text? : AttrValue K → Option Str
  | .text s => some s
  | _ => none

/-- The integer of a value. -/
def AttrValue.int? : AttrValue K → Option ℤ
  | .int n => some n
  | _ => none

/-- The number of a value. -/
def AttrValue.float? : AttrValue K → Option K
  | .float x => some x
  | _ => none

/-- The texts of a value. -/
def AttrValue.texts? : AttrValue K → Option (List Str)
  | .texts l => some l
  | _ => none

@[simp] theorem AttrValue.text?_text (s : Str) : (AttrValue.text s : AttrValue K).text? = some s :=
  rfl

@[simp] theorem AttrValue.int?_int (n : ℤ) : (AttrValue.int n : AttrValue K).int? = some n := rfl

@[simp] theorem bind_map_text (s : Option Str) :
    (s.map (AttrValue.text : Str → AttrValue K)).bind AttrValue.text? = s := by
  cases s <;> rfl

@[simp] theorem bind_map_int (n : Option ℤ) :
    (n.map (AttrValue.int : ℤ → AttrValue K)).bind AttrValue.int? = n := by
  cases n <;> rfl

@[simp] theorem bind_map_float (x : Option K) :
    (x.map AttrValue.float).bind AttrValue.float? = x := by
  cases x <;> rfl

variable (sc : Semconv)

/-- A text among the attributes. -/
def OtelSpan.text (k : AttrKey) (o : OtelSpan K) : Option Str :=
  (o.get (sc.key k)).bind AttrValue.text?

/-- An integer among the attributes. -/
def OtelSpan.int (k : AttrKey) (o : OtelSpan K) : Option ℤ :=
  (o.get (sc.key k)).bind AttrValue.int?

/-- A number among the attributes. -/
def OtelSpan.float (k : AttrKey) (o : OtelSpan K) : Option K :=
  (o.get (sc.key k)).bind AttrValue.float?

/-- Texts among the attributes. -/
def OtelSpan.texts (k : AttrKey) (o : OtelSpan K) : List Str :=
  ((o.get (sc.key k)).bind AttrValue.texts?).getD []

/-- What every exported span shows. -/
def OtelSpan.recoverBase (o : OtelSpan K) : Option BaseView := do
  return {
    schemaVersion := ← o.text sc (.own .schemaVersion)
    spanId := ← o.text sc (.own .spanId)
    traceId := ← o.text sc (.own .traceId)
    parentSpanId := o.text sc (.own .parentSpanId)
    tenantId := o.text sc (.own .tenantId)
    startTime := o.startTime
    endTime := ← o.endTime }

/-- **What an exported span shows**: it is the span of an agent, a tool or a model if it names
one. -/
def OtelSpan.recover (o : OtelSpan K) : Option (View K) := do
  let base ← o.recoverBase sc
  let operationName ← o.text sc (.genAi .operationName)
  match o.text sc (.genAi .agentId), o.text sc (.genAi .toolName),
    o.text sc (.genAi .providerName) with
  | some agentId, _, _ =>
    return .agent { base with
      agentId
      agentName := ← o.text sc (.genAi .agentName)
      description := o.text sc (.genAi .agentDescription)
      conversationId := o.text sc (.genAi .conversationId)
      operationName
      loopIteration := ← o.int sc (.own .loopIteration) }
  | none, some toolName, _ =>
    return .tool { base with
      toolName
      toolCallId := o.text sc (.genAi .toolCallId)
      toolType := ← o.text sc (.genAi .toolType)
      description := o.text sc (.genAi .toolDescription)
      failure :=
        match o.status with
        | .unset => none
        | .error description => some description }
  | none, none, some providerName =>
    return .llm { base with
      providerName
      requestModel := ← o.text sc (.genAi .requestModel)
      responseModel := o.text sc (.genAi .responseModel)
      operationName
      inputTokens := o.int sc (.genAi .usageInputTokens)
      outputTokens := o.int sc (.genAi .usageOutputTokens)
      reasoningTokens := o.int sc (.genAi .usageReasoningOutputTokens)
      cacheReadInputTokens := o.int sc (.genAi .usageCacheReadInputTokens)
      cacheCreationInputTokens := o.int sc (.genAi .usageCacheCreationInputTokens)
      finishReasons := o.texts sc (.genAi .responseFinishReasons)
      temperature := o.float sc (.genAi .requestTemperature)
      maxTokens := o.int sc (.genAi .requestMaxTokens)
      estimatedCostUsd := o.float sc (.own .estimatedCostUsd)
      promptVersionId := o.text sc (.own .promptVersionId) }
  | none, none, none => none

/-! ## What is meant to be there -/

variable (toEpochNs : Datetime → ℤ) (timeNs : ℤ)

/-- What of the fields of every span is exported. -/
def SpanBase.view (span : SpanBase) : BaseView where
  schemaVersion := span.schemaVersion
  spanId := span.spanId
  traceId := span.traceId
  parentSpanId := truthy span.parentSpanId
  tenantId := truthy span.tenantId
  startTime := toEpochNs span.startedAt
  endTime := endNs toEpochNs timeNs span

/-- What of a span is exported. -/
def Span.view : Span K → View K
  | .agent span => .agent { span.toSpanBase.view toEpochNs timeNs with
      agentId := span.agentId
      agentName := span.agentName
      description := truthy span.description
      conversationId := truthy span.conversationId
      operationName := span.operationName
      loopIteration := span.loopIteration }
  | .tool span => .tool { span.toSpanBase.view toEpochNs timeNs with
      toolName := span.toolName
      toolCallId := truthy span.toolCallId
      toolType := span.toolType
      description := truthy span.description
      failure := if span.success = some false then some span.errorMessage else none }
  | .llm span => .llm { span.toSpanBase.view toEpochNs timeNs with
      providerName := span.providerName
      requestModel := span.requestModel
      responseModel := truthy span.responseModel
      operationName := span.operationName
      inputTokens := span.inputTokens
      outputTokens := span.outputTokens
      reasoningTokens := span.reasoningTokens
      cacheReadInputTokens := span.cacheReadInputTokens
      cacheCreationInputTokens := span.cacheCreationInputTokens
      finishReasons := span.finishReasons
      temperature := span.temperature
      maxTokens := span.maxTokens
      estimatedCostUsd := span.estimatedCostUsd
      promptVersionId := truthy span.promptVersionId }

/-- The attributes of the identity of a span do not meet with any other. -/
@[simp] theorem get_setCorrelationAttrs_genAi (span : SpanBase) (o : OtelSpan K) (k : GenAi) :
    (o.setCorrelationAttrs sc span).get (sc.key (.genAi k)) = o.get (sc.key (.genAi k)) := by
  simp [OtelSpan.setCorrelationAttrs]

theorem recoverBase_finish (span : SpanBase) (o : OtelSpan K)
    (hstart : o.startTime = toEpochNs span.startedAt)
    (hfresh : o.get (sc.key (.own .parentSpanId)) = none ∧
      o.get (sc.key (.own .tenantId)) = none) :
    ((o.setCorrelationAttrs sc span).finish (endNs toEpochNs timeNs span)).recoverBase sc =
      some (span.view toEpochNs timeNs) := by
  simp [OtelSpan.recoverBase, OtelSpan.setCorrelationAttrs, OtelSpan.text, SpanBase.view, hstart,
    hfresh.1, hfresh.2]

theorem recover_exportAgentSpan (span : AgentSpan) :
    (exportAgentSpan sc toEpochNs timeNs span : OtelSpan K).recover sc =
      some ((Span.agent span).view toEpochNs timeNs) := by
  have hbase : (exportAgentSpan sc toEpochNs timeNs span : OtelSpan K).recoverBase sc =
      some (span.toSpanBase.view toEpochNs timeNs) :=
    recoverBase_finish sc toEpochNs timeNs _ _ (by simp) (by simp)
  rw [OtelSpan.recover, hbase]
  simp [exportAgentSpan, OtelSpan.text, OtelSpan.int, OtelSpan.setCorrelationAttrs, Span.view]

theorem recover_exportToolSpan (span : ToolSpan) :
    (exportToolSpan sc toEpochNs timeNs span : OtelSpan K).recover sc =
      some ((Span.tool span).view toEpochNs timeNs) := by
  by_cases hfailed : span.success = some false
  all_goals
    have hbase : (exportToolSpan sc toEpochNs timeNs span : OtelSpan K).recoverBase sc =
        some (span.toSpanBase.view toEpochNs timeNs) :=
      recoverBase_finish sc toEpochNs timeNs _ _ (by simp [hfailed]) (by simp [hfailed])
    rw [OtelSpan.recover, hbase]
    simp [exportToolSpan, OtelSpan.text, OtelSpan.setCorrelationAttrs, Span.view, hfailed]

theorem bind_texts (l : List Str) :
    (((if l = [] then none else some (.texts l) : Option (AttrValue K))).bind
      AttrValue.texts?).getD [] = l := by
  split_ifs with h
  · exact h.symm
  · rfl

theorem recover_exportLlmSpan (span : LLMSpan K) :
    (exportLlmSpan sc toEpochNs timeNs span : OtelSpan K).recover sc =
      some ((Span.llm span).view toEpochNs timeNs) := by
  have hbase : (exportLlmSpan sc toEpochNs timeNs span : OtelSpan K).recoverBase sc =
      some (span.toSpanBase.view toEpochNs timeNs) :=
    recoverBase_finish sc toEpochNs timeNs _ _ (by simp) (by simp)
  rw [OtelSpan.recover, hbase]
  simp [exportLlmSpan, OtelSpan.text, OtelSpan.int, OtelSpan.float, OtelSpan.texts,
    OtelSpan.setCorrelationAttrs, Span.view, bind_texts]

/-- **An exported span shows the whole view.** -/
theorem recover_exportSpan (span : Span K) :
    (exportSpan sc toEpochNs timeNs span).recover sc = some (span.view toEpochNs timeNs) := by
  cases span with
  | agent span => exact recover_exportAgentSpan sc toEpochNs timeNs span
  | tool span => exact recover_exportToolSpan sc toEpochNs timeNs span
  | llm span => exact recover_exportLlmSpan sc toEpochNs timeNs span

end

/-! ## Measurements -/

/-- The attributes of a measurement. -/
abbrev Measured := AList fun _ : Str ↦ Str

/-- What is recorded with an instrument. -/
inductive Measurement where
  | tokenUsage (amount : ℤ) (attributes : Measured)
  | operationDuration (seconds : ℚ) (attributes : Measured)

section

variable {K : Type} (sc : Semconv)

/-- `base_attrs`. -/
def baseAttrs (span : LLMSpan K) : Measured :=
  ((AList.insert (sc.text .operationName) span.operationName ∅).insert
    (sc.text .providerName) span.providerName).insert (sc.text .requestModel) span.requestModel

/-- `_record_llm_metrics`.  The duration is taken exactly. -/
def recordLlmMetrics (span : LLMSpan K) (durationSeconds : ℚ) : List Measurement :=
  (match span.inputTokens with
    | some n =>
      [.tokenUsage n ((baseAttrs sc span).insert (sc.text .tokenType) (sc.tokenText .input))]
    | none => []) ++
  (match span.outputTokens with
    | some n =>
      [.tokenUsage n ((baseAttrs sc span).insert (sc.text .tokenType) (sc.tokenText .completion))]
    | none => []) ++
  [.operationDuration durationSeconds (baseAttrs sc span)]

/-- A kind of call, a provider and a model. -/
structure Usage where
  /-- The kind of call. -/
  operationName : Str
  /-- The provider. -/
  providerName : Str
  /-- The model that was asked for. -/
  requestModel : Str
  deriving DecidableEq

/-- What the attributes of a measurement are about. -/
def Measured.usage (a : Measured) : Option Usage := do
  return {
    operationName := ← a.lookup (sc.text .operationName)
    providerName := ← a.lookup (sc.text .providerName)
    requestModel := ← a.lookup (sc.text .requestModel) }

/-- The tokens of a kind that were measured for a usage. -/
def Measurement.tokens (kind : TokenType) (u : Usage) : Measurement → ℤ
  | .tokenUsage n a =>
    if a.usage sc = some u ∧ a.lookup (sc.text .tokenType) = some (sc.tokenText kind) then n else 0
  | .operationDuration _ _ => 0

/-- The duration that was measured. -/
def Measurement.duration? : Measurement → Option (Option Usage × ℚ)
  | .tokenUsage _ _ => none
  | .operationDuration seconds a => some (a.usage sc, seconds)

/-- The usage of a call that an exported span shows. -/
def LLMView.usage (v : LLMView K) : Usage := ⟨v.operationName, v.providerName, v.requestModel⟩

/-- The tokens of a kind an exported span shows for a usage. -/
def View.tokens (kind : TokenType) (u : Usage) : View K → ℤ
  | .llm v =>
    if v.usage = u then
      match kind with
      | .input => v.inputTokens.getD 0
      | .completion => v.outputTokens.getD 0
    else 0
  | _ => 0

/-- How long the call took that an exported span shows. -/
def View.duration? : View K → Option (Option Usage × ℚ)
  | .llm v => some (some v.usage, (v.endTime - v.startTime : ℤ) / 1000000000)
  | _ => none

/-! ## Any number of exports -/

/-- What tracer and meter of the host were told. -/
structure Exported (K : Type) where
  /-- The spans. -/
  spans : List (OtelSpan K)
  /-- The measurements. -/
  measurements : List Measurement

/-- A call of an exporter. -/
structure ExportCall (K : Type) where
  /-- The span. -/
  span : Span K
  /-- What `gen_ai_semconv_enabled` says about its tenant. -/
  enabled : Bool
  /-- `time.time_ns()`. -/
  timeNs : ℤ

variable (toEpochNs : Datetime → ℤ)

/-- `export_agent_span`, `export_tool_span` or `export_llm_span`. -/
def ExportCall.run (x : Exported K) (c : ExportCall K) : Exported K :=
  if !c.enabled then x
  else
    let spans := x.spans ++ [exportSpan sc toEpochNs c.timeNs c.span]
    match c.span with
    | .llm span =>
      let duration : ℚ :=
        (endNs toEpochNs c.timeNs span.toSpanBase - toEpochNs span.startedAt : ℤ) / 1000000000
      { x with spans, measurements := x.measurements ++ recordLlmMetrics sc span duration }
    | _ => { x with spans }

/-! ## What has been told -/

@[simp] theorem lookup_insert_eq_ite (a : Measured) (k k' v : Str) :
    (a.insert k v).lookup k' = if k = k' then some v else a.lookup k' := by
  split_ifs with h
  · rw [h, AList.lookup_insert]
  · rw [AList.lookup_insert_ne (Ne.symm h)]

@[simp] theorem Semconv.text_inj {k k' : GenAi} : sc.text k = sc.text k' ↔ k = k' :=
  sc.injective.eq_iff

@[simp] theorem Semconv.tokenText_inj {k k' : TokenType} :
    sc.tokenText k = sc.tokenText k' ↔ k = k' :=
  sc.tokenText_injective.eq_iff

@[simp] theorem usage_baseAttrs (span : LLMSpan K) :
    (baseAttrs sc span).usage sc =
      some ⟨span.operationName, span.providerName, span.requestModel⟩ := by
  simp [baseAttrs, Measured.usage, -AList.insert_empty]

@[simp] theorem usage_insert_tokenType (a : Measured) (v : Str) :
    Measured.usage sc (a.insert (sc.text .tokenType) v) = Measured.usage sc a := by
  simp [Measured.usage]

/-- What is measured for a call of a model is what its span shows. -/
theorem tokens_recordLlmMetrics (timeNs : ℤ) (span : LLMSpan K) (d : ℚ) (kind : TokenType)
    (u : Usage) :
    ((recordLlmMetrics sc span d).map fun m ↦ m.tokens sc kind u).sum =
      ((Span.llm span).view toEpochNs timeNs).tokens kind u := by
  by_cases hu : (⟨span.operationName, span.providerName, span.requestModel⟩ : Usage) = u
  · cases kind
    all_goals
      cases hin : span.inputTokens <;> cases hout : span.outputTokens <;>
        simp [recordLlmMetrics, Measurement.tokens, View.tokens, Span.view, LLMView.usage, hu, hin,
          hout]
  · cases hin : span.inputTokens <;> cases hout : span.outputTokens <;>
      simp [recordLlmMetrics, Measurement.tokens, View.tokens, Span.view, LLMView.usage, hu, hin,
        hout]

theorem duration_recordLlmMetrics (timeNs : ℤ) (span : LLMSpan K) :
    (recordLlmMetrics sc span
      ((endNs toEpochNs timeNs span.toSpanBase - toEpochNs span.startedAt : ℤ) /
        1000000000)).filterMap (Measurement.duration? sc) =
      (((Span.llm span).view toEpochNs timeNs).duration?).toList := by
  cases hin : span.inputTokens <;> cases hout : span.outputTokens <;>
    simp [recordLlmMetrics, List.filterMap_cons, Measurement.duration?, View.duration?, Span.view,
      SpanBase.view, LLMView.usage, hin, hout]

/-- Tracer and meter were told of spans that show `views`, and of nothing else. -/
structure Exported.Shows (x : Exported K) (views : List (View K)) : Prop where
  /-- The spans show them, in that order. -/
  spans : x.spans.map (OtelSpan.recover sc) = views.map some
  /-- The tokens that were measured are theirs. -/
  tokens : ∀ kind u, (x.measurements.map fun m ↦ m.tokens sc kind u).sum =
    (views.map fun v ↦ v.tokens kind u).sum
  /-- The durations that were measured are theirs, in that order. -/
  durations : x.measurements.filterMap (Measurement.duration? sc) =
    views.filterMap View.duration?

variable {sc}

/-- **What one call adds.** -/
theorem Exported.Shows.run {x : Exported K} {views : List (View K)} (h : x.Shows sc views)
    (c : ExportCall K) :
    (ExportCall.run sc toEpochNs x c).Shows sc
      (views ++ if c.enabled then [c.span.view toEpochNs c.timeNs] else []) := by
  rw [ExportCall.run]
  cases hen : c.enabled with
  | false => simpa using h
  | true =>
    have hspans : (x.spans ++ [exportSpan sc toEpochNs c.timeNs c.span]).map
        (OtelSpan.recover sc) = (views ++ [c.span.view toEpochNs c.timeNs]).map some := by
      rw [List.map_append, List.map_append, h.spans, List.map_singleton, List.map_singleton,
        recover_exportSpan]
    cases hspan : c.span with
    | agent span =>
      rw [hspan] at hspans
      refine ⟨hspans, fun kind u ↦ ?_, ?_⟩
      · simpa [View.tokens, Span.view] using h.tokens kind u
      · simpa [List.filterMap_cons, View.duration?, Span.view] using h.durations
    | tool span =>
      rw [hspan] at hspans
      refine ⟨hspans, fun kind u ↦ ?_, ?_⟩
      · simpa [View.tokens, Span.view] using h.tokens kind u
      · simpa [List.filterMap_cons, View.duration?, Span.view] using h.durations
    | llm span =>
      rw [hspan] at hspans
      refine ⟨hspans, fun kind u ↦ ?_, ?_⟩
      · show ((x.measurements ++ _).map _).sum = _
        rw [List.map_append, List.sum_append, h.tokens, tokens_recordLlmMetrics sc toEpochNs
          c.timeNs, List.map_append, List.sum_append]
        simp
      · show (x.measurements ++ _).filterMap _ = _
        rw [List.filterMap_append, h.durations, duration_recordLlmMetrics, List.filterMap_append,
          if_pos rfl, List.filterMap_cons, List.filterMap_nil]
        cases View.duration? ((Span.llm span).view toEpochNs c.timeNs) <;> rfl

theorem Exported.Shows.foldl {x : Exported K} {views : List (View K)} (h : x.Shows sc views)
    (calls : List (ExportCall K)) :
    (calls.foldl (ExportCall.run sc toEpochNs) x).Shows sc
      (views ++ (calls.filter (·.enabled)).map fun c ↦ c.span.view toEpochNs c.timeNs) := by
  induction calls generalizing x views with
  | nil => simpa using h
  | cons c calls ih =>
    have hstep := ih (h.run toEpochNs c)
    cases hen : c.enabled with
    | false => simpa [hen] using hstep
    | true => simpa [hen, List.append_assoc] using hstep

/-- **Exporting loses nothing that is meant to be there.**  After any calls of the exporters the
host's tracer has exactly the spans whose tenants were opted in, in order, and the whole view can be
read off each of them.  What the meter was told agrees with them: for every kind of call, provider
and model the tokens it was given are those the spans show, and there is one duration for each call
of a model. -/
theorem exports_recovered (sc : Semconv) (calls : List (ExportCall K)) :
    let views := (calls.filter (·.enabled)).map fun c ↦ c.span.view toEpochNs c.timeNs
    let x := calls.foldl (ExportCall.run sc toEpochNs) ⟨[], []⟩
    x.spans.map (OtelSpan.recover sc) = views.map some ∧
      (∀ kind u, (x.measurements.map fun m ↦ m.tokens sc kind u).sum =
        (views.map fun v ↦ v.tokens kind u).sum) ∧
      x.measurements.filterMap (Measurement.duration? sc) = views.filterMap View.duration? := by
  intro views x
  have hempty : (⟨[], []⟩ : Exported K).Shows sc [] := ⟨rfl, fun _ _ ↦ rfl, rfl⟩
  have h := hempty.foldl toEpochNs calls
  exact ⟨h.spans, h.tokens, h.durations⟩

end

end WiseTraceLoom
