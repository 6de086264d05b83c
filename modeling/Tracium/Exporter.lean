import Tracium.GenAI
import Tracium.Enrich

/-! clickhousespanexporter: the mapping from an enriched batch to the rows written to
tracium.spans. The attribute keys and the extraction are written again here, so that
the exporter also works for spans that did not pass through the processor. -/
namespace Tracium.Exporter

open Go

def attrModelRequest : Str := lit "gen_ai.request.model"
def attrModelResponse : Str := lit "gen_ai.response.model"
def attrFinishReason : Str := lit "gen_ai.response.finish_reasons"
def attrUserID : Str := lit "tracium.user.id"
def attrWorkspaceID : Str := lit "tracium.workspace.id"
def attrCostUSD : Str := lit "tracium.cost_usd"
def attrModelNormalized : Str := lit "tracium.model_normalized"
def attrSchemaVersion : Str := lit "tracium.schema_version"
def attrAvailableTools : Str := lit "tracium.available_tools"
def attrUnmetered : Str := lit "tracium.usage.unmetered"
def attrServiceName : Str := lit "service.name"
def attrGenAIAgentName : Str := lit "gen_ai.agent.name"
def attrTraceloopWorkflow : Str := lit "traceloop.workflow.name"
def attrTraceloopEntity : Str := lit "traceloop.entity.name"
def attrWorkflowVersion : Str := lit "tracium.workflow.version"
def attrOpenInferenceKind : Str := lit "openinference.span.kind"
def attrTraceloopKind : Str := lit "traceloop.span.kind"
def attrGenAIOperation : Str := lit "gen_ai.operation.name"

def eventException : Str := lit "exception"
def attrExceptionType : Str := lit "exception.type"
def attrExceptionMessage : Str := lit "exception.message"

def maxAttrs : Nat := 64
def maxAttrKeyBytes : Nat := 128
def maxAttrValueBytes : Nat := 256

def attrDenyPrefixes : List Str := [lit "gen_ai.", lit "tracium.", lit "llm.", lit "traceloop."]
def attrDenyKeys : List Str := [attrServiceName]

def isDeniedAttr (k : Str) : Bool :=
  attrDenyKeys.contains k || attrDenyPrefixes.any fun p => hasPrefix k p

variable {F : Type} (rt : Platform F)

def finishReason (attrs : Attributes F) : Str :=
  match OrderedMap.get attrs attrFinishReason with
  | none => []
  | some (.slice []) => []
  | some (.slice (v :: _)) => v.asString rt
  | some v => v.asString rt

/-- The workspace falls back to the resource for spans that skipped the processor. -/
def workspaceID (spanAttrs resource : Attributes F) : Str :=
  if strAttr rt spanAttrs attrWorkspaceID ≠ [] then strAttr rt spanAttrs attrWorkspaceID
  else strAttr rt resource attrWorkspaceID

def lowerTrim (v : Str) : Str := toLower rt.toLowerRune (trimSpace v)

def fromOpenInferenceKind (v : Str) : Str :=
  let k := lowerTrim rt v
  if k = lit "llm" then lit "llm"
  else if k = lit "tool" then lit "tool"
  else if k = lit "chain" then lit "chain"
  else if k = lit "agent" then lit "agent"
  else if k = lit "retriever" ∨ k = lit "reranker" then lit "retriever"
  else if k = lit "embedding" then lit "embedding"
  else []

def fromTraceloopKind (v : Str) : Str :=
  let k := lowerTrim rt v
  if k = lit "workflow" ∨ k = lit "task" then lit "chain"
  else if k = lit "agent" then lit "agent"
  else if k = lit "tool" then lit "tool"
  else []

def fromGenAIOperation (v : Str) : Str :=
  let k := lowerTrim rt v
  if k = lit "chat" ∨ k = lit "text_completion" ∨ k = lit "generate_content" then lit "llm"
  else if k = lit "embeddings" then lit "embedding"
  else if k = lit "execute_tool" then lit "tool"
  else if k = lit "create_agent" ∨ k = lit "invoke_agent" then lit "agent"
  else []

def spanKind (attrs : Attributes F) (model : Str) (inputTokens outputTokens : Int) : Str :=
  let openInference := fromOpenInferenceKind rt (strAttr rt attrs attrOpenInferenceKind)
  let traceloop := fromTraceloopKind rt (strAttr rt attrs attrTraceloopKind)
  let operation := fromGenAIOperation rt (strAttr rt attrs attrGenAIOperation)
  if openInference ≠ [] then openInference
  else if traceloop ≠ [] then traceloop
  else if operation ≠ [] then operation
  else if model ≠ [] ∨ inputTokens > 0 ∨ outputTokens > 0 then lit "llm"
  else []

/-- The SDK default "unknown_service" counts as absent. -/
def resourceServiceName (serviceName : Str) : Str :=
  if hasPrefix serviceName (lit "unknown_service") then [] else trimSpace serviceName

def workflowName (serviceName genaiAgent traceloopWorkflow traceloopEntity spanName : Str) : Str :=
  (([genaiAgent, traceloopWorkflow, traceloopEntity, resourceServiceName serviceName, spanName].map
    trimSpace).find? fun name => decide (name ≠ [])).getD []

/-- The first "exception" event. -/
def exceptionEvent (events : List (Event F)) : Option (Event F) :=
  events.find? fun ev => ev.name == eventException

/-- spanError: error type and message, empty unless the status is Error. -/
def spanError (s : OtlpSpan F) : Str × Str :=
  if s.statusCode ≠ .error then ([], [])
  else
    let attrs := (exceptionEvent s.events).elim [] Event.attributes
    let errType := strAttr rt attrs attrExceptionType
    let errMessage := strAttr rt attrs attrExceptionMessage
    (if errType = [] then lit "error" else errType,
      if errMessage = [] then s.statusMessage else errMessage)

/-- A custom value over the cap is cut at a character boundary. -/
def capValue (val : Str) : Str :=
  if val.length > maxAttrValueBytes then toValidUTF8 (val.take maxAttrValueBytes) else val

def isCustomKey (k : Str) : Bool := !(k.length == 0 || k.length > maxAttrKeyBytes || isDeniedAttr k)

/-- One step of customAttributes' `add`: a stored key may always be overwritten, a new
one only below the cap. -/
def addAttr (out : List (Str × Str)) (e : Str × Value F) : List (Str × Str) :=
  if !isCustomKey e.1 then out
  else if (OrderedMap.get out e.1).isNone && out.length ≥ maxAttrs then out
  else OrderedMap.put out e.1 (capValue (e.2.asString rt))

def customAttributes (resource spanAttrs : Attributes F) : Option (List (Str × Str)) :=
  let out := spanAttrs.foldl (addAttr rt) (resource.foldl (addAttr rt) [])
  if out.length = 0 then none else some out

def fromOTLP (s : OtlpSpan F) (serviceName : Str) (resource : Attributes F) : Span F :=
  let attrs := s.attributes
  let model := if strAttr rt attrs attrModelRequest = [] then strAttr rt attrs attrModelResponse
    else strAttr rt attrs attrModelRequest
  let am := attrMap rt attrs
  let usage := GenAI.usage rt am
  let startMs := unixMilli s.startTimestamp
  let endMs := unixMilli s.endTimestamp
  { traceID := idString s.traceID
    spanID := idString s.spanID
    parentSpanID := idString s.parentSpanID
    name := s.name
    startTimeMs := startMs
    endTimeMs := endMs
    durationMs := endMs - startMs
    model := model
    modelNormalized := strAttr rt attrs attrModelNormalized
    inputTokens := usage.inputTokens
    outputTokens := usage.outputTokens
    outputTokensDerived := usage.outputTokensDerived
    unmetered := usage.unmetered || boolAttr attrs attrUnmetered
    finishReason := finishReason rt attrs
    kind := spanKind rt attrs model usage.inputTokens usage.outputTokens
    costUSD := floatAttr rt attrs attrCostUSD
    userID := strAttr rt attrs attrUserID
    workspaceID := workspaceID rt attrs resource
    schemaVersion := intAttr attrs attrSchemaVersion
    errorType := (spanError rt s).1
    errorMessage := (spanError rt s).2
    workflowName := workflowName serviceName (strAttr rt attrs attrGenAIAgentName)
      (strAttr rt attrs attrTraceloopWorkflow) (strAttr rt attrs attrTraceloopEntity) s.name
    workflowVersion := sanitizeIdentifier (strAttr rt resource attrWorkflowVersion) maxVersionBytes
    serviceName := resourceServiceName serviceName
    input := (GenAI.content rt am).1
    output := (GenAI.content rt am).2
    availableTools := strAttr rt attrs attrAvailableTools
    attributes := customAttributes rt resource attrs }

/-- The rows pushTraces hands to WriteBatch. -/
def pushTraces (td : Traces F) : List (Span F) :=
  td.flatMap fun rs =>
    let serviceName := strAttr rt rs.resource attrServiceName
    rs.scopeSpans.flatMap fun spans => spans.map fun s => fromOTLP rt s serviceName rs.resource

/-! Metrics. -/

def isCumulative (m : Metric F) : Bool :=
  match m.data with
  | .histogram temporality _ => temporality == .cumulative
  | .sum temporality _ => temporality == .cumulative
  | .other => false

def numberValue (v : NumberValue F) : Int :=
  match v with
  | .empty => 0
  | .int n => n.toInt
  | .double x => (rt.truncate x).toInt

/-- usageRow: the synthetic row of one point, `none` when its count is out of range. -/
def usageRow (attrs : Attributes F) (tokens : Int) (ts : UInt64) : Option (Span F) :=
  if !tokensInRange tokens then none
  else
    let bucketMs := unixMilli ts
    let isOutput := GenAI.isOutputTokenType (strAttr rt attrs GenAI.attrTokenType)
    some
      { source := lit "metric"
        startTimeMs := bucketMs
        endTimeMs := bucketMs
        model := sanitizeIdentifier (GenAI.metricModel (strAttr rt attrs)) maxModelNameBytes
        modelNormalized := sanitizeIdentifier (strAttr rt attrs attrModelNormalized) maxModelNameBytes
        costUSD := floatAttr rt attrs attrCostUSD
        userID := sanitizeIdentifier (strAttr rt attrs attrUserID) maxUserIDBytes
        workspaceID := sanitizeIdentifier (strAttr rt attrs attrWorkspaceID) maxUserIDBytes
        schemaVersion := 1
        inputTokens := if isOutput then 0 else tokens
        outputTokens := if isOutput then tokens else 0 }

def usageRows (m : Metric F) : List (Span F) :=
  match m.data with
  | .histogram _ points =>
    points.filterMap fun dp => usageRow rt dp.attributes (rt.truncate dp.sum).toInt dp.timestamp
  | .sum _ points =>
    points.filterMap fun dp => usageRow rt dp.attributes (numberValue rt dp.value) dp.timestamp
  | .other => []

/-- The rows pushMetrics hands to WriteBatch. -/
def pushMetrics (md : Metrics F) : List (Span F) :=
  md.flatMap fun rm => rm.scopeMetrics.flatMap fun metrics => metrics.flatMap fun m =>
    if m.name ≠ GenAI.tokenUsageMetric ∨ isCumulative m then [] else usageRows rt m

end Tracium.Exporter
