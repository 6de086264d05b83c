import Tracium.GenAI
import Tracium.Enrich

/-! traciumprocessor: the adapter that maps OTLP spans and token-usage points to the
enrichment core and writes the results back as attributes. pdata's RemoveIf is the
filter of the elements whose callback returned false, with the callback's mutations. -/
namespace Tracium.Processor

open Go

def attrModelRequest : Str := lit "gen_ai.request.model"
def attrModelResponse : Str := lit "gen_ai.response.model"
def attrFinishReason : Str := lit "gen_ai.response.finish_reasons"
def attrUserID : Str := lit "tracium.user.id"
def attrWorkspaceID : Str := lit "tracium.workspace.id"
def attrCostUSD : Str := lit "tracium.cost_usd"
def attrModelNormalized : Str := lit "tracium.model_normalized"
def attrSchemaVersion : Str := lit "tracium.schema_version"
def attrAvailableTools : Str := lit "tracium.available_tools"
def attrUnmetered : Str := lit "tracium.usage.unmetered"

/-- The client.Info attribute under which the extension puts the key's workspace. -/
def authAttrWorkspace : Str := lit "tracium.workspace"

structure AuthScope where
  authenticated : Bool
  workspace : Str
  deriving DecidableEq, Repr

/-- ingestScope: only a non-empty string attribute authenticates. -/
def ingestScope (ctx : RequestContext) : AuthScope :=
  match ctx.auth with
  | none => ⟨false, []⟩
  | some getAttribute =>
    match getAttribute authAttrWorkspace with
    | .string workspace => if workspace = [] then ⟨false, []⟩ else ⟨true, workspace⟩
    | .other => ⟨false, []⟩

variable {F : Type} (rt : Platform F)

/-- The finish reasons are an array; the first one is stored, a bare string is taken
as it is. -/
def finishReason (attrs : Attributes F) : Str :=
  match OrderedMap.get attrs attrFinishReason with
  | none => []
  | some (.slice []) => []
  | some (.slice (v :: _)) => v.asString rt
  | some v => v.asString rt

/-- The fields the chain needs. `attrs` is the snapshot of the span's attributes. -/
def toSpanModel (s : OtlpSpan F) (resource : Attributes F) (attrs : GenAI.StringMap) : Span F :=
  let model := if GenAI.index attrs attrModelRequest = [] then GenAI.index attrs attrModelResponse
    else GenAI.index attrs attrModelRequest
  let userID := if GenAI.index attrs attrUserID = [] then strAttr rt resource attrUserID
    else GenAI.index attrs attrUserID
  let startMs := unixMilli s.startTimestamp
  let endMs := unixMilli s.endTimestamp
  let usage := GenAI.usage rt attrs
  { traceID := idString s.traceID
    spanID := idString s.spanID
    parentSpanID := idString s.parentSpanID
    name := s.name
    startTimeMs := startMs
    endTimeMs := endMs
    durationMs := endMs - startMs
    model := model
    inputTokens := usage.inputTokens
    outputTokens := usage.outputTokens
    cacheReadTokens := usage.cacheReadTokens
    cacheWriteTokens := usage.cacheWriteTokens
    unmetered := usage.unmetered
    finishReason := finishReason rt s.attributes
    userID := userID
    costUSD := rt.zero }

/-- A field that is stamped only when it says something. -/
def putIf (stamp : Bool) (attrs : Attributes F) (key : Str) (v : Value F) : Attributes F :=
  if stamp then OrderedMap.put attrs key v else attrs

/-- The attributes writeBack leaves; the schema version fits int64 by its type. -/
def writeBack (attrs : Attributes F) (m : Span F) : Attributes F :=
  let attrs := OrderedMap.put attrs attrCostUSD (.double m.costUSD)
  let attrs := OrderedMap.put attrs attrModelNormalized (.str m.modelNormalized)
  let attrs := OrderedMap.put attrs attrSchemaVersion (.int (Int64.ofInt m.schemaVersion))
  let attrs := putIf (m.userID ≠ []) attrs attrUserID (.str m.userID)
  let attrs := putIf (m.workspaceID ≠ []) attrs attrWorkspaceID (.str m.workspaceID)
  putIf m.unmetered attrs attrUnmetered (.bool true)

def stampAvailableTools (attrs : Attributes F) (snapshot : GenAI.StringMap) : Attributes F :=
  let tools := GenAI.toolsJSON rt snapshot
  putIf (tools ≠ []) attrs attrAvailableTools (.str tools)

def stripContent (attrs : Attributes F) : Attributes F :=
  OrderedMap.removeIf GenAI.isContentKey attrs

/-- deadletter.Record. -/
structure Record (F : Type) where
  code : Str
  reason : Str
  span : Span F

/-- What recordDrop does outside the batch. A failing Put is only logged. -/
inductive DropEffect (F : Type) where
  | counted (code : Str)
  | put (record : Record F)

/-- traciumProcessor; `counter` is false when no meter provider is configured. -/
structure TraciumProcessor (F : Type) where
  chain : ChainConfig F
  captureContent : Bool
  counter : Bool

def dropCode (cause : GoError) : Str := if cause.code = [] then lit "unknown" else cause.code

def recordDrop (p : TraciumProcessor F) (span : Span F) (cause : GoError) : List (DropEffect F) :=
  (if p.counter then [.counted (dropCode cause)] else []) ++
    [.put ⟨dropCode cause, cause.text, span⟩]

def unauthenticatedError : GoError := .span .unauthenticated (lit "ingest requires a verified API key")

/-- The span model the chain is applied to. -/
def ingestModel (scope : AuthScope) (resource : Attributes F) (s : OtlpSpan F) : Span F :=
  { toSpanModel rt s resource (attrMap rt s.attributes) with workspaceID := scope.workspace }

/-- The span as it leaves the processor, given the enriched model. -/
def enrichedSpan (p : TraciumProcessor F) (s : OtlpSpan F) (m : Span F) : OtlpSpan F :=
  let written := stampAvailableTools rt (writeBack s.attributes m) (attrMap rt s.attributes)
  { s with attributes := if p.captureContent then written else stripContent written }

/-- The RemoveIf callback of processTraces: the span kept, if it is, and the drop effects. -/
def processSpan (p : TraciumProcessor F) (scope : AuthScope) (resource : Attributes F)
    (s : OtlpSpan F) : Option (OtlpSpan F) × List (DropEffect F) :=
  let model := ingestModel rt scope resource s
  if !scope.authenticated then (none, recordDrop p model unauthenticatedError)
  else match applyChain (defaultChain rt p.chain) model with
    | (m, some err) => (none, recordDrop p m err)
    | (m, none) => (some (enrichedSpan rt p s m), [])

def processSpans (p : TraciumProcessor F) (scope : AuthScope) (resource : Attributes F)
    (spans : List (OtlpSpan F)) : List (OtlpSpan F) × List (DropEffect F) :=
  let results := spans.map (processSpan rt p scope resource)
  (results.filterMap Prod.fst, results.flatMap Prod.snd)

def processResource (p : TraciumProcessor F) (scope : AuthScope) (rs : ResourceSpans F) :
    ResourceSpans F × List (DropEffect F) :=
  let results := rs.scopeSpans.map (processSpans rt p scope rs.resource)
  (⟨rs.resource, results.map Prod.fst⟩, results.flatMap Prod.snd)

/-- processTraces: the batch that goes on to the exporter, and the drop effects. -/
def processTraces (p : TraciumProcessor F) (ctx : RequestContext) (td : Traces F) :
    Traces F × List (DropEffect F) :=
  let results := td.map (processResource rt p (ingestScope ctx))
  (results.map Prod.fst, results.flatMap Prod.snd)

/-! Metrics. -/

structure MetricsProcessor (F : Type) where
  pricing : Option (PricingResolver F)
  user : Option UserResolver

def isCumulative (m : Metric F) : Bool :=
  match m.data with
  | .histogram temporality _ => temporality == .cumulative
  | .sum temporality _ => temporality == .cumulative
  | .other => false

def dataPointValue (v : NumberValue F) : Int :=
  match v with
  | .empty => 0
  | .int n => n.toInt
  | .double x => (rt.truncate x).toInt

def metricUser (attrs resource : Attributes F) : Str :=
  if strAttr rt attrs attrUserID ≠ [] then strAttr rt attrs attrUserID
  else strAttr rt resource attrUserID

/-- The user a point is stored under, `none` when the lookup failed. -/
def resolveMetricUser (user : Option UserResolver) (userID : Str) : Option Str :=
  match user with
  | none => some (sanitizeIdentifier userID maxUserIDBytes)
  | some resolve =>
    if userID = [] then some (sanitizeIdentifier userID maxUserIDBytes)
    else match resolve userID with
      | .error _ => none
      | .ok resolved => some (sanitizeIdentifier resolved maxUserIDBytes)

def pointCost (pricing : Option (PricingResolver F)) (modelNormalized tokenType : Str)
    (tokens : Int) : F :=
  match pricing with
  | none => rt.zero
  | some resolve =>
    if modelNormalized = [] then rt.zero
    else
      let usage : PricingUsage :=
        if GenAI.isOutputTokenType tokenType then { output := tokens } else { input := tokens }
      match resolve modelNormalized usage with
      | .error _ => rt.zero
      | .ok cost => cost

/-- enrichPoint: the stamped attributes of a kept point, `none` for a dropped one. -/
def enrichPoint (p : MetricsProcessor F) (attrs : Attributes F) (tokens : Int)
    (resource : Attributes F) (workspace : Str) : Option (Attributes F) :=
  if !tokensInRange tokens then none
  else match resolveMetricUser p.user (metricUser rt attrs resource) with
    | none => none
    | some userID =>
      let modelNormalized := normalizeModel rt (GenAI.metricModel (strAttr rt attrs))
      let cost := pointCost rt p.pricing modelNormalized (strAttr rt attrs GenAI.attrTokenType) tokens
      let attrs := OrderedMap.put attrs attrCostUSD (.double cost)
      let attrs := OrderedMap.put attrs attrModelNormalized (.str modelNormalized)
      let attrs := putIf (userID ≠ []) attrs attrUserID (.str userID)
      some (OrderedMap.put attrs attrWorkspaceID (.str workspace))

/-- enrichPoints on the two supported instruments. -/
def enrichPoints (p : MetricsProcessor F) (resource : Attributes F) (workspace : Str) :
    MetricData F → MetricData F
  | .histogram temporality points => .histogram temporality <| points.filterMap fun dp =>
      (enrichPoint rt p dp.attributes (rt.truncate dp.sum).toInt resource workspace).map
        fun attrs => { dp with attributes := attrs }
  | .sum temporality points => .sum temporality <| points.filterMap fun dp =>
      (enrichPoint rt p dp.attributes (dataPointValue rt dp.value) resource workspace).map
        fun attrs => { dp with attributes := attrs }
  | .other => .other

def isSupported : MetricData F → Bool
  | .other => false
  | _ => true

/-- The RemoveIf callback of processMetrics. -/
def processMetric (p : MetricsProcessor F) (scope : AuthScope) (resource : Attributes F)
    (m : Metric F) : Option (Metric F) :=
  if m.name ≠ GenAI.tokenUsageMetric then some m
  else if !scope.authenticated then none
  else if !isSupported m.data then none
  else if isCumulative m then none
  else some { m with data := enrichPoints rt p resource scope.workspace m.data }

def processMetrics (p : MetricsProcessor F) (ctx : RequestContext) (md : Metrics F) : Metrics F :=
  md.map fun rm => { rm with
    scopeMetrics := rm.scopeMetrics.map fun metrics =>
      metrics.filterMap (processMetric rt p (ingestScope ctx) rm.resource) }

end Tracium.Processor
