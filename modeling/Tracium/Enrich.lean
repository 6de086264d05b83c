import Tracium.Otlp

/-! The framework-free core of the collector: ingest bounds, the canonical span, its
errors, and the enrichment chain DefaultChain assembles. An enricher mutates the span
in place, so it returns the span also when it fails. -/
namespace Tracium

open Go

/-! Ingest bounds. -/

def maxTokensPerCall : Int := 100000000
def maxModelNameBytes : Nat := 256
def maxUserIDBytes : Nat := 128
def maxVersionBytes : Nat := 128

def tokensInRange (n : Int) : Bool := 0 ≤ n && n ≤ maxTokensPerCall

/-- SanitizeIdentifier. -/
def sanitizeIdentifier (s : Str) (maxBytes : Nat) : Str :=
  let clean := mapRunes (fun r => if isControl r then none else some r) (trimSpace s)
  if clean.length ≤ maxBytes then clean else toValidUTF8 (clean.take maxBytes)

/-! The canonical span and its errors. -/

/-- spanmodel.Span. `attributes` is `none` for Go's nil map; `reportedCostUSD` is left
out, since no code sets or reads it. -/
structure Span (F : Type) where
  traceID : Str := []
  spanID : Str := []
  parentSpanID : Str := []
  name : Str := []
  startTimeMs : Int := 0
  endTimeMs : Int := 0
  durationMs : Int := 0
  model : Str := []
  inputTokens : Int := 0
  outputTokens : Int := 0
  finishReason : Str := []
  cacheReadTokens : Int := 0
  cacheWriteTokens : Int := 0
  costUSD : F
  userID : Str := []
  workspaceID : Str := []
  modelNormalized : Str := []
  schemaVersion : Int := 0
  errorType : Str := []
  errorMessage : Str := []
  workflowName : Str := []
  serviceName : Str := []
  workflowVersion : Str := []
  source : Str := []
  input : Str := []
  output : Str := []
  availableTools : Str := []
  outputTokensDerived : Bool := false
  unmetered : Bool := false
  kind : Str := []
  attributes : Option (List (Str × Str)) := none

inductive SpanErrorCode where
  | missingTraceID
  | missingSpanID
  | invalidTimestamp
  | unknownModel
  | tokenCountOutOfRange
  | fieldTooLong
  | unauthenticated
  deriving DecidableEq, Repr

def SpanErrorCode.text : SpanErrorCode → Str
  | .missingTraceID => lit "missing_trace_id"
  | .missingSpanID => lit "missing_span_id"
  | .invalidTimestamp => lit "invalid_timestamp"
  | .unknownModel => lit "unknown_model"
  | .tokenCountOutOfRange => lit "token_count_out_of_range"
  | .fieldTooLong => lit "field_too_long"
  | .unauthenticated => lit "unauthenticated"

inductive TransientErrorCode where
  | userLookupFailed
  deriving DecidableEq, Repr

def TransientErrorCode.text : TransientErrorCode → Str
  | .userLookupFailed => lit "user_lookup_failed"

/-- A Go error: a SpanError (never built with a cause), a TransientError with its
cause, or an error of another type. -/
inductive GoError where
  | span (code : SpanErrorCode) (message : Str)
  | transient (code : TransientErrorCode) (message : Str) (cause : GoError)
  | other (text : Str)
  deriving DecidableEq, Repr

/-- `err.Error()`. -/
def GoError.text : GoError → Str
  | .span code message => lit "span error [" ++ code.text ++ lit "]: " ++ message
  | .transient code message cause =>
    lit "transient error [" ++ code.text ++ lit "]: " ++ message ++ lit ": " ++ cause.text
  | .other text => text

/-- errors.As for *SpanError along the chain of causes. -/
def GoError.spanCode : GoError → Option SpanErrorCode
  | .span code _ => some code
  | .transient _ _ cause => cause.spanCode
  | .other _ => none

def GoError.transientCode : GoError → Option TransientErrorCode
  | .span _ _ => none
  | .transient code _ _ => some code
  | .other _ => none

/-- customerrors.Code. -/
def GoError.code (err : GoError) : Str :=
  match err.spanCode with
  | some code => code.text
  | none =>
    match err.transientCode with
    | some code => code.text
    | none => []

/-! The chain. -/

/-- pricing.Usage. -/
structure PricingUsage where
  input : Int := 0
  output : Int := 0
  cacheRead : Int := 0
  cacheCreation : Int := 0
  deriving DecidableEq, Repr

abbrev PricingResolver (F : Type) := Str → PricingUsage → Except GoError F
abbrev UserResolver := Str → Except GoError Str

abbrev Enricher (F : Type) := Span F → Span F × Option GoError

section Chain

variable {F : Type}

/-- Chain.Apply: the first error stops the chain. -/
def applyChain : List (Enricher F) → Span F → Span F × Option GoError
  | [], span => (span, none)
  | e :: rest, span =>
    match e span with
    | (span', some err) => (span', some err)
    | (span', none) => applyChain rest span'

/-- The check ValidateEnricher makes, without the span it leaves alone. -/
def validateError (span : Span F) : Option GoError :=
  if span.traceID = [] then some (.span .missingTraceID (lit "trace_id is empty"))
  else if span.spanID = [] then some (.span .missingSpanID (lit "span_id is empty"))
  else if span.startTimeMs ≤ 0 then
    some (.span .invalidTimestamp
      (lit "start_time_ms must be positive, got " ++ itoa span.startTimeMs))
  else if span.endTimeMs ≠ 0 ∧ span.endTimeMs < span.startTimeMs then
    some (.span .invalidTimestamp (lit "end_time_ms " ++ itoa span.endTimeMs ++
      lit " precedes start_time_ms " ++ itoa span.startTimeMs))
  else if span.model.length > maxModelNameBytes then
    some (.span .fieldTooLong (lit "model name is " ++ natString span.model.length ++
      lit " bytes, limit is " ++ natString maxModelNameBytes))
  else
    [(lit "input_tokens", span.inputTokens), (lit "output_tokens", span.outputTokens),
      (lit "cache_read_tokens", span.cacheReadTokens),
      (lit "cache_write_tokens", span.cacheWriteTokens)].findSome? fun tc =>
        if tc.2 > maxTokensPerCall then
          some (.span .tokenCountOutOfRange (tc.1 ++ lit " is " ++ itoa tc.2 ++
            lit ", limit is " ++ itoa maxTokensPerCall))
        else none

def validateEnricher : Enricher F := fun span => (span, validateError span)

def normalizeModel (rt : Platform F) (model : Str) : Str :=
  sanitizeIdentifier (toLower rt.toLowerRune model) maxModelNameBytes

def normalizeModelEnricher (rt : Platform F) : Enricher F := fun span =>
  ({ span with
      modelNormalized := normalizeModel rt span.model
      schemaVersion := if span.schemaVersion = 0 then 1 else span.schemaVersion }, none)

def userEnricher (resolver : Option UserResolver) : Enricher F := fun span =>
  let clean := sanitizeIdentifier span.userID maxUserIDBytes
  let span := { span with userID := clean }
  match resolver with
  | none => (span, none)
  | some resolve =>
    if clean = [] then (span, none)
    else match resolve clean with
      | .error err => (span, some (.transient .userLookupFailed (lit "failed to resolve user") err))
      | .ok userID => ({ span with userID := userID }, none)

def pricingEnricher (rt : Platform F) (resolver : Option (PricingResolver F)) : Enricher F := fun span =>
  match resolver with
  | none => (span, none)
  | some resolve =>
    if span.modelNormalized = [] then (span, none)
    else
      let usage : PricingUsage := ⟨span.inputTokens, span.outputTokens, span.cacheReadTokens,
        span.cacheWriteTokens⟩
      match resolve span.modelNormalized usage with
      | .error _ => ({ span with costUSD := rt.zero }, none)
      | .ok cost => ({ span with costUSD := cost }, none)

/-- FilterEnricher; the allow-list is sanitised once by NewFilterEnricher. -/
def filterEnricher (rt : Platform F) (allowedModels : List Str) : Enricher F := fun span =>
  let allowed := allowedModels.map (normalizeModel rt)
  if allowed = [] then (span, none)
  else
    let model := if span.modelNormalized = [] then span.model else span.modelNormalized
    if allowed.contains model then (span, none)
    else (span, some (.span .unknownModel
      (lit "model " ++ rt.quote model ++ lit " is not in the allowed list")))

/-- What an operator configures: the resolvers may be absent and the allow-list empty. -/
structure ChainConfig (F : Type) where
  pricing : Option (PricingResolver F)
  user : Option UserResolver
  allowedModels : List Str

/-- DefaultChain, in its canonical order. -/
def defaultChain (rt : Platform F) (cfg : ChainConfig F) : List (Enricher F) :=
  [validateEnricher, normalizeModelEnricher rt, userEnricher cfg.user,
    pricingEnricher rt cfg.pricing, filterEnricher rt cfg.allowedModels]

end Chain

end Tracium
