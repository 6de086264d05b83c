import Tracium.GroupBy
import Tracium.TreeLayout

/-! trace-explorer: the view of one trace. Spans are shown in tree pre-order, whatever
their parent links are. An absent string reads as the empty one, and the numbers that are
compared or added are whole. -/
namespace Tracium.Dashboard

open OrderedMap GroupBy

inductive SpanType where
  | agent | llm | tool | chain | retriever | embedding | internal
  deriving DecidableEq

/-- The collector's classification of a span. -/
inductive Kind where
  | agent | llm | tool | chain | retriever | embedding
  deriving DecidableEq

def Kind.toSpanType : Kind → SpanType
  | .agent => .agent
  | .llm => .llm
  | .tool => .tool
  | .chain => .chain
  | .retriever => .retriever
  | .embedding => .embedding

structure Span (F : Type) where
  spanId : String
  parentSpanId : String
  name : String
  startTimeMs : Int
  durationMs : Int
  model : String
  modelNormalized : String
  finishReason : String
  inputTokens : Int
  outputTokens : Int
  costUsd : F
  subtreeCostUsd : F
  subtreeInputTokens : Int
  subtreeOutputTokens : Int
  errorType : String
  errorMessage : String
  kind : Option Kind
  input : Option String
  output : Option String
  deriving DecidableEq

structure Trace (F : Type) where
  traceId : String
  name : String
  startTimeMs : Int
  endTimeMs : Int
  durationMs : Int
  userId : String
  hasError : Bool
  totalCostUsd : F
  spans : List (Span F)

structure TraceError where
  type : String
  message : String
  code : String
  stack : String

inductive SpanStatus where
  | ok | failed

inductive TraceStatus where
  | completed | failed

structure SpanDetail (F : Type) where
  id : String
  name : String
  type : SpanType
  start : Int
  duration : Int
  depth : Nat
  cost : F
  subtreeCost : F
  childCount : Nat
  tokens : Int
  subtreeTokens : Int
  inputTokens : Int
  outputTokens : Int
  status : SpanStatus
  error : Option TraceError
  attributes : List (String × String)
  input : Option String
  output : Option String

structure TraceDetail (F : Type) where
  id : String
  workflow : String
  status : TraceStatus
  startedAt : String
  endedAt : String
  duration : Int
  totalCost : F
  inputTokens : Int
  outputTokens : Int
  model : String
  user : Option String
  input : Option String
  output : Option String
  spans : List (SpanDetail F)
  error : Option TraceError

variable {F : Type}

def isLlmSpan (span : Span F) : Bool :=
  span.model ≠ "" || span.inputTokens > 0 || span.outputTokens > 0

def spanType (span : Span F) (isRoot : Bool) (parent : Option (Span F)) : SpanType :=
  match span.kind with
  | some kind => kind.toSpanType
  | none =>
    if isRoot then .agent
    else if isLlmSpan span then .llm
    else if parent.any isLlmSpan then .tool
    else .internal

def spanAttributes (span : Span F) : List (String × String) :=
  [("llm.model", span.model), ("llm.model_normalized", span.modelNormalized),
    ("finish_reason", span.finishReason)].filter fun e => e.2 ≠ ""

def byId (spans : List (Span F)) : List (String × Span F) :=
  spans.foldl (fun m s => put m s.spanId s) []

def isRoot (spans : List (Span F)) (s : Span F) : Bool :=
  s.parentSpanId = "" || (get (byId spans) s.parentSpanId).isNone

/-- The key of childrenOf that a span is filed under. -/
def groupKey (spans : List (Span F)) (s : Span F) : String :=
  if isRoot spans s then "" else s.parentSpanId

def byStart (spans : List (Span F)) : List (Span F) :=
  spans.mergeSort fun a b => a.startTimeMs - b.startTimeMs ≤ 0

def childrenOf (spans : List (Span F)) : List (String × List (Span F)) :=
  (collect (groupKey spans) spans).map fun group => (group.1, byStart group.2)

def childrenAt (spans : List (Span F)) (id : String) : List (Span F) :=
  (get (childrenOf spans) id).getD []

/-- The spans with their depths in the order of display: first the trees under the roots,
then a tree at every span that is still missing. Fuel bounds the depth of the recursion. -/
def ordered (fuel : Nat) (spans : List (Span F)) : Option (List (Span F × Nat)) :=
  (TreeWalk.visitAll Span.spanId (childrenAt spans) fuel ⟨[], []⟩ (childrenAt spans "") 0).bind
    fun w => (TreeWalk.visitAll Span.spanId (childrenAt spans) fuel w spans 0).map
      TreeWalk.Walk.ordered

def failed (s : Span F) : Bool := s.errorType ≠ "" || s.errorMessage ≠ ""

def spanDetail (trace : Trace F) (s : Span F) (depth : Nat) : SpanDetail F :=
  { id := s.spanId
    name := s.name
    type := spanType s (isRoot trace.spans s) (get (byId trace.spans) s.parentSpanId)
    start := s.startTimeMs - trace.startTimeMs
    duration := s.durationMs
    depth := depth
    cost := s.costUsd
    subtreeCost := s.subtreeCostUsd
    childCount := (childrenAt trace.spans s.spanId).length
    tokens := s.inputTokens + s.outputTokens
    subtreeTokens := s.subtreeInputTokens + s.subtreeOutputTokens
    inputTokens := s.inputTokens
    outputTokens := s.outputTokens
    status := if failed s then .failed else .ok
    error := if failed s then
      some ⟨if s.errorType ≠ "" then s.errorType else "error", s.errorMessage, "", ""⟩ else none
    attributes := spanAttributes s
    input := s.input
    output := s.output }

/-- A text that is there and not empty. -/
def present (text : Option String) : Bool := text.any fun t => t ≠ ""

def toTraceView (formatDateTime : Int → String) (fuel : Nat) (trace : Trace F) :
    Option (TraceDetail F) :=
  (ordered fuel trace.spans).map fun ordered =>
    let spans := ordered.map fun e => spanDetail trace e.1 e.2
    let root := trace.spans.find? (isRoot trace.spans)
    let earliest := (byStart trace.spans).find? fun s => present s.input
    let latest := (byStart trace.spans).reverse.find? fun s => present s.output
    let rootInput := root.bind Span.input
    let rootOutput := root.bind Span.output
    { id := trace.traceId
      workflow := if trace.name ≠ "" then trace.name else "Untitled trace"
      status := if trace.hasError then .failed else .completed
      startedAt := formatDateTime trace.startTimeMs
      endedAt := formatDateTime trace.endTimeMs
      duration := trace.durationMs
      totalCost := trace.totalCostUsd
      inputTokens := trace.spans.foldl (fun sum s => sum + s.inputTokens) 0
      outputTokens := trace.spans.foldl (fun sum s => sum + s.outputTokens) 0
      model := String.intercalate ", " ((trace.spans.map Span.model).filter fun m => m ≠ "").eraseDups
      user := if trace.userId ≠ "" then some trace.userId else none
      input := if present rootInput then rootInput else earliest.bind Span.input
      output := if present rootOutput then rootOutput else latest.bind Span.output
      spans := spans
      error := (spans.find? fun s => s.error.isSome).bind SpanDetail.error }

end Tracium.Dashboard
