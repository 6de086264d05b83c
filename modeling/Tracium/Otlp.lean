import Tracium.Go.Strconv
import Tracium.OrderedMap

/-! The OTLP data the collector receives, as pdata presents it, and the library code
it is read through. Floating point, JSON and the Unicode case table are parameters of
`Platform`: every result holds for whatever they compute. -/
namespace Tracium

open Go

/-- pcommon.Value; `F` stands for float64. -/
inductive Value (F : Type) where
  | empty
  | str (s : Str)
  | bool (b : Bool)
  | int (n : Int64)
  | double (x : F)
  | bytes (b : Str)
  | slice (values : List (Value F))
  | map (entries : List (Str × Value F))

/-- pcommon.Map keeps wire order and does not reject duplicate keys. -/
abbrev Attributes (F : Type) := List (Str × Value F)

/-- One entry of the available_tools list (genai.Tool, and model.AvailableTool on the
reading side). -/
structure Tool where
  name : Str
  description : Str
  used : Bool
  deriving DecidableEq, Repr

/-- The element shape json.Unmarshal fills for gen_ai.tool.definitions. -/
structure ToolDefinition where
  name : Str
  description : Str
  functionName : Str
  functionDescription : Str
  deriving DecidableEq, Repr

structure MessagePart where
  content : Str
  text : Str
  deriving DecidableEq, Repr

/-- The subset of the GenAI message schema that is rendered. -/
structure Message where
  role : Str
  content : Str
  parts : List MessagePart
  deriving DecidableEq, Repr

structure CallPart where
  type : Str
  name : Str
  deriving DecidableEq, Repr

structure ToolCall where
  name : Str
  functionName : Str
  deriving DecidableEq, Repr

/-- The subset of the message schema that carries tool calls. -/
structure CallMessage where
  parts : List CallPart
  toolCalls : List ToolCall
  deriving DecidableEq, Repr

/-- Library code outside the repository. A decoder returns `none` for an error. -/
structure Platform (F : Type) where
  zero : F
  isPositive : F → Bool
  /-- The conversion int64(f). -/
  truncate : F → Int64
  /-- strconv.ParseFloat(s, 64). -/
  parseFloat : Str → Option F
  /-- strconv.Quote, as `%q` prints a string. -/
  quote : Str → Str
  toLowerRune : Nat → Nat
  doubleString : F → Str
  bytesString : Str → Str
  sliceString : List (Value F) → Str
  mapString : Attributes F → Str
  unmarshalToolDefinitions : Str → Option (List ToolDefinition)
  unmarshalMessages : Str → Option (List Message)
  unmarshalCallMessages : Str → Option (List CallMessage)
  marshalTools : List Tool → Str
  unmarshalTools : Str → Option (List Tool)

/-- A platform to run the model on: the doubles are the integral ones, and text that is
not JSON is all the JSON decoders see. -/
def plainPlatform : Platform Int where
  zero := 0
  isPositive := fun x => 0 < x
  truncate := Int64.ofInt
  parseFloat := parseInt64
  quote := fun s => lit "\"" ++ s ++ lit "\""
  toLowerRune := fun r => if 0x41 ≤ r ∧ r ≤ 0x5A then r + 0x20 else r
  doubleString := itoa
  bytesString := id
  sliceString := fun _ => lit "[]"
  mapString := fun _ => lit "\x7b\x7d"
  unmarshalToolDefinitions := fun _ => none
  unmarshalMessages := fun _ => none
  unmarshalCallMessages := fun _ => none
  marshalTools := fun _ => lit "[]"
  unmarshalTools := fun _ => none

variable {F : Type}

/-- Value.AsString. -/
def Value.asString (rt : Platform F) : Value F → Str
  | .empty => []
  | .str s => s
  | .bool true => lit "true"
  | .bool false => lit "false"
  | .int n => itoa n.toInt
  | .double x => rt.doubleString x
  | .bytes b => rt.bytesString b
  | .slice values => rt.sliceString values
  | .map entries => rt.mapString entries

/-- The typed getters return the zero value when the value has another type. -/
def Value.intValue : Value F → Int
  | .int n => n.toInt
  | _ => 0

def Value.doubleValue (rt : Platform F) : Value F → F
  | .double x => x
  | _ => rt.zero

/-- `v.Type() == ValueTypeBool && v.Bool()`. -/
def Value.isTrueBool : Value F → Bool
  | .bool b => b
  | _ => false

@[simp] theorem Value.asString_str (rt : Platform F) (s : Str) : (Value.str s).asString rt = s := rfl

def strAttr (rt : Platform F) (attrs : Attributes F) (key : Str) : Str :=
  match OrderedMap.get attrs key with
  | some v => v.asString rt
  | none => []

def intAttr (attrs : Attributes F) (key : Str) : Int :=
  match OrderedMap.get attrs key with
  | some v => v.intValue
  | none => 0

def boolAttr (attrs : Attributes F) (key : Str) : Bool :=
  match OrderedMap.get attrs key with
  | some v => v.isTrueBool
  | none => false

def floatAttr (rt : Platform F) (attrs : Attributes F) (key : Str) : F :=
  match OrderedMap.get attrs key with
  | some v => v.doubleValue rt
  | none => rt.zero

/-- A span's attributes as a plain string map: the last duplicate wins, where
`strAttr` reads the first. -/
def attrMap (rt : Platform F) (attrs : Attributes F) : Str → Option Str :=
  OrderedMap.snapshot (Value.asString rt) attrs

theorem attrMap_eq_strAttr (rt : Platform F) (attrs : Attributes F)
    (distinct : OrderedMap.DistinctKeys attrs) (key : Str) :
    (attrMap rt attrs key).getD [] = strAttr rt attrs key := by
  rw [attrMap, OrderedMap.snapshot_of_distinct _ _ distinct, strAttr]
  cases OrderedMap.get attrs key <;> rfl

def hexDigit (n : Nat) : UInt8 := if n < 10 then UInt8.ofNat (0x30 + n) else UInt8.ofNat (0x57 + n)

/-- TraceID and SpanID print as hex, an all-zero id as the empty string. -/
def idString (id : List UInt8) : Str :=
  if id.all (· == 0) then [] else id.flatMap fun b => [hexDigit (b.toNat / 16), hexDigit (b.toNat % 16)]

/-- `Timestamp.AsTime().UnixMilli()`: the uint64 nanoseconds are read as int64, and
UnixMilli rounds down. -/
def unixMilli (ts : UInt64) : Int := wrap64 ts.toNat / 1000000

inductive StatusCode where
  | unset
  | ok
  | error
  deriving DecidableEq, Repr

structure Event (F : Type) where
  name : Str
  attributes : Attributes F

/-- ptrace.Span. -/
structure OtlpSpan (F : Type) where
  traceID : List UInt8
  spanID : List UInt8
  parentSpanID : List UInt8
  name : Str
  startTimestamp : UInt64
  endTimestamp : UInt64
  statusCode : StatusCode
  statusMessage : Str
  events : List (Event F)
  attributes : Attributes F

structure ResourceSpans (F : Type) where
  resource : Attributes F
  scopeSpans : List (List (OtlpSpan F))

abbrev Traces (F : Type) := List (ResourceSpans F)

inductive Temporality where
  | unspecified
  | delta
  | cumulative
  deriving DecidableEq, Repr

structure HistogramPoint (F : Type) where
  attributes : Attributes F
  sum : F
  timestamp : UInt64

inductive NumberValue (F : Type) where
  | empty
  | int (n : Int64)
  | double (x : F)

structure NumberPoint (F : Type) where
  attributes : Attributes F
  value : NumberValue F
  timestamp : UInt64

/-- Gauges, summaries and exponential histograms are never read: only their type is. -/
inductive MetricData (F : Type) where
  | histogram (temporality : Temporality) (points : List (HistogramPoint F))
  | sum (temporality : Temporality) (points : List (NumberPoint F))
  | other

structure Metric (F : Type) where
  name : Str
  data : MetricData F

structure ResourceMetrics (F : Type) where
  resource : Attributes F
  scopeMetrics : List (List (Metric F))

abbrev Metrics (F : Type) := List (ResourceMetrics F)

/-- What a client.AuthData attribute holds: a Go string, or any other dynamic type. -/
inductive AuthAttribute where
  | string (s : Str)
  | other
  deriving DecidableEq, Repr

/-- The part of the request context the collector reads: client.Info.Auth, nil when
no authenticator ran. -/
structure RequestContext where
  auth : Option (Str → AuthAttribute)

end Tracium
