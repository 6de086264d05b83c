import Tracium.Otlp

/-! The genai package: which attributes carry content, and how content, token usage
and the tool list are read off a span's attribute map. -/
namespace Tracium.GenAI

open Go

def attrInputMessages : Str := lit "gen_ai.input.messages"
def attrOutputMessages : Str := lit "gen_ai.output.messages"
def attrSystemInstructions : Str := lit "gen_ai.system_instructions"
def attrToolDefinitions : Str := lit "gen_ai.tool.definitions"
def prefixPrompt : Str := lit "gen_ai.prompt."
def prefixCompletion : Str := lit "gen_ai.completion."
def prefixFunctions : Str := lit "llm.request.functions."
def attrEntityInput : Str := lit "traceloop.entity.input"
def attrEntityOutput : Str := lit "traceloop.entity.output"

def maxIndex : Nat := 256
def maxToolDefsBytes : Nat := 1048576

/-- IsContentKey: the key carries raw prompt or completion text. -/
def isContentKey (key : Str) : Bool :=
  key == attrInputMessages || key == attrOutputMessages || key == attrSystemInstructions ||
    key == attrEntityInput || key == attrEntityOutput ||
    hasPrefix key prefixPrompt || hasPrefix key prefixCompletion

/-- A Go `map[string]string`, read by lookups only. -/
abbrev StringMap := Str → Option Str

/-- `attrs[key]`, the zero value when absent. -/
def index (attrs : StringMap) (key : Str) : Str := (attrs key).getD []

/-- renderIndexed from index `i` on, for at most `fuel` indices: stops at the first
index with neither a role nor a content. -/
def renderIndexedFrom (attrs : StringMap) (pre : Str) : Nat → Nat → Str
  | 0, _ => []
  | fuel + 1, i =>
    let role := attrs (pre ++ natString i ++ lit ".role")
    let content := attrs (pre ++ natString i ++ lit ".content")
    if role.isNone && content.isNone then []
    else
      (if role.getD [] ≠ [] then role.getD [] ++ lit ": " else []) ++ content.getD [] ++ lit "\n" ++
        renderIndexedFrom attrs pre fuel (i + 1)

def renderIndexed (attrs : StringMap) (pre : Str) : Str := renderIndexedFrom attrs pre maxIndex 0

def renderMessage (m : Message) : Str :=
  (if m.role ≠ [] then m.role ++ lit ": " else []) ++
    (if m.parts.length > 0 then
      m.parts.flatMap fun p => if p.content ≠ [] then p.content else p.text
    else m.content) ++ lit "\n"

section Reading

variable {F : Type} (rt : Platform F)

/-- Text that is not the expected JSON is returned unchanged. -/
def renderMessages (jsonStr : Str) : Str :=
  match rt.unmarshalMessages jsonStr with
  | none => jsonStr
  | some msgs => msgs.flatMap renderMessage

def inputText (attrs : StringMap) : Str :=
  let sys := index attrs attrSystemInstructions
  let msgs := index attrs attrInputMessages
  let built := (if sys ≠ [] then lit "system: " ++ sys ++ lit "\n" else []) ++
    (if msgs ≠ [] then renderMessages rt msgs else renderIndexed attrs prefixPrompt)
  let text := trimRightByte 0x0A built
  if text ≠ [] then text else index attrs attrEntityInput

def outputText (attrs : StringMap) : Str :=
  let msgs := index attrs attrOutputMessages
  if msgs ≠ [] then trimRightByte 0x0A (renderMessages rt msgs)
  else
    let text := trimRightByte 0x0A (renderIndexed attrs prefixCompletion)
    if text ≠ [] then text else index attrs attrEntityOutput

/-- Content: the flattened prompt and completion. -/
def content (attrs : StringMap) : Str × Str := (inputText rt attrs, outputText rt attrs)

/-! Token usage. -/

def attrInputTokens : Str := lit "gen_ai.usage.input_tokens"
def attrPromptTokens : Str := lit "gen_ai.usage.prompt_tokens"
def attrLLMPromptTokens : Str := lit "llm.usage.prompt_tokens"
def attrOutputTokens : Str := lit "gen_ai.usage.output_tokens"
def attrCompletionTokens : Str := lit "gen_ai.usage.completion_tokens"
def attrLLMCompletionTokens : Str := lit "llm.usage.completion_tokens"
def attrCacheReadDotted : Str := lit "gen_ai.usage.cache_read.input_tokens"
def attrCacheReadUnderscore : Str := lit "gen_ai.usage.cache_read_input_tokens"
def attrCacheCreationDotted : Str := lit "gen_ai.usage.cache_creation.input_tokens"
def attrCacheCreationUnderscore : Str := lit "gen_ai.usage.cache_creation_input_tokens"
def attrTotalTokens : Str := lit "gen_ai.usage.total_tokens"
def attrLLMTotalTokens : Str := lit "llm.usage.total_tokens"
def attrCostGenAI : Str := lit "gen_ai.usage.cost"
def attrCostLLM : Str := lit "llm.usage.total_cost"
def attrGenAIStreaming : Str := lit "gen_ai.is_streaming"
def attrLLMStreaming : Str := lit "llm.is_streaming"
def attrModelRequest : Str := lit "gen_ai.request.model"
def attrModelResponse : Str := lit "gen_ai.response.model"

structure TokenUsage (F : Type) where
  inputTokens : Int
  outputTokens : Int
  cacheReadTokens : Int
  cacheWriteTokens : Int
  reportedCostUSD : F
  outputTokensDerived : Bool
  unmetered : Bool

/-- A count arrives as an integer or as a float-formatted integer; anything else is 0. -/
def parseInt (s : Str) : Int :=
  if s = [] then 0
  else match parseInt64 s with
    | some n => n
    | none =>
      match rt.parseFloat s with
      | some f => (rt.truncate f).toInt
      | none => 0

/-- The first positive count among the keys: a zero does not mask a later key. -/
def firstInt (attrs : StringMap) : List Str → Int
  | [] => 0
  | k :: keys =>
    let n := parseInt rt (index attrs k)
    if n > 0 then n else firstInt attrs keys

def firstFloat (attrs : StringMap) : List Str → F
  | [] => rt.zero
  | k :: keys =>
    match rt.parseFloat (index attrs k) with
    | some f => if rt.isPositive f then f else firstFloat attrs keys
    | none => firstFloat attrs keys

/-- reconcileOutput: what the reported total leaves unexplained is counted as output.
Go subtracts and adds in wrapping int64. -/
def TokenUsage.reconcileOutput (u : TokenUsage F) (attrs : StringMap) : TokenUsage F :=
  let total := firstInt rt attrs [attrTotalTokens, attrLLMTotalTokens]
  if total = 0 ∨ u.inputTokens = 0 then u
  else
    let remainder := wrap64 (wrap64 (wrap64 (wrap64 (total - u.inputTokens) - u.outputTokens) -
      u.cacheReadTokens) - u.cacheWriteTokens)
    if remainder ≤ 0 then u
    else { u with outputTokens := wrap64 (u.outputTokens + remainder), outputTokensDerived := true }

def isTrue (s : Str) : Bool := s == lit "true"

/-- A streamed model call that returned a completion but carries no usage at all. -/
def unmetered (attrs : StringMap) (u : TokenUsage F) : Bool :=
  if u.inputTokens > 0 ∨ u.outputTokens > 0 ∨ u.cacheReadTokens > 0 ∨ u.cacheWriteTokens > 0 ∨
      rt.isPositive u.reportedCostUSD then false
  else if !isTrue (index attrs attrGenAIStreaming) && !isTrue (index attrs attrLLMStreaming) then false
  else if index attrs attrModelRequest = [] ∧ index attrs attrModelResponse = [] then false
  else decide (outputText rt attrs ≠ [])

/-- The counts as reported, before any reconciliation. -/
def reported (attrs : StringMap) : TokenUsage F where
  inputTokens := firstInt rt attrs [attrInputTokens, attrPromptTokens, attrLLMPromptTokens]
  outputTokens := firstInt rt attrs [attrOutputTokens, attrCompletionTokens, attrLLMCompletionTokens]
  cacheReadTokens := firstInt rt attrs [attrCacheReadDotted, attrCacheReadUnderscore]
  cacheWriteTokens := firstInt rt attrs [attrCacheCreationDotted, attrCacheCreationUnderscore]
  reportedCostUSD := firstFloat rt attrs [attrCostGenAI, attrCostLLM]
  outputTokensDerived := false
  unmetered := false

/-- Usage. -/
def usage (attrs : StringMap) : TokenUsage F :=
  let u := (reported rt attrs).reconcileOutput rt attrs
  { u with unmetered := unmetered rt attrs u }

/-! The tool list. -/

/-- toolDefinitions' loop: unnamed entries are skipped, at most `maxIndex` are kept. -/
def collectDefinitions (list : List Tool) : List ToolDefinition → List Tool
  | [] => list
  | d :: rest =>
    if list.length = maxIndex then list
    else
      let name := if d.name = [] then d.functionName else d.name
      let desc := if d.name = [] then d.functionDescription else d.description
      if name = [] then collectDefinitions list rest
      else collectDefinitions (list ++ [⟨name, desc, false⟩]) rest

def toolDefinitions (jsonStr : Str) : List Tool :=
  if jsonStr = [] ∨ jsonStr.length > maxToolDefsBytes then []
  else match rt.unmarshalToolDefinitions jsonStr with
    | none => []
    | some defs => collectDefinitions [] defs

def indexedToolDefinitionsFrom (attrs : StringMap) : Nat → Nat → List Tool
  | 0, _ => []
  | fuel + 1, i =>
    let name := attrs (prefixFunctions ++ natString i ++ lit ".name")
    let desc := attrs (prefixFunctions ++ natString i ++ lit ".description")
    if name.isNone && desc.isNone then []
    else ⟨name.getD [], desc.getD [], false⟩ :: indexedToolDefinitionsFrom attrs fuel (i + 1)

def indexedToolDefinitions (attrs : StringMap) : List Tool :=
  indexedToolDefinitionsFrom attrs maxIndex 0

def completionIndexPresent (attrs : StringMap) (ci : Str) : Bool :=
  [lit ".role", lit ".content", lit ".finish_reason", lit ".tool_calls.0.name",
    lit ".tool_calls.0.function.name"].any fun suffix => (attrs (ci ++ suffix)).isSome

/-- The tool calls of one completion, from call `j` on. -/
def completionToolNames (attrs : StringMap) (ci : Str) : Nat → Nat → List Str
  | 0, _ => []
  | fuel + 1, j =>
    let base := ci ++ lit ".tool_calls." ++ natString j
    match (attrs (base ++ lit ".name")).or (attrs (base ++ lit ".function.name")) with
    | none => []
    | some name =>
      (if name ≠ [] then [name] else []) ++ completionToolNames attrs ci fuel (j + 1)

def indexedToolNamesFrom (attrs : StringMap) : Nat → Nat → List Str
  | 0, _ => []
  | fuel + 1, i =>
    let ci := prefixCompletion ++ natString i
    if !completionIndexPresent attrs ci then []
    else completionToolNames attrs ci maxIndex 0 ++ indexedToolNamesFrom attrs fuel (i + 1)

def messageToolNames (m : CallMessage) : List Str :=
  (m.parts.filter fun p => contains p.type (lit "tool") && p.name ≠ []).map CallPart.name ++
    m.toolCalls.flatMap fun tc =>
      (if tc.name ≠ [] then [tc.name] else []) ++
        (if tc.functionName ≠ [] then [tc.functionName] else [])

def toolNamesFromMessages (jsonStr : Str) : List Str :=
  if jsonStr = [] then []
  else match rt.unmarshalCallMessages jsonStr with
    | none => []
    | some msgs => msgs.flatMap messageToolNames

/-- The set of used tool names, as the list of its insertions. -/
def usedToolNames (attrs : StringMap) : List Str :=
  indexedToolNamesFrom attrs maxIndex 0 ++ toolNamesFromMessages rt (index attrs attrOutputMessages)

/-- The tools a span offers, before marking which were used. -/
def offeredTools (attrs : StringMap) : List Tool :=
  let list := toolDefinitions rt (index attrs attrToolDefinitions)
  if list = [] then indexedToolDefinitions attrs else list

def markUsed (used : List Str) (list : List Tool) : List Tool :=
  list.map fun t => { t with used := used.contains t.name }

/-- The list ToolsJSON encodes. -/
def toolList (attrs : StringMap) : List Tool :=
  markUsed (usedToolNames rt attrs) (offeredTools rt attrs)

/-- ToolsJSON; json.Marshal has no error case at this type. -/
def toolsJSON (attrs : StringMap) : Str :=
  if offeredTools rt attrs = [] then [] else rt.marshalTools (toolList rt attrs)

end Reading

/-! Metric points. -/

def tokenUsageMetric : Str := lit "gen_ai.client.token.usage"
def attrTokenType : Str := lit "gen_ai.token.type"

def metricModelKeys : List Str := [attrModelResponse, lit "llm.response.model", attrModelRequest]

/-- MetricModel: the first non-empty model attribute. -/
def metricModel (get : Str → Str) : Str :=
  ((metricModelKeys.map get).find? fun v => decide (v ≠ [])).getD []

def isOutputTokenType (tokenType : Str) : Bool := equalFoldWord tokenType (lit "output")

end Tracium.GenAI
