import Tracium.Go.Utf8
import Tracium.ToolsJson

/-! available_tools from the span to the reader. The processor overwrites the attribute
only when the span offers tools, so with none offered GetSpans decodes whatever the
sender wrote, and one row that does not decode fails its whole trace. -/
namespace Tracium

open Go OrderedMap Processor

variable {F : Type} (rt : Platform F)

/-- GetSpans' decoding of one row; the error names the span. -/
def decodeAvailableTools (row : Span F) : Except Str (List Tool) :=
  if row.availableTools ≠ [] then
    match rt.unmarshalTools row.availableTools with
    | some tools => .ok tools
    | none => .error row.spanID
  else .ok []

/-- The row loop of GetSpans: the first row that does not decode ends it. -/
def scanSpans : List (Span F) → Except Str (List (Span F × List Tool))
  | [] => .ok []
  | row :: rows =>
    match decodeAvailableTools rt row with
    | .error err => .error err
    | .ok tools =>
      match scanSpans rows with
      | .error err => .error err
      | .ok spans => .ok ((row, tools) :: spans)

/-- The stored string is empty or decodes to the list ToolsJSON computed. -/
def DecodesToTools (s : OtlpSpan F) (row : Span F) : Prop :=
  row.availableTools = [] ∨
    rt.unmarshalTools row.availableTools = some (GenAI.toolList rt (attrMap rt s.attributes))

/-- Tools are offered and their texts are UTF-8, or none are and what the sender wrote
under the collector's key is no list either. -/
def ToolsDecodable (s : OtlpSpan F) : Prop :=
  (GenAI.offeredTools rt (attrMap rt s.attributes) ≠ [] ∧
    ∀ t ∈ GenAI.offeredTools rt (attrMap rt s.attributes),
      validString t.name = true ∧ validString t.description = true) ∨
  (GenAI.offeredTools rt (attrMap rt s.attributes) = [] ∧
    (strAttr rt s.attributes attrAvailableTools = [] ∨
      rt.unmarshalTools (strAttr rt s.attributes attrAvailableTools) = some []))

variable {rt}

theorem scanSpans_ok (rows : List (Span F))
    (decodes : ∀ row ∈ rows, ∃ tools, decodeAvailableTools rt row = .ok tools) :
    ∃ spans, scanSpans rt rows = .ok spans := by
  induction rows with
  | nil => exact ⟨[], rfl⟩
  | cons row rows ih =>
    obtain ⟨tools, first⟩ := decodes row (List.mem_cons_self ..)
    obtain ⟨spans, later⟩ := ih fun row member => decodes row (List.mem_cons_of_mem _ member)
    exact ⟨(row, tools) :: spans, by simp only [scanSpans, first, later]⟩

theorem decodeAvailableTools_ok {s : OtlpSpan F} {row : Span F} (decodes : DecodesToTools rt s row) :
    ∃ tools, decodeAvailableTools rt row = .ok tools := by
  unfold decodeAvailableTools
  rcases decodes with empty | list
  · exact ⟨[], by simp [empty]⟩
  · split
    · exact ⟨_, by rw [list]⟩
    · exact ⟨[], rfl⟩

theorem Tool.coerce_eq_iff (t : Tool) :
    t.coerce = t ↔ validString t.name = true ∧ validString t.description = true := by
  rw [← mapRunes_some_iff, ← mapRunes_some_iff]
  cases t
  simp [Tool.coerce]

theorem map_coerce_eq_iff (tools : List Tool) : tools.map Tool.coerce = tools ↔
    ∀ t ∈ tools, validString t.name = true ∧ validString t.description = true := by
  induction tools with
  | nil => simp
  | cons t rest ih => simp only [List.map_cons, List.cons.injEq, ih, Tool.coerce_eq_iff,
      List.forall_mem_cons]

/-- Marking the used tools leaves their texts alone. -/
theorem markUsed_coerce_iff (used : List Str) (tools : List Tool) :
    (GenAI.markUsed used tools).map Tool.coerce = GenAI.markUsed used tools ↔
      ∀ t ∈ tools, validString t.name = true ∧ validString t.description = true := by
  rw [map_coerce_eq_iff]
  simp [GenAI.markUsed]

theorem decodesToTools_iff (json : JsonTools rt) {p : TraciumProcessor F} {ctx : RequestContext}
    {resource : Attributes F} {s : OtlpSpan F} {row : Span F}
    (stored : storedRow rt p ctx resource s = some row) :
    DecodesToTools rt s row ↔ ToolsDecodable rt s := by
  obtain ⟨_, _, rfl⟩ := storedRow_eq_some_iff.mp stored
  rw [DecodesToTools, ToolsDecodable, row_availableTools]
  simp only [GenAI.toolsJSON]
  by_cases none : GenAI.offeredTools rt (attrMap rt s.attributes) = []
  · have list : GenAI.toolList rt (attrMap rt s.attributes) = [] := by
      simp [GenAI.toolList, none, GenAI.markUsed]
    simp only [none, list, ↓reduceIte, ne_eq, not_true_eq_false, false_and, true_and, false_or]
  · have encoded := marshalTools_ne_nil json (GenAI.toolList rt (attrMap rt s.attributes))
    simp only [none, ↓reduceIte, ne_eq, encoded, not_false_eq_true, false_or, true_and, false_and,
      or_false, json.roundTrip, Option.some.injEq]
    exact markUsed_coerce_iff _ _

theorem available_tools_decode_iff (json : JsonTools rt) :
    (∀ (p : TraciumProcessor F) ctx resource s row, storedRow rt p ctx resource s = some row →
      (DecodesToTools rt s row ↔ ToolsDecodable rt s)) ∧
    ∀ rows, (∀ row ∈ rows, ∃ (p : TraciumProcessor F) (ctx : RequestContext)
        (resource : Attributes F) (s : OtlpSpan F),
        storedRow rt p ctx resource s = some row ∧ ToolsDecodable rt s) →
      ∃ spans, scanSpans rt rows = .ok spans := by
  constructor
  · intro p ctx resource s row stored
    exact decodesToTools_iff json stored
  · intro rows trace
    apply scanSpans_ok
    intro row member
    obtain ⟨p, ctx, resource, s, stored, decodable⟩ := trace row member
    exact decodeAvailableTools_ok ((decodesToTools_iff json stored).mpr decodable)

/-- A span that offers one tool, under an attribute the sender also wrote. -/
def offeringOne : Attributes Int :=
  [(attrAvailableTools, .str (lit "not json")),
    (lit "llm.request.functions.0.name", .str (lit "search"))]

theorem offeringOne_kept : (storedRow jsonPlatform (plainProcessor true)
    (verifiedContext (lit "mine")) [] (plainSpan offeringOne)).isSome = true := by
  decide +kernel

theorem available_tools_decode_iff_offered : DecodesToTools jsonPlatform (plainSpan offeringOne)
    ((storedRow jsonPlatform (plainProcessor true) (verifiedContext (lit "mine")) []
      (plainSpan offeringOne)).get offeringOne_kept) := by
  have decodable : ToolsDecodable jsonPlatform (plainSpan offeringOne) := by
    left
    decide +kernel
  exact ((available_tools_decode_iff jsonPlatform_tools).1 _ _ _ _ _
    (Option.some_get offeringOne_kept).symm).mpr decodable

/-- A span that offers no tools. -/
def offeringNone : Attributes Int := [(attrAvailableTools, .str (lit "not json"))]

theorem offeringNone_fails :
    ∃ row, storedRow jsonPlatform (plainProcessor true) (verifiedContext (lit "mine")) []
        (plainSpan offeringNone) = some row ∧
      row.availableTools = lit "not json" ∧ ¬ DecodesToTools jsonPlatform (plainSpan offeringNone) row ∧
      ∀ rows, scanSpans jsonPlatform (row :: rows) = .error (lit "02") := by
  have kept : (storedRow jsonPlatform (plainProcessor true) (verifiedContext (lit "mine")) []
      (plainSpan offeringNone)).map (fun row => (row.availableTools, row.spanID)) =
      some (lit "not json", lit "02") := by
    decide +kernel
  obtain ⟨row, stored, columns⟩ := Option.map_eq_some_iff.mp kept
  obtain ⟨tools, span⟩ := Prod.mk.inj columns
  have undecodable : jsonPlatform.unmarshalTools (lit "not json") = none := by decide +kernel
  have nonempty : lit "not json" ≠ [] := by decide
  refine ⟨row, stored, tools, ?_, ?_⟩
  · rw [DecodesToTools, tools, undecodable]
    simp [nonempty]
  · intro rows
    simp only [scanSpans, decodeAvailableTools, tools, undecodable, span, ne_eq, nonempty,
      not_false_eq_true, ↓reduceIte]

end Tracium
