import Tracium.ToolsJson

/-! Content capture off is non-interfering: two spans that differ in content attributes
only are told apart by the unmetered flag and by the tools marked as used, nowhere else. -/
namespace Tracium

open Go OrderedMap Processor

variable {F : Type} {rt : Platform F}

/-- The drop effect without the unmetered flag of the span it records. -/
def Processor.DropEffect.forgetUnmetered : DropEffect F → DropEffect F
  | .counted code => .counted code
  | .put record => .put { record with span := record.span.withUnmetered false }

def Tool.unmarked (t : Tool) : Tool := { t with used := false }

/-- The two encoded tool lists are equal but for the used flags. -/
def SameTools (rt : Platform F) (tools tools' : Str) : Prop :=
  tools = tools' ∨ ∃ list list' : List Tool, list.map Tool.unmarked = list'.map Tool.unmarked ∧
    tools = rt.marshalTools list ∧ tools' = rt.marshalTools list'

/-- A row without the two columns content may show in. -/
def Span.maskContentUse (row : Span F) : Span F := { row with unmetered := false, availableTools := [] }

section Twins

variable {s : OtlpSpan F} {attrs resource resource' : Attributes F}
  (agree : AgreeOff GenAI.isContentKey s.attributes attrs)
  (resources : AgreeOff GenAI.isContentKey resource resource')

include agree resources

/-- Both spans are the same call to the chain, up to the unmetered flag. -/
theorem ingestModel_twin (scope : AuthScope) :
    ingestModel rt scope resource' { s with attributes := attrs } =
      (ingestModel rt scope resource s).withUnmetered
        (GenAI.usage rt (attrMap rt attrs)).unmetered := by
  have snapshots : ∀ k, GenAI.isContentKey k = false →
      attrMap rt s.attributes k = attrMap rt attrs k := fun k visible => agree.snapshot _ visible
  have reads : ∀ k, GenAI.isContentKey k = false →
      GenAI.index (attrMap rt s.attributes) k = GenAI.index (attrMap rt attrs) k :=
    fun k visible => by rw [GenAI.index, GenAI.index, snapshots k visible]
  have counts : GenAI.reconciled rt (attrMap rt s.attributes) =
      GenAI.reconciled rt (attrMap rt attrs) :=
    GenAI.reconciled_congr fun k member => snapshots k (GenAI.meterKeys_visible k member).2
  have finish : finishReason rt s.attributes = finishReason rt attrs := by
    rw [finishReason, finishReason, agree.get (by decide)]
  have user : strAttr rt resource attrUserID = strAttr rt resource' attrUserID := by
    rw [strAttr, strAttr, resources.get (by decide)]
  simp only [ingestModel, toSpanModel, Span.withUnmetered, GenAI.usage_eq]
  rw [reads attrModelRequest (by decide), reads attrModelResponse (by decide),
    reads attrUserID (by decide), counts, finish, user]

variable (rt) in
theorem chainResult_twin (p : TraciumProcessor F) (ctx : RequestContext) :
    chainResult rt p ctx resource' { s with attributes := attrs } =
      ((chainResult rt p ctx resource s).1.withUnmetered (GenAI.usage rt (attrMap rt attrs)).unmetered,
        (chainResult rt p ctx resource s).2) := by
  rw [chainResult, ingestModel_twin agree resources, defaultChain_unmetering]
  rfl

theorem processSpan_twin_kept (p : TraciumProcessor F) (ctx : RequestContext) :
    (processSpan rt p (ingestScope ctx) resource s).1.isSome =
      (processSpan rt p (ingestScope ctx) resource' { s with attributes := attrs }).1.isSome := by
  apply Bool.eq_iff_iff.mpr
  simp only [Option.isSome_iff_exists, processSpan_kept_iff, chainResult_twin rt agree resources p ctx,
    exists_and_left, exists_eq, and_true]

omit agree resources in
theorem recordDrop_forget (p : TraciumProcessor F) (m : Span F) (flag : Bool) (err : GoError) :
    (recordDrop p (m.withUnmetered flag) err).map DropEffect.forgetUnmetered =
      (recordDrop p m err).map DropEffect.forgetUnmetered := by
  simp only [recordDrop, List.map_append]
  rfl

theorem processSpan_twin_drops (p : TraciumProcessor F) (ctx : RequestContext) :
    (processSpan rt p (ingestScope ctx) resource s).2.map DropEffect.forgetUnmetered =
      (processSpan rt p (ingestScope ctx) resource' { s with attributes := attrs }).2.map
        DropEffect.forgetUnmetered := by
  have chain := chainResult_twin rt agree resources p ctx
  simp only [processSpan]
  cases (ingestScope ctx).authenticated with
  | false =>
    simp only [Bool.not_false, ↓reduceIte]
    rw [ingestModel_twin agree resources, recordDrop_forget]
  | true =>
    simp only [chainResult] at chain
    simp only [chain, Bool.not_true, Bool.false_eq_true, ↓reduceIte]
    obtain ⟨m, err⟩ := applyChain (defaultChain rt p.chain)
      (ingestModel rt (ingestScope ctx) resource s)
    cases err with
    | none => rfl
    | some err => exact (recordDrop_forget p m _ err).symm

omit resources in
theorem enrichedSpan_twin {p : TraciumProcessor F} (off : p.captureContent = false) (m m' : Span F) :
    AgreeOff isTraciumKey (enrichedSpan rt p s m).attributes
      (enrichedSpan rt p { s with attributes := attrs } m').attributes := by
  have stripped : ∀ (s : OtlpSpan F) m, AgreeOff isTraciumKey (enrichedSpan rt p s m).attributes
      (removeIf GenAI.isContentKey s.attributes) := by
    intro s m
    simpa [off] using enrichedSpan_agree_tracium p s m
  exact (stripped s m).trans (agree ▸ (stripped { s with attributes := attrs } m').symm)

omit agree resources in
theorem content_enriched {p : TraciumProcessor F} (off : p.captureContent = false) (m : Span F)
    (serviceName : Str) :
    (Exporter.fromOTLP rt (enrichedSpan rt p s m) serviceName resource).input = [] ∧
      (Exporter.fromOTLP rt (enrichedSpan rt p s m) serviceName resource).output = [] := by
  have none : GenAI.content rt (attrMap rt (enrichedSpan rt p s m).attributes) = ([], []) :=
    GenAI.content_absent fun k => attrMap_stripped p s m off
  exact ⟨congrArg Prod.fst none, congrArg Prod.snd none⟩

omit agree resources in
theorem markUsed_unmarked (used : List Str) (list : List Tool) :
    (GenAI.markUsed used list).map Tool.unmarked = list.map Tool.unmarked := by
  simp [GenAI.markUsed, Tool.unmarked, Function.comp_def]

omit resources in
/-- The same tools are offered; only which of them were called may differ. -/
theorem availableTools_twin (encodes : ∀ list, rt.marshalTools list ≠ []) (p : TraciumProcessor F)
    (m m' : Span F) (serviceName : Str) : SameTools rt
      (Exporter.fromOTLP rt (enrichedSpan rt p s m) serviceName resource).availableTools
      (Exporter.fromOTLP rt (enrichedSpan rt p { s with attributes := attrs } m') serviceName
        resource').availableTools := by
  have offered : GenAI.offeredTools rt (attrMap rt s.attributes) =
      GenAI.offeredTools rt (attrMap rt attrs) :=
    GenAI.offeredTools_congr fun k visible => agree.snapshot _ visible
  have sent : strAttr rt s.attributes attrAvailableTools = strAttr rt attrs attrAvailableTools := by
    rw [strAttr, strAttr, agree.get (by decide)]
  rw [row_availableTools, row_availableTools]
  simp only [GenAI.toolsJSON, offered, sent]
  by_cases noTools : GenAI.offeredTools rt (attrMap rt attrs) = []
  · left
    simp only [noTools, ↓reduceIte, ne_eq, not_true_eq_false]
  · right
    simp only [noTools, ↓reduceIte, ne_eq, encodes, not_false_eq_true]
    refine ⟨_, _, ?_, rfl, rfl⟩
    rw [GenAI.toolList, GenAI.toolList, markUsed_unmarked, markUsed_unmarked, offered]

theorem row_twin {p : TraciumProcessor F} (off : p.captureContent = false) (m : Span F) (flag : Bool)
    (stamped : m.workspaceID ≠ []) (serviceName : Str) :
    (Exporter.fromOTLP rt (enrichedSpan rt p s m) serviceName resource).maskContentUse =
      (Exporter.fromOTLP rt (enrichedSpan rt p { s with attributes := attrs } (m.withUnmetered flag))
        serviceName resource').maskContentUse := by
  have stamped' : (m.withUnmetered flag).workspaceID ≠ [] := stamped
  have sent : strAttr rt s.attributes attrUserID = strAttr rt attrs attrUserID := by
    rw [strAttr, strAttr, agree.get (by decide)]
  rw [fromOTLP_congr rt (enrichedSpan rt p s m) serviceName resource
    (enrichedSpan rt p { s with attributes := attrs } (m.withUnmetered flag)) resource' rfl
    (enrichedSpan_twin agree off m _) resources]
  simp only [Span.maskContentUse, Span.withTracium]
  rw [row_modelNormalized, row_costUSD, row_userID, row_workspaceID p s m _ _ stamped,
    row_schemaVersion, sent]
  congr 1
  · rw [row_costUSD]
    rfl
  · rw [row_userID]
    rfl
  · rw [row_workspaceID _ _ _ _ _ stamped']
    rfl
  · rw [row_modelNormalized]
    rfl
  · rw [row_schemaVersion]
    rfl

end Twins

/-- `encodes` holds of json.Marshal, whose encodings are never empty. -/
theorem content_off_noninterfering {p : TraciumProcessor F} {s : OtlpSpan F}
    {attrs resource resource' : Attributes F} (ctx : RequestContext)
    (encodes : ∀ list, rt.marshalTools list ≠ []) (off : p.captureContent = false)
    (agree : AgreeOff GenAI.isContentKey s.attributes attrs)
    (resources : AgreeOff GenAI.isContentKey resource resource') :
    (processSpan rt p (ingestScope ctx) resource s).1.isSome =
      (processSpan rt p (ingestScope ctx) resource' { s with attributes := attrs }).1.isSome ∧
    (processSpan rt p (ingestScope ctx) resource s).2.map DropEffect.forgetUnmetered =
      (processSpan rt p (ingestScope ctx) resource' { s with attributes := attrs }).2.map
        DropEffect.forgetUnmetered ∧
    ∀ row row', storedRow rt p ctx resource s = some row →
      storedRow rt p ctx resource' { s with attributes := attrs } = some row' →
      (row.input = [] ∧ row.output = []) ∧ (row'.input = [] ∧ row'.output = []) ∧
        row.maskContentUse = row'.maskContentUse ∧
        SameTools rt row.availableTools row'.availableTools := by
  refine ⟨processSpan_twin_kept agree resources p ctx, processSpan_twin_drops agree resources p ctx, ?_⟩
  intro row row' stored stored'
  obtain ⟨authenticated, _, rfl⟩ := storedRow_eq_some_iff.mp stored
  obtain ⟨_, _, rfl⟩ := storedRow_eq_some_iff.mp stored'
  have service : strAttr rt resource' Exporter.attrServiceName =
      strAttr rt resource Exporter.attrServiceName := by
    rw [strAttr, strAttr, resources.get (by decide)]
  rw [service, chainResult_twin rt agree resources p ctx]
  refine ⟨content_enriched off _ _, content_enriched off _ _, ?_, availableTools_twin agree encodes p _ _ _⟩
  have verified := ingestScope_workspace ctx authenticated
  rw [← chainResult_workspaceID rt p ctx resource s] at verified
  exact row_twin agree resources off _ _ verified _

/-- Two calls of one tool-offering span, one with a completion that calls the tool. -/
def offering : Attributes Int :=
  [(lit "llm.request.functions.0.name", .str (lit "search")),
    (lit "gen_ai.usage.input_tokens", .int 7)]

def calling : Attributes Int :=
  (lit "gen_ai.completion.0.tool_calls.0.name", .str (lit "search")) :: offering

theorem calling_agree : AgreeOff GenAI.isContentKey (plainSpan offering).attributes calling :=
  (List.filter_cons_of_neg (by decide)).symm

theorem offering_kept : (storedRow jsonPlatform (plainProcessor false)
    (verifiedContext (lit "mine")) [] (plainSpan offering)).isSome = true := by
  decide +kernel

theorem calling_kept : (storedRow jsonPlatform (plainProcessor false)
    (verifiedContext (lit "mine")) [] (plainSpan calling)).isSome = true := by
  decide +kernel

def offeringRow : Span Int := (storedRow jsonPlatform (plainProcessor false)
  (verifiedContext (lit "mine")) [] (plainSpan offering)).get offering_kept

def callingRow : Span Int := (storedRow jsonPlatform (plainProcessor false)
  (verifiedContext (lit "mine")) [] (plainSpan calling)).get calling_kept

/-- The completion shows in the used flag of the tool it calls and nowhere else. -/
theorem content_off_noninterfering_tools :
    offeringRow.maskContentUse = callingRow.maskContentUse ∧
    SameTools jsonPlatform offeringRow.availableTools callingRow.availableTools ∧
    offeringRow.availableTools = ToolsJson.marshal [⟨lit "search", [], false⟩] ∧
    callingRow.availableTools = ToolsJson.marshal [⟨lit "search", [], true⟩] :=
  have rows := (content_off_noninterfering (verifiedContext (lit "mine"))
    (marshalTools_ne_nil jsonPlatform_tools) rfl calling_agree rfl).2.2 _ _
      (Option.some_get offering_kept).symm (Option.some_get calling_kept).symm
  ⟨rows.2.2.1, rows.2.2.2, by decide +kernel, by decide +kernel⟩

end Tracium
