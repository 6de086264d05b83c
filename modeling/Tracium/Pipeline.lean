import Tracium.Chain
import Tracium.Metering
import Tracium.Exporter

/-! The trace pipeline: processTraces followed by pushTraces. The processor writes only
tracium keys and removes only content keys, so a stored row reads every other attribute
as the sender sent it; the tracium columns are read back one by one. -/
namespace Tracium

open Go OrderedMap Processor

variable {F : Type} (rt : Platform F)

/-- The row one received span ends up as, `none` when the processor drops it. -/
def storedRow (p : TraciumProcessor F) (ctx : RequestContext) (resource : Attributes F)
    (s : OtlpSpan F) : Option (Span F) :=
  (processSpan rt p (ingestScope ctx) resource s).1.map fun out =>
    Exporter.fromOTLP rt out (strAttr rt resource Exporter.attrServiceName) resource

/-- The span model after the chain, and the chain's error. -/
def chainResult (p : TraciumProcessor F) (ctx : RequestContext) (resource : Attributes F)
    (s : OtlpSpan F) : Span F × Option GoError :=
  applyChain (defaultChain rt p.chain) (ingestModel rt (ingestScope ctx) resource s)

/-- The attributes after writeBack and stampAvailableTools, before content is stripped. -/
def written (s : OtlpSpan F) (m : Span F) : Attributes F :=
  stampAvailableTools rt (writeBack s.attributes m) (attrMap rt s.attributes)

variable {rt}

theorem processSpan_kept_iff {p : TraciumProcessor F} {ctx : RequestContext}
    {resource : Attributes F} {s out : OtlpSpan F} :
    (processSpan rt p (ingestScope ctx) resource s).1 = some out ↔
      (ingestScope ctx).authenticated = true ∧ (chainResult rt p ctx resource s).2 = none ∧
        out = enrichedSpan rt p s (chainResult rt p ctx resource s).1 := by
  simp only [processSpan, chainResult]
  cases (ingestScope ctx).authenticated with
  | false => simp
  | true =>
    obtain ⟨m, err⟩ := applyChain (defaultChain rt p.chain)
      (ingestModel rt (ingestScope ctx) resource s)
    cases err <;> simp [eq_comm]

/-- A stored row is the exporter's reading of the enriched span. -/
theorem storedRow_eq_some_iff {p : TraciumProcessor F} {ctx : RequestContext}
    {resource : Attributes F} {s : OtlpSpan F} {row : Span F} :
    storedRow rt p ctx resource s = some row ↔
      (ingestScope ctx).authenticated = true ∧ (chainResult rt p ctx resource s).2 = none ∧
        row = Exporter.fromOTLP rt (enrichedSpan rt p s (chainResult rt p ctx resource s).1)
          (strAttr rt resource Exporter.attrServiceName) resource := by
  simp only [storedRow, Option.map_eq_some_iff, processSpan_kept_iff]
  constructor
  · rintro ⟨_, ⟨authenticated, accepted, rfl⟩, rfl⟩
    exact ⟨authenticated, accepted, rfl⟩
  · rintro ⟨authenticated, accepted, rfl⟩
    exact ⟨_, ⟨authenticated, accepted, rfl⟩, rfl⟩

/-- Batch structure is irrelevant to what is stored: the rows are the stored rows of the
batch's spans, in order. -/
theorem pushTraces_processTraces (p : TraciumProcessor F) (ctx : RequestContext) (td : Traces F) :
    Exporter.pushTraces rt (processTraces rt p ctx td).1 = td.flatMap fun rs =>
      rs.scopeSpans.flatMap fun spans => spans.filterMap (storedRow rt p ctx rs.resource) := by
  simp only [Exporter.pushTraces, processTraces, processResource, processSpans, List.flatMap_map,
    List.map_map, Function.comp_def, List.filterMap_map, List.map_filterMap]
  rfl

theorem ingestScope_workspace (ctx : RequestContext)
    (authenticated : (ingestScope ctx).authenticated = true) : (ingestScope ctx).workspace ≠ [] := by
  unfold ingestScope at authenticated ⊢
  split at authenticated
  · cases authenticated
  · split at authenticated
    · split at authenticated
      · cases authenticated
      · next getAttribute workspace _ nonempty => simp_all
    · cases authenticated

/-- The chain leaves all but the enriched fields of the ingested model alone. -/
theorem chainResult_framed (p : TraciumProcessor F) (ctx : RequestContext) (resource : Attributes F)
    (s : OtlpSpan F) : (chainResult rt p ctx resource s).1 =
      (ingestModel rt (ingestScope ctx) resource s).withEnriched (chainResult rt p ctx resource s).1 :=
  defaultChain_framed p.chain _

variable (rt) in
theorem chainResult_workspaceID (p : TraciumProcessor F) (ctx : RequestContext)
    (resource : Attributes F) (s : OtlpSpan F) :
    (chainResult rt p ctx resource s).1.workspaceID = (ingestScope ctx).workspace := by
  rw [chainResult_framed]
  rfl

variable (rt) in
theorem chainResult_unmetered (p : TraciumProcessor F) (ctx : RequestContext)
    (resource : Attributes F) (s : OtlpSpan F) : (chainResult rt p ctx resource s).1.unmetered =
      (GenAI.usage rt (attrMap rt s.attributes)).unmetered := by
  rw [chainResult_framed]
  rfl

/-- A request whose key was verified for `workspace`. -/
def verifiedContext (workspace : Str) : RequestContext :=
  ⟨some fun k => if k = authAttrWorkspace then .string workspace else .other⟩

/-- A span that passes ValidateEnricher, with the given attributes. -/
def plainSpan (attrs : Attributes Int) : OtlpSpan Int where
  traceID := [1]
  spanID := [2]
  parentSpanID := []
  name := lit "chat"
  startTimestamp := 1000000
  endTimestamp := 2000000
  statusCode := .unset
  statusMessage := []
  events := []
  attributes := attrs

/-- No resolvers, no allow-list, content kept or stripped. -/
def plainProcessor (captureContent : Bool) : TraciumProcessor Int :=
  ⟨⟨none, none, []⟩, captureContent, false⟩

/-! Reading stamped keys back. -/

@[simp] theorem get_putIf_same (stamp : Bool) (attrs : Attributes F) (k : Str) (v : Value F) :
    get (putIf stamp attrs k v) k = if stamp then some v else get attrs k := by
  cases stamp <;> simp [putIf]

theorem get_putIf_other (stamp : Bool) (attrs : Attributes F) {k other : Str} (v : Value F)
    (h : k ≠ other) : get (putIf stamp attrs k v) other = get attrs other := by
  cases stamp
  · rfl
  · exact get_put_other attrs v h

theorem AgreeOff.putIf_hidden {p : Str → Bool} {attrs attrs' : Attributes F}
    (agree : AgreeOff p attrs attrs') (stamp : Bool) (hidden : p k = true) (v : Value F) :
    AgreeOff p (putIf stamp attrs k v) attrs' := by
  cases stamp
  · exact agree
  · exact agree.put_hidden hidden v

/-- Everything the processor writes is in the tracium namespace. -/
theorem written_agree (s : OtlpSpan F) (m : Span F) :
    AgreeOff isTraciumKey (written rt s m) s.attributes := by
  have cost := (AgreeOff.refl isTraciumKey s.attributes).put_hidden (k := attrCostUSD) (by decide)
    (.double m.costUSD)
  have model := cost.put_hidden (k := attrModelNormalized) (by decide) (.str m.modelNormalized)
  have schema := model.put_hidden (k := attrSchemaVersion) (by decide)
    (.int (Int64.ofInt m.schemaVersion))
  have user := AgreeOff.putIf_hidden (k := attrUserID) schema (m.userID ≠ []) (by decide)
    (.str m.userID)
  have workspace := AgreeOff.putIf_hidden (k := attrWorkspaceID) user (m.workspaceID ≠ [])
    (by decide) (.str m.workspaceID)
  have unmetered := AgreeOff.putIf_hidden (k := attrUnmetered) workspace m.unmetered (by decide)
    (.bool true)
  exact AgreeOff.putIf_hidden (k := attrAvailableTools) unmetered _ (by decide) _

/-- The keys under which an enriched span may differ from the received one. -/
def touched (p : TraciumProcessor F) (k : Str) : Bool :=
  isTraciumKey k || (!p.captureContent && GenAI.isContentKey k)

theorem enrichedSpan_attributes (p : TraciumProcessor F) (s : OtlpSpan F) (m : Span F) :
    (enrichedSpan rt p s m).attributes =
      removeIf (fun k => !p.captureContent && GenAI.isContentKey k) (written rt s m) := by
  cases capture : p.captureContent with
  | false => simp [enrichedSpan, capture, written, stripContent]
  | true => simp [enrichedSpan, capture, written, removeIf]

/-- Outside the tracium namespace, enrichment is the removal of content. -/
theorem enrichedSpan_agree_tracium (p : TraciumProcessor F) (s : OtlpSpan F) (m : Span F) :
    AgreeOff isTraciumKey (enrichedSpan rt p s m).attributes
      (removeIf (fun k => !p.captureContent && GenAI.isContentKey k) s.attributes) := by
  rw [enrichedSpan_attributes]
  exact (written_agree s m).removeIf_subset

theorem enrichedSpan_agree (p : TraciumProcessor F) (s : OtlpSpan F) (m : Span F) :
    AgreeOff (touched p) (enrichedSpan rt p s m).attributes s.attributes := by
  have untouched : AgreeOff (touched p) (written rt s m) s.attributes :=
    (written_agree s m).mono fun k tracium => by simp [touched, tracium]
  have stripped : removeIf (touched p) (enrichedSpan rt p s m).attributes =
      removeIf (touched p) (written rt s m) := by
    rw [enrichedSpan_attributes]
    simp only [removeIf, List.filter_filter]
    apply List.filter_congr
    intro e _
    cases tracium : isTraciumKey e.1 <;> simp [touched, tracium]
  exact stripped.trans untouched

/-- Stripping content never removes a tracium key. -/
theorem get_enriched_tracium (p : TraciumProcessor F) (s : OtlpSpan F) (m : Span F)
    (tracium : isTraciumKey k = true) :
    get (enrichedSpan rt p s m).attributes k = get (written rt s m) k := by
  have notContent : GenAI.isContentKey k = false := by
    by_contra content
    have apart := GenAI.isTraciumKey_of_content (Bool.not_eq_false _ ▸ content)
    simp [tracium] at apart
  rw [enrichedSpan_attributes, get_removeIf]
  simp [notContent]

/-! The tracium columns of a row. -/

theorem strAttr_stamped {attrs attrs' : Attributes F} (stamp : Prop) [Decidable stamp] (v : Str)
    (stamped : get attrs k = if stamp then some (.str v) else get attrs' k) :
    strAttr rt attrs k = if stamp then v else strAttr rt attrs' k := by
  rw [strAttr, stamped]
  by_cases stamp <;> simp [*, strAttr]

variable (p : TraciumProcessor F) (s : OtlpSpan F) (m : Span F) (serviceName : Str)
  (resource : Attributes F)

theorem row_costUSD : (Exporter.fromOTLP rt (enrichedSpan rt p s m) serviceName resource).costUSD =
    m.costUSD := by
  have stamped : get (written rt s m) attrCostUSD = some (.double m.costUSD) := by
    simp (disch := decide) only [written, stampAvailableTools, writeBack, get_putIf_other,
      get_put_other, get_put_same]
  change floatAttr rt (enrichedSpan rt p s m).attributes attrCostUSD = _
  rw [floatAttr, get_enriched_tracium p s m (by decide), stamped]
  rfl

theorem row_modelNormalized :
    (Exporter.fromOTLP rt (enrichedSpan rt p s m) serviceName resource).modelNormalized =
      m.modelNormalized := by
  have stamped : get (written rt s m) attrModelNormalized = some (.str m.modelNormalized) := by
    simp (disch := decide) only [written, stampAvailableTools, writeBack, get_putIf_other,
      get_put_other, get_put_same]
  change strAttr rt (enrichedSpan rt p s m).attributes attrModelNormalized = _
  rw [strAttr, get_enriched_tracium p s m (by decide), stamped]
  rfl

theorem row_schemaVersion :
    (Exporter.fromOTLP rt (enrichedSpan rt p s m) serviceName resource).schemaVersion =
      (Int64.ofInt m.schemaVersion).toInt := by
  have stamped : get (written rt s m) attrSchemaVersion =
      some (.int (Int64.ofInt m.schemaVersion)) := by
    simp (disch := decide) only [written, stampAvailableTools, writeBack, get_putIf_other,
      get_put_same]
  change intAttr (enrichedSpan rt p s m).attributes attrSchemaVersion = _
  rw [intAttr, get_enriched_tracium p s m (by decide), stamped]
  rfl

theorem row_userID :
    (Exporter.fromOTLP rt (enrichedSpan rt p s m) serviceName resource).userID =
      if m.userID ≠ [] then m.userID else strAttr rt s.attributes attrUserID := by
  have stamped : get (written rt s m) attrUserID =
      if m.userID ≠ [] then some (.str m.userID) else get s.attributes attrUserID := by
    simp (disch := decide) only [written, stampAvailableTools, writeBack, get_putIf_other,
      get_put_other, get_putIf_same, decide_eq_true_eq]
  rw [← get_enriched_tracium p s m (by decide)] at stamped
  exact strAttr_stamped _ _ stamped

/-- The resource's workspace is not consulted once the processor stamped one. -/
theorem row_workspaceID (stamped : m.workspaceID ≠ []) :
    (Exporter.fromOTLP rt (enrichedSpan rt p s m) serviceName resource).workspaceID =
      m.workspaceID := by
  have written : get (written rt s m) attrWorkspaceID = some (.str m.workspaceID) := by
    simp (disch := decide) only [written, stampAvailableTools, writeBack, get_putIf_other,
      get_putIf_same, stamped, ne_eq, not_false_eq_true, decide_true, ↓reduceIte]
  have read : strAttr rt (enrichedSpan rt p s m).attributes attrWorkspaceID = m.workspaceID := by
    rw [strAttr, get_enriched_tracium p s m (by decide), written]
    rfl
  change Exporter.workspaceID rt (enrichedSpan rt p s m).attributes resource = _
  simp only [Exporter.workspaceID]
  rw [show Exporter.attrWorkspaceID = attrWorkspaceID from rfl, read, if_pos stamped]

theorem boolAttr_unmetered : boolAttr (enrichedSpan rt p s m).attributes attrUnmetered =
    (m.unmetered || boolAttr s.attributes attrUnmetered) := by
  have stamped : get (written rt s m) attrUnmetered =
      if m.unmetered then some (.bool true) else get s.attributes attrUnmetered := by
    simp (disch := decide) only [written, stampAvailableTools, writeBack, get_putIf_other,
      get_put_other, get_putIf_same]
  rw [boolAttr, get_enriched_tracium p s m (by decide), stamped]
  cases m.unmetered <;> rfl

/-- With no tools offered, the sender's own value goes through. -/
theorem row_availableTools :
    (Exporter.fromOTLP rt (enrichedSpan rt p s m) serviceName resource).availableTools =
      if GenAI.toolsJSON rt (attrMap rt s.attributes) ≠ [] then
        GenAI.toolsJSON rt (attrMap rt s.attributes)
      else strAttr rt s.attributes attrAvailableTools := by
  have stamped : get (written rt s m) attrAvailableTools =
      if GenAI.toolsJSON rt (attrMap rt s.attributes) ≠ [] then
        some (.str (GenAI.toolsJSON rt (attrMap rt s.attributes)))
      else get s.attributes attrAvailableTools := by
    simp (disch := decide) only [written, stampAvailableTools, writeBack, get_putIf_other,
      get_put_other, get_putIf_same, decide_eq_true_eq]
  rw [← get_enriched_tracium p s m (by decide)] at stamped
  exact strAttr_stamped _ _ stamped

/-! The metered columns of a row. -/

theorem attrMap_enriched (untouched : touched p k = false) :
    attrMap rt (enrichedSpan rt p s m).attributes k = attrMap rt s.attributes k :=
  (enrichedSpan_agree p s m).snapshot _ untouched

theorem get_enriched (untouched : touched p k = false) :
    get (enrichedSpan rt p s m).attributes k = get s.attributes k :=
  (enrichedSpan_agree p s m).get untouched

theorem strAttr_enriched (untouched : touched p k = false) :
    strAttr rt (enrichedSpan rt p s m).attributes k = strAttr rt s.attributes k := by
  rw [strAttr, strAttr, get_enriched p s m untouched]

/-- With capture off no content key is left for the exporter to read. -/
theorem attrMap_stripped (off : p.captureContent = false) (content : GenAI.isContentKey k = true) :
    attrMap rt (enrichedSpan rt p s m).attributes k = none := by
  rw [attrMap, enrichedSpan_attributes, snapshot_removeIf]
  simp [off, content]

/-- Counts are read from keys the processor does not touch. -/
theorem reconciled_enriched :
    GenAI.reconciled rt (attrMap rt (enrichedSpan rt p s m).attributes) =
      GenAI.reconciled rt (attrMap rt s.attributes) := by
  apply GenAI.reconciled_congr
  intro k member
  obtain ⟨tracium, content⟩ := GenAI.meterKeys_visible k member
  exact attrMap_enriched p s m (by simp [touched, tracium, content])

/-- The flag the completion implied before it was stripped survives as the stamped
attribute; the exporter also believes a flag the sender set. -/
theorem row_unmetered
    (inferred : m.unmetered = (GenAI.usage rt (attrMap rt s.attributes)).unmetered) :
    (Exporter.fromOTLP rt (enrichedSpan rt p s m) serviceName resource).unmetered =
      (m.unmetered || boolAttr s.attributes attrUnmetered) := by
  have read : (GenAI.usage rt (attrMap rt (enrichedSpan rt p s m).attributes)).unmetered = true →
      m.unmetered = true := by
    intro again
    cases capture : p.captureContent with
    | true =>
      have same : GenAI.usage rt (attrMap rt (enrichedSpan rt p s m).attributes) =
          GenAI.usage rt (attrMap rt s.attributes) :=
        GenAI.usage_congr fun k visible => attrMap_enriched p s m (by simp [touched, visible, capture])
      rw [inferred, ← same, again]
    | false =>
      rw [GenAI.usage_eq, GenAI.unmetered_absent fun k => attrMap_stripped p s m capture] at again
      cases again
  change ((GenAI.usage rt (attrMap rt (enrichedSpan rt p s m).attributes)).unmetered ||
    boolAttr (enrichedSpan rt p s m).attributes attrUnmetered) = _
  rw [boolAttr_unmetered]
  generalize (GenAI.usage rt (attrMap rt (enrichedSpan rt p s m).attributes)).unmetered = again at read
  cases again
  · rfl
  · simp [read rfl]

/-! Rows of spans that agree outside the tracium namespace. -/

theorem isDeniedAttr_of_tracium (tracium : isTraciumKey k = true) : Exporter.isDeniedAttr k = true := by
  unfold isTraciumKey at tracium
  simp [Exporter.isDeniedAttr, Exporter.attrDenyPrefixes, tracium]

theorem isDeniedAttr_of_content (content : GenAI.isContentKey k = true) :
    Exporter.isDeniedAttr k = true := by
  simp only [GenAI.isContentKey, Bool.or_eq_true, beq_iff_eq] at content
  rcases content with (((((rfl | rfl) | rfl) | rfl) | rfl) | prompt) | completion
  · decide
  · decide
  · decide
  · decide
  · decide
  · obtain ⟨rest, rfl⟩ := hasPrefix_iff.mp prompt
    rfl
  · obtain ⟨rest, rfl⟩ := hasPrefix_iff.mp completion
    rfl

/-- Denied entries never reach the custom attributes. -/
theorem foldl_addAttr_removeIf (denied : ∀ k, q k = true → Exporter.isDeniedAttr k = true)
    (attrs : Attributes F) (out : List (Str × Str)) :
    attrs.foldl (Exporter.addAttr rt) out = (removeIf q attrs).foldl (Exporter.addAttr rt) out := by
  induction attrs generalizing out with
  | nil => rfl
  | cons e rest ih =>
    cases hidden : q e.1 with
    | true =>
      have skipped : Exporter.addAttr rt out e = out := by
        simp [Exporter.addAttr, Exporter.isCustomKey, denied e.1 hidden]
      rw [removeIf, List.filter_cons_of_neg (by simp [hidden]), List.foldl_cons, skipped]
      exact ih out
    | false =>
      rw [removeIf, List.filter_cons_of_pos (by simp [hidden]), List.foldl_cons, List.foldl_cons]
      exact ih _

theorem customAttributes_congr {attrs attrs' resource resource' : Attributes F}
    (agree : AgreeOff isTraciumKey attrs attrs')
    (resources : AgreeOff GenAI.isContentKey resource resource') :
    Exporter.customAttributes rt resource attrs = Exporter.customAttributes rt resource' attrs' := by
  have onResource : ∀ attrs : Attributes F, attrs.foldl (Exporter.addAttr rt) [] =
      (removeIf GenAI.isContentKey attrs).foldl (Exporter.addAttr rt) [] :=
    fun attrs => foldl_addAttr_removeIf (fun _ => isDeniedAttr_of_content) attrs []
  have onSpan : ∀ (attrs : Attributes F) out, attrs.foldl (Exporter.addAttr rt) out =
      (removeIf isTraciumKey attrs).foldl (Exporter.addAttr rt) out :=
    fun attrs out => foldl_addAttr_removeIf (fun _ => isDeniedAttr_of_tracium) attrs out
  simp only [Exporter.customAttributes]
  rw [onResource resource, onResource resource', onSpan attrs, onSpan attrs', resources, agree]

/-- The columns read from the tracium namespace, taken from `other`. -/
def Span.withTracium (row other : Span F) : Span F :=
  { row with
      modelNormalized := other.modelNormalized
      costUSD := other.costUSD
      userID := other.userID
      workspaceID := other.workspaceID
      schemaVersion := other.schemaVersion
      availableTools := other.availableTools
      unmetered := other.unmetered }

variable (rt) in
/-- Outside its tracium columns a row does not depend on the tracium attributes, nor on
the content attributes of the resource. -/
theorem fromOTLP_congr (s' : OtlpSpan F) (resource' : Attributes F)
    (others : { s with attributes := s'.attributes } = s')
    (agree : AgreeOff isTraciumKey s.attributes s'.attributes)
    (resources : AgreeOff GenAI.isContentKey resource resource') :
    Exporter.fromOTLP rt s serviceName resource =
      (Exporter.fromOTLP rt s' serviceName resource').withTracium
        (Exporter.fromOTLP rt s serviceName resource) := by
  generalize s'.attributes = attrs at others agree
  subst others
  have reads : ∀ k, isTraciumKey k = false → strAttr rt s.attributes k = strAttr rt attrs k :=
    fun k visible => by rw [strAttr, strAttr, agree.get visible]
  have snapshots : ∀ k, isTraciumKey k = false → attrMap rt s.attributes k = attrMap rt attrs k :=
    fun k visible => agree.snapshot _ visible
  have usage : GenAI.usage rt (attrMap rt s.attributes) = GenAI.usage rt (attrMap rt attrs) :=
    GenAI.usage_congr snapshots
  have content : GenAI.content rt (attrMap rt s.attributes) = GenAI.content rt (attrMap rt attrs) :=
    GenAI.content_congr fun k content => snapshots k (GenAI.isTraciumKey_of_content content)
  have finish : Exporter.finishReason rt s.attributes = Exporter.finishReason rt attrs := by
    rw [Exporter.finishReason, Exporter.finishReason, agree.get (by decide)]
  have version : strAttr rt resource Exporter.attrWorkflowVersion =
      strAttr rt resource' Exporter.attrWorkflowVersion := by
    rw [strAttr, strAttr, resources.get (by decide)]
  have custom : Exporter.customAttributes rt resource s.attributes =
      Exporter.customAttributes rt resource' attrs := customAttributes_congr agree resources
  simp only [Exporter.fromOTLP, Span.withTracium, Exporter.spanKind, Exporter.spanError]
  rw [reads Exporter.attrModelRequest (by decide), reads Exporter.attrModelResponse (by decide),
    reads Exporter.attrOpenInferenceKind (by decide), reads Exporter.attrTraceloopKind (by decide),
    reads Exporter.attrGenAIOperation (by decide), reads Exporter.attrGenAIAgentName (by decide),
    reads Exporter.attrTraceloopWorkflow (by decide), reads Exporter.attrTraceloopEntity (by decide),
    usage, content, finish, version, custom]

end Tracium
