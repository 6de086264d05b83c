import Tracium.Pipeline

/-! Workspace isolation of ingest: whatever workspace attributes a sender puts on a
span, a data point or a resource, rows are written to the verified key's workspace only. -/
namespace Tracium

open Go OrderedMap Processor

variable {F : Type} {rt : Platform F}

/-! Traces. -/

theorem storedRow_authenticated {p : TraciumProcessor F} {ctx : RequestContext}
    {resource : Attributes F} {s : OtlpSpan F} {row : Span F}
    (stored : storedRow rt p ctx resource s = some row) : (ingestScope ctx).authenticated = true :=
  (storedRow_eq_some_iff.mp stored).1

theorem storedRow_workspaceID {p : TraciumProcessor F} {ctx : RequestContext}
    {resource : Attributes F} {s : OtlpSpan F} {row : Span F}
    (stored : storedRow rt p ctx resource s = some row) :
    row.workspaceID = (ingestScope ctx).workspace := by
  obtain ⟨authenticated, _, rfl⟩ := storedRow_eq_some_iff.mp stored
  have verified := ingestScope_workspace ctx authenticated
  rw [← chainResult_workspaceID rt p ctx resource s] at verified ⊢
  exact row_workspaceID p s _ _ resource verified

theorem mem_pushTraces {p : TraciumProcessor F} {ctx : RequestContext} {td : Traces F} {row : Span F}
    (member : row ∈ Exporter.pushTraces rt (processTraces rt p ctx td).1) :
    ∃ resource s, storedRow rt p ctx resource s = some row := by
  rw [pushTraces_processTraces] at member
  simp only [List.mem_flatMap, List.mem_filterMap] at member
  obtain ⟨rs, _, spans, _, s, _, stored⟩ := member
  exact ⟨rs.resource, s, stored⟩

/-! Metrics. -/

/-- A row comes from a point of a token-usage metric that processMetrics passed on. -/
theorem mem_pushMetrics {p : MetricsProcessor F} {ctx : RequestContext} {md : Metrics F}
    {row : Span F} (member : row ∈ Exporter.pushMetrics rt (processMetrics rt p ctx md)) :
    ∃ resource m m', processMetric rt p (ingestScope ctx) resource m = some m' ∧
      m'.name = GenAI.tokenUsageMetric ∧ row ∈ Exporter.usageRows rt m' := by
  simp only [Exporter.pushMetrics, processMetrics, List.mem_flatMap, List.mem_map] at member
  obtain ⟨_, ⟨rm, _, rfl⟩, _, scope, m', kept, exported⟩ := member
  obtain ⟨metrics, _, rfl⟩ := List.mem_map.mp scope
  obtain ⟨m, _, processed⟩ := List.mem_filterMap.mp kept
  split at exported
  · cases exported
  · next usage =>
    rw [not_or, not_not] at usage
    exact ⟨rm.resource, m, m', processed, usage.1, exported⟩

/-- A token-usage metric passes only authenticated and with enriched points. -/
theorem processMetric_tokenUsage {p : MetricsProcessor F} {scope : AuthScope}
    {resource : Attributes F} {m m' : Metric F} (processed : processMetric rt p scope resource m = some m')
    (usage : m'.name = GenAI.tokenUsageMetric) : scope.authenticated = true ∧
      m'.data = enrichPoints rt p resource scope.workspace m.data := by
  unfold processMetric at processed
  split at processed
  · next other =>
    cases processed
    exact absurd usage other
  · split at processed
    · cases processed
    · next authenticated =>
      split at processed
      · cases processed
      · split at processed
        · cases processed
        · cases processed
          exact ⟨by simpa using authenticated, rfl⟩

/-- The workspace is stamped last, over whatever the sender put there. -/
theorem enrichPoint_workspace {p : MetricsProcessor F} {attrs attrs' resource : Attributes F}
    {tokens : Int} {workspace : Str}
    (enriched : enrichPoint rt p attrs tokens resource workspace = some attrs') :
    strAttr rt attrs' Exporter.attrWorkspaceID = workspace := by
  unfold enrichPoint at enriched
  split at enriched
  · cases enriched
  · split at enriched
    · cases enriched
    · cases enriched
      rw [strAttr, show Exporter.attrWorkspaceID = attrWorkspaceID from rfl, get_put_same]
      rfl

theorem usageRow_workspaceID {attrs : Attributes F} {tokens : Int} {ts : UInt64} {row : Span F}
    (stored : Exporter.usageRow rt attrs tokens ts = some row) :
    row.workspaceID = sanitizeIdentifier (strAttr rt attrs Exporter.attrWorkspaceID) maxUserIDBytes := by
  unfold Exporter.usageRow at stored
  split at stored
  · cases stored
  · rw [← Option.some.inj stored]

theorem usageRows_workspaceID {p : MetricsProcessor F} {resource : Attributes F} {workspace : Str}
    {data : MetricData F} {m' : Metric F} (enriched : m'.data = enrichPoints rt p resource workspace data)
    {row : Span F} (member : row ∈ Exporter.usageRows rt m') :
    row.workspaceID = sanitizeIdentifier workspace maxUserIDBytes := by
  unfold Exporter.usageRows at member
  cases data with
  | other => simp [enriched, enrichPoints] at member
  | histogram temporality points =>
    simp only [enriched, enrichPoints, List.mem_filterMap, Option.map_eq_some_iff] at member
    obtain ⟨_, ⟨dp, _, attrs, stamped, rfl⟩, stored⟩ := member
    rw [usageRow_workspaceID stored, enrichPoint_workspace stamped]
  | sum temporality points =>
    simp only [enriched, enrichPoints, List.mem_filterMap, Option.map_eq_some_iff] at member
    obtain ⟨_, ⟨dp, _, attrs, stamped, rfl⟩, stored⟩ := member
    rw [usageRow_workspaceID stored, enrichPoint_workspace stamped]

/-! Both pipelines. -/

theorem ingest_isolated (p : TraciumProcessor F) (mp : MetricsProcessor F) (ctx : RequestContext)
    (td : Traces F) (md : Metrics F) :
    ((ingestScope ctx).authenticated = false →
      Exporter.pushTraces rt (processTraces rt p ctx td).1 = [] ∧
        Exporter.pushMetrics rt (processMetrics rt mp ctx md) = []) ∧
    ∀ workspace, ingestScope ctx = ⟨true, workspace⟩ →
      sanitizeIdentifier workspace maxUserIDBytes = workspace →
      (∀ row ∈ Exporter.pushTraces rt (processTraces rt p ctx td).1, row.workspaceID = workspace) ∧
        ∀ row ∈ Exporter.pushMetrics rt (processMetrics rt mp ctx md), row.workspaceID = workspace := by
  constructor
  · intro unauthenticated
    constructor
    · apply List.eq_nil_iff_forall_not_mem.mpr
      intro row member
      obtain ⟨resource, s, stored⟩ := mem_pushTraces member
      simp [storedRow_authenticated stored] at unauthenticated
    · apply List.eq_nil_iff_forall_not_mem.mpr
      intro row member
      obtain ⟨resource, m, m', processed, usage, _⟩ := mem_pushMetrics member
      simp [(processMetric_tokenUsage processed usage).1] at unauthenticated
  · intro workspace scope clean
    constructor
    · intro row member
      obtain ⟨resource, s, stored⟩ := mem_pushTraces member
      rw [storedRow_workspaceID stored, scope]
    · intro row member
      obtain ⟨resource, m, m', processed, usage, row⟩ := mem_pushMetrics member
      rw [usageRows_workspaceID (processMetric_tokenUsage processed usage).2 row, scope]
      exact clean

/-- A sender that names another workspace on the span, the point and both resources. -/
def forged : Attributes Int := [(attrWorkspaceID, .str (lit "other"))]

def forgedTraces : Traces Int := [⟨forged, [[plainSpan forged]]⟩]

def forgedMetrics : Metrics Int :=
  [⟨forged, [[⟨GenAI.tokenUsageMetric, .sum .delta [⟨forged, .int 5, 1000000⟩]⟩]]⟩]

theorem ingest_isolated_forged :
    ((Exporter.pushTraces plainPlatform (processTraces plainPlatform (plainProcessor true)
        (verifiedContext (lit "mine")) forgedTraces).1).length = 1 ∧
      (Exporter.pushMetrics plainPlatform (processMetrics plainPlatform ⟨none, none⟩
        (verifiedContext (lit "mine")) forgedMetrics)).length = 1) ∧
    (∀ row ∈ Exporter.pushTraces plainPlatform (processTraces plainPlatform (plainProcessor true)
        (verifiedContext (lit "mine")) forgedTraces).1, row.workspaceID = lit "mine") ∧
      ∀ row ∈ Exporter.pushMetrics plainPlatform (processMetrics plainPlatform ⟨none, none⟩
        (verifiedContext (lit "mine")) forgedMetrics), row.workspaceID = lit "mine" :=
  ⟨by decide +kernel, (ingest_isolated (plainProcessor true) ⟨none, none⟩
    (verifiedContext (lit "mine")) forgedTraces forgedMetrics).2 (lit "mine")
      (by decide +kernel) (by decide +kernel)⟩

end Tracium
