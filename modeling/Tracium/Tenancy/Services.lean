import Tracium.ApiKeys.GrantBound
import Tracium.Isolation
import Tracium.Query.Boundary
import Tracium.Rollup.LongWindow

/-! The services together: senders the collector lets in, the rows the exporter makes of what
they send, the tables these rows are inserted into, and the reads over them. Between the
processors and an insert stand the queue, its batcher and its retries: rows are split,
merged, reordered, repeated or lost on the way. -/
namespace Tracium.Tenancy

open Go Processor Query
open Repair (Server)

variable {F U : Type}

/-- How the services are configured. -/
structure Deployment (F U : Type) where
  rt : Platform F
  /-- A double as ClickHouse sums it. -/
  cost : F → ℚ
  sv : Server U
  auth : Auth.Config
  hash : Str → Str
  timeout : Int
  traces : TraciumProcessor F
  metrics : MetricsProcessor F

inductive Batch (F : Type)
  | traces (td : Traces F)
  | metrics (md : Metrics F)

/-- An export request that was let in: the token it presented, the workspace it was let in
to and when. -/
structure Export (F : Type) where
  token : Str
  workspace : Str
  decidedAt : Int
  batch : Batch F

/-- The workspace column of its rows; the metrics path cleans it. -/
def Export.workspaceID (x : Export F) : Str :=
  match x.batch with
  | .traces _ => x.workspace
  | .metrics _ => sanitizeIdentifier x.workspace maxUserIDBytes

structure World (F U : Type) where
  system : Grant.System
  stored : List (Span F)
  rollups : Rollup.Warehouse U

inductive Action (F U : Type)
  | grant (a : Grant.Action)
  | insert (picks : List (Export F × Nat)) (receivedAt : Int)
  | background (a : Rollup.Action U)

/-- A row of one of the tables a read may name. -/
inductive Record (F U : Type)
  | span (row : Span F)
  | daily (row : Repair.DailyRow U)
  | dailyCost (row : Repair.DailyCostRow)

def Record.workspaceID : Record F U → Str
  | .span row => row.workspaceID
  | .daily row => row.workspaceID
  | .dailyCost row => row.workspaceID

/-- The source column as WriteBatch appends it. -/
def sourceOf (row : Span F) : Str := if row.source = [] then lit "span" else row.source

namespace Deployment

variable (d : Deployment F U)

def world (now apiNow : Int) : World F U :=
  ⟨Grant.newSystem d.auth now apiNow, [], Rollup.newWarehouse⟩

/-- The rows the exporter makes of a request, in order. -/
def rows (x : Export F) : List (Span F) :=
  match x.batch with
  | .traces td => Exporter.pushTraces d.rt (processTraces d.rt d.traces (verifiedContext x.workspace) td).1
  | .metrics md => Exporter.pushMetrics d.rt (processMetrics d.rt d.metrics (verifiedContext x.workspace) md)

/-- The columns of an inserted row that the rollups read. -/
def spanRow (receivedAt : Int) (row : Span F) : Repair.SpanRow where
  startTimeMs := row.startTimeMs
  receivedAt := receivedAt
  source := if sourceOf row = lit "span" then .span else .metric
  userID := row.userID
  workspaceID := row.workspaceID
  workflowName := row.workflowName
  workflowVersion := row.workflowVersion
  model := row.model
  modelNormalized := row.modelNormalized
  costUSD := d.cost row.costUSD
  inputTokens := row.inputTokens
  outputTokens := row.outputTokens
  traceID := row.traceID
  errorType := row.errorType
  errorMessage := row.errorMessage

def pick (p : Export F × Nat) : Option (Span F) := (d.rows p.1)[p.2]?

/-- The rows of one WriteBatch. -/
def block (picks : List (Export F × Nat)) : List (Span F) := picks.filterMap d.pick

def step [AddCommMonoid U] [DecidableEq U] (s : World F U) : Action F U → Option (World F U)
  | .grant a => (Grant.step d.auth d.hash d.timeout s.system a).map fun system => { s with system := system }
  | .insert picks receivedAt =>
    if ∀ p ∈ picks, .decided p.1.token p.1.workspace p.1.decidedAt ∈ s.system.auth.history then
      some { s with
        stored := s.stored ++ (d.block picks).filter (s.rollups.horizon ≤ ·.startTimeMs)
        rollups := Rollup.insertBlock d.sv s.rollups ((d.block picks).map (d.spanRow receivedAt)) }
    else none
  | .background (.insert _) => none
  | .background (.expire before) => (Rollup.step d.sv s.rollups (.expire before)).map fun rollups =>
      { s with stored := s.stored.filter (rollups.horizon ≤ ·.startTimeMs), rollups := rollups }
  | .background a => (Rollup.step d.sv s.rollups a).map fun rollups => { s with rollups := rollups }

end Deployment

/-- SELECT workspace_id FROM workspace_members WHERE user_id = ... -/
def World.allowed (s : World F U) (userID : Str) : List Str :=
  (s.system.api.db.members.filter (·.2 == userID)).map Prod.fst

def World.tables (s : World F U) : Tables (Record F U)
  | .calls => ((s.stored.filter (sourceOf · = lit "span")).map Record.span : List (Record F U))
  | .usageMetrics => ((s.stored.filter (sourceOf · = lit "metric")).map Record.span : List (Record F U))
  | .metricsDaily => s.rollups.daily.map Record.daily
  | .metricsDailyCost => s.rollups.dailyCost.map Record.dailyCost

variable {d : Deployment F U}

/-! Rows belong to the workspace their request was let in to. -/

theorem ingestScope_verified (workspace : Str) :
    (ingestScope (verifiedContext workspace)).workspace = workspace := by
  simp only [ingestScope, verifiedContext, reduceIte]
  split
  next empty => exact empty.symm
  next => rfl

theorem rows_workspaceID {x : Export F} {row : Span F} (member : row ∈ d.rows x) :
    row.workspaceID = x.workspaceID := by
  unfold Deployment.rows at member
  unfold Export.workspaceID
  cases batch : x.batch with
  | traces td =>
    simp only [batch] at member
    obtain ⟨resource, span, stored⟩ := mem_pushTraces member
    rw [storedRow_workspaceID stored, ingestScope_verified]
  | metrics md =>
    simp only [batch] at member
    obtain ⟨resource, m, m', processed, usage, exported⟩ := mem_pushMetrics member
    rw [usageRows_workspaceID (processMetric_tokenUsage processed usage).2 exported, ingestScope_verified]

/-! Two tenants, a key for each, and a trace from each. -/

def rivalSecret : ApiKeys.Secret := ⟨(List.range 32).map fun n => UInt8.ofNat (32 + n), by decide⟩

def rivalToken : Str := ApiKeys.newToken rivalSecret

/-- SHA-256 on the two tokens, in hex. -/
def tenantHash (token : Str) : Str :=
  if token = ApiKeys.sampleToken then lit "5cf1e4e80335d3cec36e0c5da142407c77b49fe32b35baaad2ced8596381f9c2"
  else if token = rivalToken then lit "dce96117613f9bb0e09de2bc30cb3be3107ce7548d136a8a05fa5e08b824f5f0"
  else token

def twoTenants : Deployment Int (Multiset Str) where
  rt := plainPlatform
  cost := fun n => n
  sv := Rollup.exactServer
  auth := Auth.outageConfig
  hash := tenantHash
  timeout := 5 * Auth.second
  traces := plainProcessor true
  metrics := ⟨none, none⟩

/-- Mallory mints a key for the rival. -/
def mintRival : List ApiKeys.Action :=
  [.addWorkspace (lit "rival") (lit "mallory"),
    .start 3 (.create (lit "rival") (lit "mallory") (lit "prod") (lit "k2") rivalSecret),
    .advance 3, .advance 3]

/-- A sender presents a token for the first time; the API is asked about it. -/
def letIn (g r : Nat) (token : Str) : List Grant.Action :=
  .collector (.start g token (lit "10.0.0.1")) :: List.replicate 6 (Grant.Action.collector (.advance g)) ++
    .send g r :: List.replicate 3 (Grant.Action.api (.advance r)) ++
    .receive g :: List.replicate 7 (Grant.Action.collector (.advance g))

def letInBoth : List Grant.Action :=
  ApiKeys.mintKey.map Grant.Action.api ++ mintRival.map Grant.Action.api ++
    letIn 0 1 ApiKeys.sampleToken ++ letIn 1 4 rivalToken

def oneSpan : Batch Int := .traces [⟨[], [[plainSpan []]]⟩]

def teamExport : Export Int := ⟨ApiKeys.sampleToken, lit "team", 0, oneSpan⟩

def rivalExport : Export Int := ⟨rivalToken, lit "rival", 0, oneSpan⟩

def teamAlone : List (Action Int (Multiset Str)) :=
  letInBoth.map .grant ++ [.insert [(teamExport, 0)] 5]

/-- The batcher put both spans in one block. -/
def bothTenants : List (Action Int (Multiset Str)) :=
  letInBoth.map .grant ++ [.insert [(rivalExport, 0), (teamExport, 0)] 5]

end Tracium.Tenancy
