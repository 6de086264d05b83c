import Mathlib.Data.List.Forall2
import Mathlib.Data.Multiset.MapFold
import Tracium.Go.Bytes
import Tracium.Scripts

/-! What the schema migrations rewrite, and their statements. Releases named the columns of
tracium.spans and of the daily rollup differently; a view keeps the columns it was created
with. Ingestion is stopped, so nothing else writes. -/
namespace Tracium.Upgrade

open Go Scripts

inductive OwnerColumn
  | tenantID
  | userID
  deriving DecidableEq

inductive NameColumn
  | agentName
  | workflowName
  deriving DecidableEq

/-- The columns that some release renamed or added. -/
structure Columns where
  owner : OwnerColumn
  name : NameColumn
  workspaceID : Bool
  workflowVersion : Bool
  deriving DecidableEq

def currentColumns : Columns := ⟨.userID, .workflowName, true, true⟩

variable {R G : Type}

/-- A row of tracium.spans; a column that is not there yet reads ''. -/
structure SpanRow (R : Type) where
  user : Str
  workflow : Str
  workspaceID : Str
  workflowVersion : Str
  rest : R

structure Spans (R : Type) where
  columns : Columns
  rows : List (SpanRow R)

/-- A row of a rollup; `states` are its aggregate states. -/
structure RollupRow (G : Type) where
  bucketDate : Int
  user : Str
  workspaceID : Str
  workflow : Str
  workflowVersion : Str
  model : Str
  states : G

structure Rollup (G : Type) where
  columns : Columns
  rows : Multiset (RollupRow G)

/-- The names a swap keeps the old rollup under: metrics_daily_pre_... -/
inductive Retained
  | preWorkspace
  | preWorkflowRename
  | preVersion
  deriving DecidableEq

/-- The files under schema, in the order of their names. -/
inductive File
  | createSpans
  | createMetricsDaily
  | createMetricsDailyMV
  | workspaceUpgrade
  | spanAdditiveColumns
  | spanServiceName
  | createMetricsDailyCost
  | createMetricsDailyCostMV
  | createCallsView
  | createUsageMetricsView
  | renameAgentToWorkflow
  | createRejectedSpans
  | rejectedSpansTTL
  | workflowVersion
  deriving DecidableEq

/-- The tables and views of tracium that some script rewrites, and of Postgres the ledger
schema_migrations, workspace_upgrade_state and the workspaces. -/
structure Database (R G : Type) where
  spans : Option (Spans R)
  metricsDaily : Option (Rollup G)
  preWorkspace : Option (Rollup G)
  preWorkflowRename : Option (Rollup G)
  preVersion : Option (Rollup G)
  metricsDailyMV : Option Columns
  calls : Option Columns
  usageMetrics : Option Columns
  ledger : List File
  upgradeState : Option Str
  workspaces : List Str

def Database.retained (db : Database R G) : Retained → Option (Rollup G)
  | .preWorkspace => db.preWorkspace
  | .preWorkflowRename => db.preWorkflowRename
  | .preVersion => db.preVersion

def Database.keep (db : Database R G) (t : Option (Rollup G)) : Retained → Database R G
  | .preWorkspace => { db with preWorkspace := t }
  | .preWorkflowRename => { db with preWorkflowRename := t }
  | .preVersion => { db with preVersion := t }

/-! Statements. -/

section Statements

def createSpans : Stmt (Database R G) :=
  .atomic fun db => some { db with spans := some (db.spans.getD ⟨currentColumns, []⟩) }

/-- 002_create_metrics_daily.sql, also where a script rebuilds the rollup. -/
def createMetricsDaily : Stmt (Database R G) :=
  .atomic fun db => some { db with metricsDaily := some (db.metricsDaily.getD ⟨currentColumns, 0⟩) }

/-- 003_create_metrics_daily_mv.sql reads the current columns of tracium.spans. -/
def createMetricsDailyMV : Stmt (Database R G) :=
  .atomic fun db =>
    if db.metricsDailyMV.isSome then some db
    else if db.spans.any fun t => t.columns = currentColumns then
      some { db with metricsDailyMV := some currentColumns }
    else none

def dropMetricsDailyMV : Stmt (Database R G) := .atomic fun db => some { db with metricsDailyMV := none }

def alterSpans (alter : Spans R → Option (Spans R)) : Stmt (Database R G) :=
  .atomic fun db => (db.spans.bind alter).map fun t => { db with spans := some t }

/-- `RENAME COLUMN IF EXISTS tenant_id TO user_id`. -/
def renameTenant : Stmt (Database R G) :=
  alterSpans fun t => some { t with columns := { t.columns with owner := .userID } }

/-- `RENAME COLUMN IF EXISTS agent_name TO workflow_name`. -/
def renameAgentIfExists : Stmt (Database R G) :=
  alterSpans fun t => some { t with columns := { t.columns with name := .workflowName } }

/-- `RENAME COLUMN agent_name TO workflow_name`. -/
def renameAgent : Stmt (Database R G) :=
  alterSpans fun t => if t.columns.name = .agentName then
    some { t with columns := { t.columns with name := .workflowName } } else none

def addWorkspaceID : Stmt (Database R G) :=
  alterSpans fun t => some { t with columns := { t.columns with workspaceID := true } }

def addWorkflowVersion : Stmt (Database R G) :=
  alterSpans fun t => some { t with columns := { t.columns with workflowVersion := true } }

def SpanRow.assign (workspace : Str) (r : SpanRow R) : SpanRow R :=
  if r.workspaceID = [] then { r with workspaceID := workspace } else r

/-- `UPDATE workspace_id = ... WHERE workspace_id = ''`, which rewrites part by part. -/
def assignWorkspace (workspace : Str) : Stmt (Database R G) where
  effect := fun db => db.spans.map fun t =>
    { db with spans := some { t with rows := t.rows.map (SpanRow.assign workspace) } }
  torn := fun db db' => ∃ t rows, db.spans = some t ∧
    List.Forall₂ (fun r r' => r' = r ∨ r' = r.assign workspace) t.rows rows ∧
    db' = { db with spans := some { t with rows := rows } }

/-- `RENAME TABLE metrics_daily TO ...`. -/
def retain (name : Retained) : Stmt (Database R G) :=
  .atomic fun db =>
    if db.metricsDaily.isSome && (db.retained name).isNone then
      some ({ db with metricsDaily := none }.keep db.metricsDaily name)
    else none

def truncateMetricsDaily : Stmt (Database R G) :=
  .atomic fun db => db.metricsDaily.map fun t => { db with metricsDaily := some { t with rows := 0 } }

/-- The columns the INSERT names. -/
def takesStates (c : Columns) : Bool :=
  decide (c.owner = .userID) && decide (c.name = .workflowName) && c.workspaceID

/-- `INSERT INTO metrics_daily ... SELECT ... FROM` a retained rollup, block by block. -/
def copyStates (source : Retained) (reads : Columns → Bool) (translate : RollupRow G → RollupRow G) :
    Stmt (Database R G) where
  effect := fun db =>
    (db.retained source).bind fun old => db.metricsDaily.bind fun new =>
      if reads old.columns && takesStates new.columns then
        some { db with metricsDaily := some { new with rows := new.rows + old.rows.map translate } }
      else none
  torn := fun db db' => ∃ old new part, db.retained source = some old ∧ db.metricsDaily = some new ∧
    part ≤ old.rows.map translate ∧
    db' = { db with metricsDaily := some { new with rows := new.rows + part } }

/-- `CREATE VIEW IF NOT EXISTS tracium.calls AS SELECT *`. -/
def createCalls : Stmt (Database R G) :=
  .atomic fun db => db.spans.map fun t => { db with calls := some (db.calls.getD t.columns) }

def createUsageMetrics : Stmt (Database R G) :=
  .atomic fun db => db.spans.map fun t => { db with usageMetrics := some (db.usageMetrics.getD t.columns) }

def dropCalls : Stmt (Database R G) := .atomic fun db => some { db with calls := none }

def dropUsageMetrics : Stmt (Database R G) := .atomic fun db => some { db with usageMetrics := none }

/-- `INSERT INTO workspace_upgrade_state ... ON CONFLICT DO NOTHING`. -/
def recordUpgrade (workspace : Str) : Stmt (Database R G) :=
  .atomic fun db => some { db with upgradeState := some (db.upgradeState.getD workspace) }

/-- `INSERT INTO schema_migrations`, whose primary key is the filename. -/
def recordMigration (file : File) : Stmt (Database R G) :=
  .atomic fun db => if file ∈ db.ledger then none else some { db with ledger := db.ledger ++ [file] }

end Statements

end Tracium.Upgrade
