import Tracium.Upgrade.Database

/-! The migration scripts and the runner that sources them: a file the ledger does not hold
is run and then recorded. Files that only create or extend what no script rewrites are empty
here. -/
namespace Tracium.Upgrade

open Go Scripts

/-- The settings of one attempt. -/
structure Settings where
  ingestionPaused : Bool
  workspaceID : Str

/-- `^[a-zA-Z0-9_-]{1,64}$`. -/
def validWorkspaceID (id : Str) : Bool :=
  decide (1 ≤ id.length) && decide (id.length ≤ 64) && id.all fun c =>
    (97 ≤ c && c ≤ 122) || (65 ≤ c && c ≤ 90) || (48 ≤ c && c ≤ 57) || c == 95 || c == 45

variable {R G : Type}

/-! 004_workspace_upgrade.sh. -/

def RollupRow.ofLegacy (workspace : Str) (r : RollupRow G) : RollupRow G :=
  { r with workspaceID := workspace, workflowVersion := [] }

/-- The SELECT names tenant_id and agent_name. -/
def readsLegacy (c : Columns) : Bool := decide (c.owner = .tenantID) && decide (c.name = .agentName)

/-- From the copy of the old rollup on. -/
def rebuildLegacy (workspace : Str) : Script (Database R G) :=
  .look fun db =>
    if (db.retained .preWorkspace).isNone then .exit
    else
      .stmts [createMetricsDaily, truncateMetricsDaily,
        copyStates .preWorkspace readsLegacy (RollupRow.ofLegacy workspace), createMetricsDailyMV] .done

/-- The old rollup goes aside, if it has not yet. -/
def swapLegacy (requested : Str) : Script (Database R G) :=
  .look fun db =>
    if db.metricsDaily.any fun t => t.columns.owner = .tenantID then
      .stmts [retain .preWorkspace] (rebuildLegacy requested)
    else rebuildLegacy requested

/-- What follows once the workspace is recorded. -/
def convert (requested : Str) : Script (Database R G) :=
  .stmts [dropMetricsDailyMV, renameTenant, renameAgentIfExists, addWorkspaceID, addWorkflowVersion,
    assignWorkspace requested] (swapLegacy requested)

def workspaceUpgrade (settings : Settings) : Script (Database R G) :=
  .look fun db =>
    let legacyColumns := db.spans.any fun t => t.columns.owner = .tenantID
    let upgradeWorkspace := db.upgradeState.getD []
    let requested := settings.workspaceID
    if !legacyColumns && upgradeWorkspace = [] then .done
    else if !settings.ingestionPaused then .exit
    else if !validWorkspaceID requested then .exit
    else if upgradeWorkspace ≠ [] ∧ upgradeWorkspace ≠ requested then .exit
    else if !db.workspaces.contains requested then .exit
    else
      .stmts [recordUpgrade requested] (convert requested)

/-! 011_rename_agent_to_workflow.sh. -/

def RollupRow.unversioned (r : RollupRow G) : RollupRow G := { r with workflowVersion := [] }

/-- `SELECT *` by position: every column there was before the version. -/
def readsUnversioned (c : Columns) : Bool := c.workspaceID && !c.workflowVersion

/-- The views are created anew. -/
def recreateViews (rest : Script (Database R G)) : Script (Database R G) :=
  .stmts [dropCalls, createCalls, dropUsageMetrics, createUsageMetrics] rest

/-- From the column the rollup reads on. -/
def rebuildRenamed (rollupHasLegacy : Bool) : Script (Database R G) :=
  .stmts [addWorkflowVersion]
    (.stmts (if rollupHasLegacy then
        [retain .preWorkflowRename, createMetricsDaily, truncateMetricsDaily,
          copyStates .preWorkflowRename readsUnversioned RollupRow.unversioned] else [])
      (.stmts [createMetricsDailyMV] (recreateViews .done)))

def renameColumns (spansHasLegacy rollupHasLegacy : Bool) : Script (Database R G) :=
  .stmts [dropMetricsDailyMV]
    (.stmts (if spansHasLegacy then [renameAgent] else []) (rebuildRenamed rollupHasLegacy))

def renameAgentToWorkflow : Script (Database R G) :=
  .look fun db =>
    let spansHasLegacy := db.spans.any fun t => t.columns.name = .agentName
    let rollupHasLegacy := db.metricsDaily.any fun t => t.columns.name = .agentName
    if !spansHasLegacy && !rollupHasLegacy then .done
    else renameColumns spansHasLegacy rollupHasLegacy

/-! 014_workflow_version.sh. -/

/-- The SELECT names user_id, workspace_id and workflow_name. -/
def readsNamed (c : Columns) : Bool := takesStates c

def swapUnversioned (rest : Script (Database R G)) : Script (Database R G) :=
  .look fun db =>
    if db.metricsDaily.any fun t => !t.columns.workflowVersion then
      .stmts [dropMetricsDailyMV, retain .preVersion] rest
    else rest

/-- Also resumes a copy that failed on an earlier attempt. -/
def resumeCopy (rest : Script (Database R G)) : Script (Database R G) :=
  .look fun db =>
    if (db.retained .preVersion).isSome && db.metricsDailyMV.isNone then
      .stmts [createMetricsDaily, truncateMetricsDaily,
        copyStates .preVersion readsNamed RollupRow.unversioned, createMetricsDailyMV] rest
    else rest

def refreshViews : Script (Database R G) :=
  .look fun db =>
    if db.calls.any (·.workflowVersion) then .done
    else recreateViews .done

def workflowVersion : Script (Database R G) :=
  .stmts [addWorkflowVersion] (swapUnversioned (resumeCopy refreshViews))

/-! The runner. -/

def script (settings : Settings) : File → Script (Database R G)
  | .createSpans => .stmts [createSpans] .done
  | .createMetricsDaily => .stmts [createMetricsDaily] .done
  | .createMetricsDailyMV => .stmts [createMetricsDailyMV] .done
  | .workspaceUpgrade => workspaceUpgrade settings
  | .createCallsView => .stmts [createCalls] .done
  | .createUsageMetricsView => .stmts [createUsageMetrics] .done
  | .renameAgentToWorkflow => renameAgentToWorkflow
  | .workflowVersion => workflowVersion
  | .spanAdditiveColumns | .spanServiceName | .createMetricsDailyCost | .createMetricsDailyCostMV
  | .createRejectedSpans | .rejectedSpansTTL => .done

def files : List File :=
  [.createSpans, .createMetricsDaily, .createMetricsDailyMV, .workspaceUpgrade, .spanAdditiveColumns,
    .spanServiceName, .createMetricsDailyCost, .createMetricsDailyCostMV, .createCallsView,
    .createUsageMetricsView, .renameAgentToWorkflow, .createRejectedSpans, .rejectedSpansTTL, .workflowVersion]

def runFiles (settings : Settings) : List File → Script (Database R G)
  | [] => .done
  | file :: rest => .look fun db =>
    if file ∈ db.ledger then runFiles settings rest
    else (script settings file).andThen (.stmt (recordMigration file) (runFiles settings rest))

def runMigrations (settings : Settings) : Script (Database R G) := runFiles settings files

end Tracium.Upgrade
