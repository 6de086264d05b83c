import Tracium.Query.Statements

/-! The statements for windows served from the daily rollups. -/
namespace Tracium.Query

open Go Sql

/-- Time.Format with the layout 2006-01-02, in the server's time zone. -/
abbrev DateFormat := Int → Str

variable (date : DateFormat)

def rollupWindow (user : Str) (workspaces : List Str) (lo hi : Int) (hiInclusive : Bool) :
    Clause × List Value :=
  withUserAndScope ([.cmp .bucketDate .ge .lower, .cmp .bucketDate (if hiInclusive then .le else .lt) .upper],
    [.str (date lo), .str (date hi)]) user workspaces

def MetricsFilter.overDays (f : MetricsFilter) (lo hi : Int) : Meaning :=
  { workspaces := f.workspaceIDs, lower := .str (date lo), upper := .str (date hi), user := f.userID,
    bucket := milliseconds f.bucket, workflow := f.workflow, version := f.version }

/-- The current window, today's partial day included. -/
def MetricsFilter.days (f : MetricsFilter) : Clause × List Value :=
  rollupWindow date f.userID f.workspaceIDs f.start f.end' true

def MetricsFilter.overCurrentDays (f : MetricsFilter) : Meaning := f.overDays date f.start f.end'

def rollupScope (f : MetricsFilter) : Clause × List Value :=
  let (clause, args) := f.days date
  let (clause, args) := if f.workflow = [] then (clause, args)
    else (clause ++ [.cmp .workflowName .eq .workflow], args ++ [.str f.workflow])
  if f.version = [] then (clause, args)
  else (clause ++ [.cmp .workflowVersion .eq .version], args ++ [.str f.version])

def bucketMsExpr : String := "toInt64(bucket_date) * 86400000"

def costReconcileRollupExpr : String := "greatest(sum(span_cost), sum(metric_cost))"

def workflowDetailRollupSQL (f : MetricsFilter) : Statement where
  sql := [.text ("SELECT toInt64(uniqMerge(runs)), sum(cost), toInt64(uniqIfMerge(error_runs)), " ++
      "toInt64(sum(input_tokens)), toInt64(sum(output_tokens)), topKWeightedIf(1)(model, span_count, model != '')[1] FROM "),
    .source .metricsDaily (rollupScope date f).1]
  args := (rollupScope date f).2
  meant := f.overCurrentDays date

/-- The last run is looked up on raw spans over the window's trailing threshold only. -/
def workflowDetailLastRun (f : MetricsFilter) : Statement :=
  let recent := f.end' - rollupThreshold
  let lo := unixMilli (if recent > f.start then recent else f.start)
  let (rawClause, rawArgs) := window f.userID f.workspaceIDs lo (unixMilli f.end')
  { sql := [.text "SELECT argMax(trace_id, start_time_ms) FROM ",
      .source .calls (rawClause ++ [.cmp .workflowName .eq .workflow])]
    args := rawArgs ++ [.str f.workflow]
    meant := f.over lo (unixMilli f.end') }

def costTotalRollupSQL (f : MetricsFilter) (lo hi : Int) (hiInclusive : Bool) : Statement where
  sql := [.text ("SELECT sum(day_cost) FROM ( SELECT " ++ costReconcileRollupExpr ++ " AS day_cost FROM "),
    .source .metricsDailyCost (rollupWindow date f.userID f.workspaceIDs lo hi hiInclusive).1,
    .text " GROUP BY bucket_date )"]
  args := (rollupWindow date f.userID f.workspaceIDs lo hi hiInclusive).2
  meant := f.overDays date lo hi

def kpiWindowRollupSQL (f : MetricsFilter) (lo hi : Int) (hiInclusive : Bool) : Statement where
  sql := [.text "SELECT toInt64(uniqMerge(runs)), toInt64(uniqIfMerge(error_runs)) FROM ",
    .source .metricsDaily (rollupWindow date f.userID f.workspaceIDs lo hi hiInclusive).1]
  args := (rollupWindow date f.userID f.workspaceIDs lo hi hiInclusive).2
  meant := f.overDays date lo hi

/-- A statement over the current days that binds nothing else. -/
def overScope (f : MetricsFilter) (table : Table) (head tail : String) : Statement where
  sql := [.text head, .source table (rollupScope date f).1, .text tail]
  args := (rollupScope date f).2
  meant := f.overCurrentDays date

def costSeriesRollupSQL (f : MetricsFilter) : Statement :=
  overScope date f .metricsDailyCost
    ("SELECT " ++ bucketMsExpr ++ " AS bucket_ms, " ++ costReconcileRollupExpr ++ " AS value FROM ") " GROUP BY bucket_ms"

def scopedCostSeriesRollupSQL (f : MetricsFilter) : Statement :=
  overScope date f .metricsDaily ("SELECT " ++ bucketMsExpr ++ " AS bucket_ms, sum(cost) AS value FROM ")
    " GROUP BY bucket_ms"

def errorSeriesRollupSQL (f : MetricsFilter) : Statement :=
  overScope date f .metricsDaily ("SELECT " ++ bucketMsExpr ++
    " AS bucket_ms, toInt64(uniqIfMerge(error_runs)) AS errors, toInt64(uniqMerge(runs)) AS total FROM ")
    " GROUP BY bucket_ms"

def tokenSeriesRollupSQL (f : MetricsFilter) : Statement :=
  overScope date f .metricsDaily ("SELECT " ++ bucketMsExpr ++
    " AS bucket_ms, toInt64(sum(input_tokens)) AS input_tokens, toInt64(sum(output_tokens)) AS output_tokens FROM ")
    " GROUP BY bucket_ms"

/-- A ranked list over the current days, cut at the limit. -/
def ranked (f : MetricsFilter) (limit : Int) (head : String) (extra : Clause) (tail : String) : Statement where
  sql := [.text head, .source .metricsDaily ((f.days date).1 ++ extra), .text tail, .hole .limit]
  args := (f.days date).2 ++ [.int limit]
  meant := { f.overCurrentDays date with limit := limit }

/-- A per-key, per-day count over the current days. -/
def dailyTrends (f : MetricsFilter) (head tail : String) : Statement where
  sql := [.text head, .source .metricsDaily (f.days date).1, .text tail]
  args := (f.days date).2
  meant := f.overCurrentDays date

def topWorkflowsRollupSQL (f : MetricsFilter) (limit : Int) : Statement :=
  ranked date f limit "SELECT workflow_name AS name, sum(cost) AS cost, toInt64(uniqMerge(runs)) AS calls FROM " []
    " GROUP BY name ORDER BY cost DESC LIMIT "

def workflowTrendsRollupSQL (f : MetricsFilter) : Statement :=
  dailyTrends date f ("SELECT workflow_name AS name, " ++ bucketMsExpr ++
    " AS bucket_ms, toInt64(uniqMerge(runs)) AS calls FROM ") " GROUP BY name, bucket_ms"

def listWorkflowsRollupSQL (f : MetricsFilter) (limit : Int) : Statement :=
  ranked date f limit ("SELECT workflow_name AS name, toInt64(uniqMerge(runs)) AS calls, sum(cost) AS cost, " ++
    "toInt64(uniqIfMerge(error_runs)) AS err_runs FROM ") [] " GROUP BY name ORDER BY calls DESC LIMIT "

def failuresRollupSQL (f : MetricsFilter) (limit : Int) : Statement :=
  ranked date f limit ("SELECT workflow_name AS workflow, toInt64(uniqIfMerge(error_runs)) AS failed, " ++
    "toInt64(uniqMerge(runs)) AS runs FROM ") [] " GROUP BY workflow HAVING failed > 0 ORDER BY failed DESC LIMIT "

def failuresTotalRollupSQL (f : MetricsFilter) : Statement :=
  dailyTrends date f "SELECT toInt64(uniqIfMerge(error_runs)) FROM " ""

def modelCostsRollupSQL (f : MetricsFilter) (limit : Int) : Statement :=
  ranked date f limit ("SELECT model AS name, sum(cost) AS cost, toInt64(sum(span_count)) AS calls, " ++
    "toInt64(sum(input_tokens)) AS input_tokens, toInt64(sum(output_tokens)) AS output_tokens FROM ")
    [.text "model != ''" []] " GROUP BY name ORDER BY cost DESC LIMIT "

/-- Both windows in one pass over the days, split at the current one's first. -/
def MetricsFilter.bothDays (f : MetricsFilter) : Clause × List Value :=
  rollupWindow date f.userID f.workspaceIDs f.prevStart f.end' true

def usageRollup (f : MetricsFilter) (limit : Int) (key tail : String) : Statement :=
  let curDate := .str (date f.start)
  { sql := [.text (key ++ "sumIf(cost, bucket_date >= "), .hole .cutoff,
      .text ") AS cost_cur, sumIf(cost, bucket_date < ", .hole .cutoff,
      .text ") AS cost_prev, toInt64(uniqMergeIf(runs, bucket_date >= ", .hole .cutoff,
      .text ")) AS runs_cur, toInt64(uniqMergeIf(runs, bucket_date < ", .hole .cutoff,
      .text ")) AS runs_prev FROM ", .source .metricsDaily (f.bothDays date).1, .text tail, .hole .limit]
    args := [curDate, curDate, curDate, curDate] ++ (f.bothDays date).2 ++ [.int limit]
    meant := { f.overDays date f.prevStart f.end' with cutoff := curDate, limit := limit } }

def userUsageRollupSQL (f : MetricsFilter) (limit : Int) : Statement :=
  usageRollup date f limit "SELECT user_id, " " GROUP BY user_id ORDER BY cost_cur DESC LIMIT "

def userTrendsRollupSQL (f : MetricsFilter) : Statement :=
  dailyTrends date f ("SELECT user_id, " ++ bucketMsExpr ++ " AS bucket_ms, sum(cost) AS cost FROM ")
    " GROUP BY user_id, bucket_ms"

def workflowUsageRollupSQL (f : MetricsFilter) (limit : Int) : Statement :=
  usageRollup date f limit "SELECT workflow_name AS name, " " GROUP BY name ORDER BY cost_cur DESC LIMIT "

def fillWorkflowModels (f : MetricsFilter) : Statement where
  sql := [.text ("SELECT name, argMax(model, spans) AS model FROM ( SELECT workflow_name AS name, model, " ++
      "sum(span_count) AS spans FROM "), .source .metricsDaily ((f.days date).1 ++ [.text "model != ''" []]),
    .text " GROUP BY name, model ) GROUP BY name"]
  args := (f.days date).2
  meant := f.overCurrentDays date

def workflowVersionsRollupSQL (f : MetricsFilter) (limit : Int) : Statement where
  sql := [.text ("SELECT workflow_version, min(" ++ bucketMsExpr ++ "), max(" ++ bucketMsExpr ++
      "), toInt64(uniqMerge(runs)), sum(cost), toFloat64(0), toInt64(uniqIfMerge(error_runs)), " ++
      "toInt64(sum(input_tokens) + sum(output_tokens)) FROM "),
    .source .metricsDaily ((f.days date).1 ++ [.cmp .workflowName .eq .workflow]),
    .text " GROUP BY workflow_version ORDER BY max(bucket_date) DESC LIMIT ", .hole .limit]
  args := (f.days date).2 ++ [.str f.workflow, .int limit]
  meant := { f.overCurrentDays date with limit := limit }

end Tracium.Query
