import Tracium.Go.Strconv
import Tracium.Query.Series
import Tracium.Sql

/-! The statements the API sends to ClickHouse for short windows: each is the text between
its placeholders and the arguments the Go code appends, in its order. Texts are the
source's up to white space. Every placeholder names what it stands for, so that binding by
position can be compared with it. -/
namespace Tracium.Query

open Go Sql

inductive Table
  | calls
  | usageMetrics
  | metricsDaily
  | metricsDailyCost
  deriving DecidableEq

/-- The columns the WHERE clauses compare. -/
inductive Column
  | workspaceID
  | userID
  | startTimeMs
  | bucketDate
  | traceID
  | workflowName
  | workflowVersion
  deriving DecidableEq

inductive Value
  | int (i : Int)
  | str (s : Str)
  deriving DecidableEq

/-- What a placeholder stands for. -/
inductive Role
  | lower
  | upper
  | user
  | workspace (i : Nat)
  | bucket
  | limit
  | offset
  | cutoff
  | workflow
  | version
  | model
  | hasError
  | trace
  | key
  deriving DecidableEq

abbrev Clause := List (Cond Column Role)

abbrev Text := List (Piece Table Column Role)

/-- The values a statement's placeholders are meant to have; it has none of the others. -/
structure Meaning where
  workspaces : List Str
  lower : Value := .int 0
  upper : Value := .int 0
  user : Str := []
  bucket : Int := 0
  limit : Int := 0
  offset : Int := 0
  cutoff : Value := .int 0
  workflow : Str := []
  version : Str := []
  model : Str := []
  hasError : Int := 0
  trace : Str := []
  key : Str := []

def Meaning.of (m : Meaning) : Role → Value
  | .lower => m.lower
  | .upper => m.upper
  | .user => .str m.user
  | .workspace i => .str (m.workspaces.getD i [])
  | .bucket => .int m.bucket
  | .limit => .int m.limit
  | .offset => .int m.offset
  | .cutoff => m.cutoff
  | .workflow => .str m.workflow
  | .version => .str m.version
  | .model => .str m.model
  | .hasError => .int m.hasError
  | .trace => .str m.trace
  | .key => .str m.key

structure Statement where
  sql : Text
  args : List Value
  meant : Meaning

/-! The shared clauses. -/

def workspaceScope (workspaces : List Str) : Clause × List Value :=
  match workspaces with
  | [] => ([.never], [])
  | [w] => ([.cmp .workspaceID .eq (.workspace 0)], [.str w])
  | ws => ([.oneOf .workspaceID ((List.range ws.length).map .workspace)], ws.map .str)

/-- The optional end-client filter and the workspace scope, after a range's two bounds. -/
def withUserAndScope (range : Clause × List Value) (user : Str) (workspaces : List Str) :
    Clause × List Value :=
  let (clause, args) := if user = [] then range
    else (range.1 ++ [.cmp .userID .eq .user], range.2 ++ [.str user])
  (clause ++ (workspaceScope workspaces).1, args ++ (workspaceScope workspaces).2)

def window (user : Str) (workspaces : List Str) (lo hi : Int) : Clause × List Value :=
  withUserAndScope ([.cmp .startTimeMs .ge .lower, .cmp .startTimeMs .lt .upper], [.int lo, .int hi])
    user workspaces

def reconciledCostUnionSQL (clause : Clause) (args : List Value) : Text × List Value :=
  ([.text "SELECT start_time_ms, cost_usd AS span_cost, 0 AS metric_cost FROM ",
    .source .calls clause,
    .text " UNION ALL SELECT start_time_ms, 0 AS span_cost, cost_usd AS metric_cost FROM ",
    .source .usageMetrics clause], args ++ args)

/-- The window of a metrics read and what its placeholders mean. -/
def MetricsFilter.over (f : MetricsFilter) (lo hi : Int) : Meaning :=
  { workspaces := f.workspaceIDs, lower := .int lo, upper := .int hi, user := f.userID,
    bucket := milliseconds f.bucket, workflow := f.workflow, version := f.version }

def MetricsFilter.current (f : MetricsFilter) : Clause × List Value :=
  window f.userID f.workspaceIDs (unixMilli f.start) (unixMilli f.end')

def MetricsFilter.overCurrent (f : MetricsFilter) : Meaning := f.over (unixMilli f.start) (unixMilli f.end')

def MetricsFilter.bucketArg (f : MetricsFilter) : Value := .int (milliseconds f.bucket)

def traceDurationExpr : String := "max(end_time_ms) - min(start_time_ms)"

def spanErroredSQL : String := "(error_type != '' OR error_message != '')"

def workflowExpr : String :=
  "coalesce(nullIf(argMinIf(workflow_name, start_time_ms, workflow_name != '' AND parent_span_id = ''), ''), " ++
  "nullIf(argMinIf(workflow_name, start_time_ms, workflow_name != ''), ''), " ++
  "nullIf(argMinIf(service_name, start_time_ms, service_name != ''), ''), argMin(name, start_time_ms))"

def versionExpr : String :=
  "argMinIf(workflow_version, (parent_span_id != '', start_time_ms), workflow_version != '')"

def modelExpr : String := "if(model_normalized != '', model_normalized, model)"

/-- `strings.Join(…, " AND ")` over conditions that carry placeholders. -/
def joinAnd : List Text → Text
  | [] => []
  | [c] => c
  | c :: rest => c ++ .text " AND " :: joinAnd rest

/-! Traces. -/

structure TraceFilter where
  userID : Str
  workspaceIDs : List Str
  model : Str
  workflow : Str
  version : Str
  hasError : Option Bool
  startAfter : Int
  startBefore : Option Int
  page : Int
  pageSize : Int

/-- `(filter.Page - 1) * filter.PageSize` on Go's int. -/
def TraceFilter.offset (f : TraceFilter) : Int := wrap64 ((f.page - 1) * f.pageSize)

def TraceFilter.meaning (f : TraceFilter) : Meaning :=
  { workspaces := f.workspaceIDs, lower := .int (unixMilli f.startAfter),
    upper := .int (unixMilli (f.startBefore.getD 0)), user := f.userID, model := f.model,
    workflow := f.workflow, version := f.version, hasError := if f.hasError = some true then 1 else 0,
    limit := f.pageSize, offset := f.offset }

/-- The HAVING conditions and their arguments. -/
def TraceFilter.having (f : TraceFilter) : List (Text × Value) :=
  (if f.model = [] then [] else
    [([.text "countIf(model = ", .hole .model, .text ") > 0"], .str f.model)]) ++
  (if f.workflow = [] then [] else
    [([.text (workflowExpr ++ " = "), .hole .workflow], .str f.workflow)]) ++
  (if f.version = [] then [] else
    [([.text (versionExpr ++ " = "), .hole .version], .str f.version)]) ++
  match f.hasError with
  | none => []
  | some errored => [([.text ("max(" ++ spanErroredSQL ++ ") = "), .hole .hasError],
      .int (if errored then 1 else 0))]

def TraceFilter.range (f : TraceFilter) : Clause × List Value :=
  match f.startBefore with
  | none => ([.cmp .startTimeMs .ge .lower], [.int (unixMilli f.startAfter)])
  | some before => ([.cmp .startTimeMs .ge .lower, .cmp .startTimeMs .lt .upper],
      [.int (unixMilli f.startAfter), .int (unixMilli before)])

def traceFilterSQL (f : TraceFilter) : Text × List Value :=
  let (clause, args) := withUserAndScope f.range f.userID f.workspaceIDs
  let having := f.having
  let tail : Text := if having.isEmpty then [] else .text " HAVING " :: joinAnd (having.map Prod.fst)
  (.source .calls clause :: .text " GROUP BY trace_id" :: tail, args ++ having.map Prod.snd)

def traceSelect : String :=
  "SELECT trace_id, coalesce(nullIf(argMinIf(workflow_name, start_time_ms, workflow_name != '' AND parent_span_id = ''), ''), " ++
  "nullIf(argMinIf(workflow_name, start_time_ms, workflow_name != ''), ''), " ++
  "nullIf(argMinIf(name, start_time_ms, parent_span_id = ''), ''), " ++
  "nullIf(argMinIf(service_name, start_time_ms, service_name != ''), ''), argMin(name, start_time_ms)) AS trace_name, " ++
  versionExpr ++ " AS trace_version, any(user_id) AS trace_user, any(workspace_id) AS trace_workspace, " ++
  "min(start_time_ms) AS started_ms, max(end_time_ms) AS ended_ms, " ++
  "max(end_time_ms) - min(start_time_ms) AS dur_ms, toInt64(count()) AS spans, max(" ++ spanErroredSQL ++
  ") AS errored, sum(cost_usd) AS total_cost FROM "

def listTracesTotal (f : TraceFilter) : Statement where
  sql := .text "SELECT toInt64(count()) FROM ( SELECT trace_id FROM " :: (traceFilterSQL f).1 ++ [.text " )"]
  args := (traceFilterSQL f).2
  meant := f.meaning

def listTracesPage (f : TraceFilter) : Statement where
  sql := .text traceSelect :: (traceFilterSQL f).1 ++ [.text " ORDER BY started_ms DESC LIMIT ", .hole .limit,
    .text " OFFSET ", .hole .offset]
  args := (traceFilterSQL f).2 ++ [.int f.pageSize, .int f.offset]
  meant := f.meaning

def traceDetailScope (traceID : Str) (workspaceIDs : List Str) : Clause × List Value :=
  (.cmp .traceID .eq .trace :: (workspaceScope workspaceIDs).1, .str traceID :: (workspaceScope workspaceIDs).2)

def getTraceStatement (traceID : Str) (workspaceIDs : List Str) : Statement where
  sql := [.text traceSelect, .source .calls (traceDetailScope traceID workspaceIDs).1,
    .text " GROUP BY trace_id"]
  args := (traceDetailScope traceID workspaceIDs).2
  meant := { workspaces := workspaceIDs, trace := traceID }

/-- The checks reported on single spans: code and condition. -/
def setupChecks : List (String × String) :=
  [("unpriced_model", "model != '' AND cost_usd = 0 AND (input_tokens > 0 OR output_tokens > 0)"),
   ("unmetered", "unmetered = 1"),
   ("no_model", "model = '' AND kind IN ('llm', 'embedding')"),
   ("instant_llm_spans", "kind = 'llm' AND duration_ms < 10 AND output_tokens > 0"),
   ("error_without_detail", "error_type = 'error' AND error_message = ''"),
   ("unnamed_workflow", "parent_span_id = '' AND (workflow_name = service_name OR workflow_name = name)")]

def spanIssuesSQL : String :=
  "arrayFilter(x -> x != '', [" ++
    ", ".intercalate (setupChecks.map fun c => "if(" ++ c.2 ++ ", '" ++ c.1 ++ "', '')") ++ "])"

def getSpansStatement (traceID : Str) (workspaceIDs : List Str) : Statement where
  sql := [.text ("SELECT trace_id, span_id, parent_span_id, name, start_time_ms, end_time_ms, duration_ms, " ++
      "model, model_normalized, input_tokens, output_tokens, cost_usd, user_id, workspace_id, finish_reason, " ++
      "error_type, error_message, schema_version, input, output, available_tools, kind, " ++ spanIssuesSQL ++
      " FROM "),
    .source .calls (traceDetailScope traceID workspaceIDs).1, .text " ORDER BY start_time_ms"]
  args := (traceDetailScope traceID workspaceIDs).2
  meant := { workspaces := workspaceIDs, trace := traceID }

/-! Metrics over raw spans. -/

def costTotalStatement (f : MetricsFilter) (lo hi : Int) : Statement :=
  let (clause, args) := window f.userID f.workspaceIDs lo hi
  let (union, uargs) := reconciledCostUnionSQL clause args
  { sql := .text ("SELECT sum(bucket_cost) FROM ( SELECT greatest(sum(span_cost), sum(metric_cost)) AS bucket_cost " ++
      "FROM (") :: union ++ [.text ") GROUP BY intDiv(start_time_ms, ", .hole .bucket, .text ") )"]
    args := uargs ++ [f.bucketArg]
    meant := f.over lo hi }

def kpiAggregates (f : MetricsFilter) (lo hi : Int) : Statement where
  sql := [.text ("SELECT toInt64(count()) AS runs, quantile(0.95)(dur) AS p95, avg(errored) AS err_rate FROM ( SELECT " ++
      traceDurationExpr ++ " AS dur, max(" ++ spanErroredSQL ++ ") AS errored FROM "),
    .source .calls (window f.userID f.workspaceIDs lo hi).1, .text " GROUP BY trace_id )"]
  args := (window f.userID f.workspaceIDs lo hi).2
  meant := f.over lo hi

/-- The inner columns, the outer WHERE and its arguments for the workflow and version filters. -/
def traceScope (f : MetricsFilter) : String × Text × List Value :=
  let cols := (if f.workflow = [] then "" else ", " ++ workflowExpr ++ " AS name") ++
    (if f.version = [] then "" else ", " ++ versionExpr ++ " AS version")
  let conds : List (Text × Value) :=
    (if f.workflow = [] then [] else [([.text "name = ", .hole .workflow], .str f.workflow)]) ++
    (if f.version = [] then [] else [([.text "version = ", .hole .version], .str f.version)])
  (cols, if conds.isEmpty then [] else .text " WHERE " :: joinAnd (conds.map Prod.fst), conds.map Prod.snd)

/-- The shape the bucketed series share: two bucket placeholders, the window, the scope. -/
def bucketed (f : MetricsFilter) (head middle : String) : Statement :=
  let (cols, scopeWhere, scopeArgs) := traceScope f
  { sql := .text head :: .hole .bucket :: .text ") * " :: .hole .bucket :: .text (middle ++ cols ++ " FROM ") ::
      .source .calls f.current.1 :: .text " GROUP BY trace_id )" :: scopeWhere ++ [.text " GROUP BY bucket_ms"]
    args := [f.bucketArg, f.bucketArg] ++ f.current.2 ++ scopeArgs
    meant := f.overCurrent }

def costSeriesScoped (f : MetricsFilter) : Statement :=
  bucketed f "SELECT intDiv(ts, "
    " AS bucket_ms, sum(cost) AS value FROM ( SELECT min(start_time_ms) AS ts, sum(cost_usd) AS cost"

def costSeriesReconciled (f : MetricsFilter) : Statement :=
  let (union, uargs) := reconciledCostUnionSQL f.current.1 f.current.2
  { sql := .text "SELECT intDiv(start_time_ms, " :: .hole .bucket :: .text ") * " :: .hole .bucket ::
      .text " AS bucket_ms, greatest(sum(span_cost), sum(metric_cost)) AS value FROM (" :: union ++
      [.text ") GROUP BY bucket_ms"]
    args := [f.bucketArg, f.bucketArg] ++ uargs
    meant := f.overCurrent }

def latencySeriesStatement (f : MetricsFilter) : Statement :=
  bucketed f ("SELECT bucket_ms, quantile(0.5)(dur) AS p50, quantile(0.95)(dur) AS p95, quantile(0.99)(dur) AS p99 " ++
    "FROM ( SELECT intDiv(min(start_time_ms), ") (" AS bucket_ms, " ++ traceDurationExpr ++ " AS dur")

def errorSeriesStatement (f : MetricsFilter) : Statement :=
  bucketed f ("SELECT bucket_ms, toInt64(countIf(errored)) AS errors, toInt64(count()) AS total " ++
    "FROM ( SELECT intDiv(min(start_time_ms), ") (" AS bucket_ms, max(" ++ spanErroredSQL ++ ") AS errored")

def tokenSeriesStatement (f : MetricsFilter) : Statement :=
  bucketed f ("SELECT bucket_ms, toInt64(sum(input)) AS input_tokens, toInt64(sum(output)) AS output_tokens " ++
    "FROM ( SELECT intDiv(min(start_time_ms), ")
    " AS bucket_ms, sum(input_tokens) AS input, sum(output_tokens) AS output"

def topWorkflowsStatement (f : MetricsFilter) (limit : Int) : Statement where
  sql := [.text ("SELECT name, sum(cost) AS cost, toInt64(count()) AS calls FROM ( SELECT " ++ workflowExpr ++
      " AS name, sum(cost_usd) AS cost FROM "), .source .calls f.current.1,
    .text " GROUP BY trace_id ) GROUP BY name ORDER BY cost DESC LIMIT ", .hole .limit]
  args := f.current.2 ++ [.int limit]
  meant := { f.overCurrent with limit := limit }

def workflowTrends (f : MetricsFilter) : Statement where
  sql := [.text ("SELECT name, bucket_ms, toInt64(count()) AS calls FROM ( SELECT " ++ workflowExpr ++
      " AS name, intDiv(min(start_time_ms), "), .hole .bucket, .text ") * ", .hole .bucket,
    .text " AS bucket_ms FROM ", .source .calls f.current.1, .text " GROUP BY trace_id ) GROUP BY name, bucket_ms"]
  args := [f.bucketArg, f.bucketArg] ++ f.current.2
  meant := f.overCurrent

def workflowsCacheGrid : Int := 60 * 1000000000

/-- Time.Truncate rounds down; the zero time lies on the grid. -/
def snapWindow (f : MetricsFilter) (grid : Int) : MetricsFilter :=
  let span := f.end' - f.start
  let snapped := f.end' - f.end' % grid
  { f with end' := snapped, start := snapped - span }

def listWorkflowsStatement (f : MetricsFilter) (limit : Int) : Statement :=
  let cf := snapWindow f workflowsCacheGrid
  { sql := [.text ("SELECT name, toInt64(count()) AS calls, sum(cost) AS cost, avg(dur) AS avg_latency_ms, " ++
        "avg(errored) AS error_rate, argMax(trace_id, ts) AS last_trace_id, " ++
        "CAST(sumMap([bucket], [toInt64(1)]), 'Map(Int64, Int64)') AS trend FROM ( SELECT trace_id, " ++ workflowExpr ++
        " AS name, sum(cost_usd) AS cost, " ++ traceDurationExpr ++ " AS dur, max(" ++ spanErroredSQL ++
        ") AS errored, min(start_time_ms) AS ts, intDiv(min(start_time_ms), "), .hole .bucket, .text ") * ",
      .hole .bucket, .text " AS bucket FROM ", .source .calls cf.current.1,
      .text " GROUP BY trace_id ) GROUP BY name ORDER BY calls DESC LIMIT ", .hole .limit,
      .text " SETTINGS use_query_cache = 1, query_cache_ttl = 60"]
    args := [cf.bucketArg, cf.bucketArg] ++ cf.current.2 ++ [.int limit]
    meant := { cf.overCurrent with limit := limit } }

def workflowDetailStatement (f : MetricsFilter) : Statement where
  sql := [.text ("SELECT toInt64(count()) AS calls, sum(cost) AS cost, avg(dur) AS avg_latency_ms, " ++
      "quantile(0.95)(dur) AS p95_latency_ms, avg(errored) AS error_rate, toInt64(sum(in_tok)) AS input_tokens, " ++
      "toInt64(sum(out_tok)) AS output_tokens, topKIf(1)(model, model != '')[1] AS model, " ++
      "argMax(trace_id, ts) AS last_trace_id FROM ( SELECT trace_id, " ++ workflowExpr ++ " AS name, argMin(" ++
      modelExpr ++ ", start_time_ms) AS model, sum(cost_usd) AS cost, " ++ traceDurationExpr ++ " AS dur, max(" ++
      spanErroredSQL ++ ") AS errored, sum(input_tokens) AS in_tok, sum(output_tokens) AS out_tok, " ++
      "min(start_time_ms) AS ts FROM "), .source .calls f.current.1,
    .text " GROUP BY trace_id ) WHERE name = ", .hole .workflow]
  args := f.current.2 ++ [.str f.workflow]
  meant := f.overCurrent

def failuresStatement (f : MetricsFilter) (limit : Int) : Statement where
  sql := [.text ("SELECT name AS workflow, toInt64(countIf(errored)) AS failed, toInt64(count()) AS runs, " ++
      "topKIf(1)(err, errored != 0)[1] AS top_error FROM ( SELECT " ++ workflowExpr ++ " AS name, max(" ++ spanErroredSQL ++
      ") AS errored, anyIf(error_type, error_type != '') AS err FROM "), .source .calls f.current.1,
    .text " GROUP BY trace_id ) GROUP BY workflow HAVING failed > 0 ORDER BY failed DESC LIMIT ", .hole .limit]
  args := f.current.2 ++ [.int limit]
  meant := { f.overCurrent with limit := limit }

def failuresTotal (f : MetricsFilter) : Statement where
  sql := [.text "SELECT toInt64(count()) FROM ( SELECT trace_id FROM ", .source .calls f.current.1,
    .text (" GROUP BY trace_id HAVING max(" ++ spanErroredSQL ++ ") = 1 )")]
  args := f.current.2
  meant := f.overCurrent

def modelCostsStatement (f : MetricsFilter) (limit : Int) : Statement where
  sql := [.text ("SELECT " ++ modelExpr ++ " AS name, sum(cost_usd) AS cost, toInt64(count()) AS calls, " ++
      "toInt64(sum(input_tokens)) AS input_tokens, toInt64(sum(output_tokens)) AS output_tokens FROM "),
    .source .calls (f.current.1 ++ [.text (modelExpr ++ " != ''") []]),
    .text " GROUP BY name ORDER BY cost DESC LIMIT ", .hole .limit]
  args := f.current.2 ++ [.int limit]
  meant := { f.overCurrent with limit := limit }

/-- Both windows in one pass, split at the current one's start. -/
def MetricsFilter.both (f : MetricsFilter) : Clause × List Value :=
  window f.userID f.workspaceIDs (unixMilli f.prevStart) (unixMilli f.end')

def MetricsFilter.overBoth (f : MetricsFilter) (limit : Int) : Meaning :=
  { f.over (unixMilli f.prevStart) (unixMilli f.end') with
    cutoff := .int (unixMilli f.start), limit := limit }

def splitAtCutoff : Text :=
  [.text "sumIf(cost, ts >= ", .hole .cutoff, .text ") AS cost_cur, sumIf(cost, ts < ", .hole .cutoff,
    .text ") AS cost_prev, toInt64(countIf(ts >= ", .hole .cutoff, .text ")) AS runs_cur, toInt64(countIf(ts < ",
    .hole .cutoff, .text ")) AS runs_prev FROM ( SELECT "]

def userUsageStatement (f : MetricsFilter) (limit : Int) : Statement :=
  let cur := .int (unixMilli f.start)
  { sql := .text "SELECT user_id, " :: splitAtCutoff ++
      [.text "any(user_id) AS user_id, sum(cost_usd) AS cost, min(start_time_ms) AS ts FROM ", .source .calls f.both.1,
       .text " GROUP BY trace_id ) GROUP BY user_id ORDER BY cost_cur DESC LIMIT ", .hole .limit]
    args := [cur, cur, cur, cur] ++ f.both.2 ++ [.int limit]
    meant := f.overBoth limit }

def userTrends (f : MetricsFilter) : Statement where
  sql := [.text ("SELECT user_id, bucket_ms, sum(cost) AS cost FROM ( SELECT any(user_id) AS user_id, " ++
      "intDiv(min(start_time_ms), "), .hole .bucket, .text ") * ", .hole .bucket,
    .text " AS bucket_ms, sum(cost_usd) AS cost FROM ", .source .calls f.current.1,
    .text " GROUP BY trace_id ) GROUP BY user_id, bucket_ms"]
  args := [f.bucketArg, f.bucketArg] ++ f.current.2
  meant := f.overCurrent

def workflowUsageStatement (f : MetricsFilter) (limit : Int) : Statement :=
  let cur := .int (unixMilli f.start)
  { sql := .text "SELECT name, topKIf(1)(model, model != '')[1] AS model, " :: splitAtCutoff ++
      [.text (workflowExpr ++ " AS name, argMin(" ++ modelExpr ++
        ", start_time_ms) AS model, sum(cost_usd) AS cost, min(start_time_ms) AS ts FROM "), .source .calls f.both.1,
       .text " GROUP BY trace_id ) GROUP BY name ORDER BY cost_cur DESC LIMIT ", .hole .limit]
    args := [cur, cur, cur, cur] ++ f.both.2 ++ [.int limit]
    meant := f.overBoth limit }

def workflowVersionsStatement (f : MetricsFilter) (limit : Int) : Statement where
  sql := [.text ("SELECT version, min(ts), max(ts), toInt64(count()), sum(cost), quantile(0.95)(dur), " ++
      "toInt64(countIf(errored)), toInt64(sum(tokens)) FROM ( SELECT " ++ workflowExpr ++ " AS name, " ++ versionExpr ++
      " AS version, min(start_time_ms) AS ts, sum(cost_usd) AS cost, " ++ traceDurationExpr ++ " AS dur, max(" ++
      spanErroredSQL ++ ") AS errored, sum(input_tokens + output_tokens) AS tokens FROM "), .source .calls f.current.1,
    .text " GROUP BY trace_id ) WHERE name = ", .hole .workflow,
    .text " GROUP BY version ORDER BY max(ts) DESC LIMIT ", .hole .limit]
  args := f.current.2 ++ [.str f.workflow, .int limit]
  meant := { f.overCurrent with limit := limit }

def attributeKeysStatement (f : MetricsFilter) (limit : Int) : Statement where
  sql := [.text "SELECT DISTINCT arrayJoin(mapKeys(attributes)) AS key FROM ", .source .calls f.current.1,
    .text " ORDER BY key LIMIT ", .hole .limit]
  args := f.current.2 ++ [.int limit]
  meant := { f.overCurrent with limit := limit }

def usageByAttributeStatement (f : MetricsFilter) (key : Str) (limit : Int) : Statement where
  sql := [.text "SELECT attributes[", .hole .key,
    .text ("] AS value, sum(cost_usd) AS cost, toInt64(count()) AS calls, toInt64(uniq(trace_id)) AS runs, " ++
      "toInt64(sum(input_tokens)) AS input_tokens, toInt64(sum(output_tokens)) AS output_tokens FROM "),
    .source .calls (f.current.1 ++ [.text "attributes[?] != ''" [.key]]),
    .text " GROUP BY value ORDER BY cost DESC LIMIT ", .hole .limit]
  args := .str key :: f.current.2 ++ [.str key, .int limit]
  meant := { f.overCurrent with limit := limit, key := key }

end Tracium.Query
