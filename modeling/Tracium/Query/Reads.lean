import Tracium.Query.Scoping

/-! The reads of the API. Each resolves the workspaces its caller may see and then asks one
statement after another, stopping at the first that fails; some statements are asked only
when an earlier one found rows. -/
namespace Tracium.Query

open Go Sql

/-! The engine. -/

/-- What ClickHouse and its driver make of a bound statement, and what the Go code looks at
in an answer before it asks on. -/
structure Engine (Row ρ : Type) where
  reading : Reading Column Value Row
  eval : List (Input Table Value Row) → ρ
  badArgs : ρ
  failed : ρ → Bool
  isEmpty : ρ → Bool
  noCalls : ρ → Bool
  lastTraceID : ρ → Str

abbrev Tables (Row : Type) := Table → Multiset Row

/-- Whether a workflow or version filter is on. -/
def MetricsFilter.narrowed (f : MetricsFilter) : Bool := f.workflow ≠ [] || f.version ≠ []

namespace Engine

variable {Row ρ : Type} (e : Engine Row ρ)

def answer (store : Tables Row) (q : Statement) : ρ :=
  match Sql.bind q.args q.sql with
  | none => e.badArgs
  | some bound => e.eval (bound.map (Piece.input e.reading store))

/-- Asks and goes on unless the query or a scan failed. -/
def query (q : Statement) (next : ρ → Script Statement ρ) : Script Statement ρ :=
  .ask q fun a => if e.failed a then .done else next a

def only (q : Statement) : Script Statement ρ := e.query q fun _ => .done

/-- A second statement fills in the rows of the first, if there are any. -/
def fill (rows trends : Statement) : Script Statement ρ :=
  e.query rows fun a => if e.isEmpty a then .done else e.only trends

/-! The scripts. -/

def listTraces (f : TraceFilter) : Script Statement ρ :=
  e.query (listTracesTotal f) fun _ => e.only (listTracesPage f)

def listSpans (traceID : Str) (workspaceIDs : List Str) : Script Statement ρ :=
  e.only (getSpansStatement traceID workspaceIDs)

/-- The trace, then its spans; an unknown trace is not found. -/
def getTrace (traceID : Str) (workspaceIDs : List Str) : Script Statement ρ :=
  e.query (getTraceStatement traceID workspaceIDs) fun a =>
    if e.isEmpty a then .done else e.listSpans traceID workspaceIDs

def kpiWindow (f : MetricsFilter) (lo hi : Int) (next : Script Statement ρ) : Script Statement ρ :=
  e.query (kpiAggregates f lo hi) fun _ => e.query (costTotalStatement f lo hi) fun _ => next

/-- The tool surface comes from the spans of the last run. -/
def withTools (lastTraceID : Str) (workspaceIDs : List Str) : Script Statement ρ :=
  if lastTraceID = [] then .done else e.listSpans lastTraceID workspaceIDs

variable (date : DateFormat)

def kpiWindowRollup (f : MetricsFilter) (lo hi : Int) (inclusive : Bool) (next : Script Statement ρ) :
    Script Statement ρ :=
  e.query (kpiWindowRollupSQL date f lo hi inclusive) fun _ =>
    e.query (costTotalRollupSQL date f lo hi inclusive) fun _ => next

def overviewKPIs (f : MetricsFilter) : Script Statement ρ :=
  if f.useRollup then
    e.kpiWindowRollup date f f.start f.end' true (e.kpiWindowRollup date f f.prevStart f.start false .done)
  else
    e.kpiWindow f (unixMilli f.start) (unixMilli f.end')
      (e.kpiWindow f (unixMilli f.prevStart) (unixMilli f.start) .done)

def costSeries (f : MetricsFilter) : Script Statement ρ :=
  if f.useRollup then
    e.only (if f.narrowed then scopedCostSeriesRollupSQL date f else costSeriesRollupSQL date f)
  else
    e.only (if f.narrowed then costSeriesScoped f else costSeriesReconciled f)

/-- Long windows have no latency; nothing is asked. -/
def latencySeries (f : MetricsFilter) : Script Statement ρ :=
  if f.useRollup then .done else e.only (latencySeriesStatement f)

def errorSeries (f : MetricsFilter) : Script Statement ρ :=
  e.only (if f.useRollup then errorSeriesRollupSQL date f else errorSeriesStatement f)

def tokenSeries (f : MetricsFilter) : Script Statement ρ :=
  e.only (if f.useRollup then tokenSeriesRollupSQL date f else tokenSeriesStatement f)

def topWorkflows (f : MetricsFilter) (limit : Int) : Script Statement ρ :=
  if f.useRollup then e.fill (topWorkflowsRollupSQL date f limit) (workflowTrendsRollupSQL date f)
  else e.fill (topWorkflowsStatement f limit) (workflowTrends f)

def listWorkflows (f : MetricsFilter) (limit : Int) : Script Statement ρ :=
  if f.useRollup then e.fill (listWorkflowsRollupSQL date f limit) (workflowTrendsRollupSQL date f)
  else e.only (listWorkflowsStatement f limit)

/-- A workflow without runs is not found. -/
def workflowDetail (f : MetricsFilter) : Script Statement ρ :=
  if f.useRollup then
    e.query (workflowDetailRollupSQL date f) fun a =>
      if e.noCalls a then .done
      else e.query (workflowDetailLastRun f) fun last => e.withTools (e.lastTraceID last) f.workspaceIDs
  else
    e.query (workflowDetailStatement f) fun a =>
      if e.noCalls a then .done else e.withTools (e.lastTraceID a) f.workspaceIDs

def failures (f : MetricsFilter) (limit : Int) : Script Statement ρ :=
  if f.useRollup then e.query (failuresRollupSQL date f limit) fun _ => e.only (failuresTotalRollupSQL date f)
  else e.query (failuresStatement f limit) fun _ => e.only (failuresTotal f)

def modelCosts (f : MetricsFilter) (limit : Int) : Script Statement ρ :=
  e.only (if f.useRollup then modelCostsRollupSQL date f limit else modelCostsStatement f limit)

def userUsage (f : MetricsFilter) (limit : Int) : Script Statement ρ :=
  if f.useRollup then e.fill (userUsageRollupSQL date f limit) (userTrendsRollupSQL date f)
  else e.fill (userUsageStatement f limit) (userTrends f)

def workflowUsage (f : MetricsFilter) (limit : Int) : Script Statement ρ :=
  if f.useRollup then e.fill (workflowUsageRollupSQL date f limit) (fillWorkflowModels date f)
  else e.only (workflowUsageStatement f limit)

def workflowVersions (f : MetricsFilter) (limit : Int) : Script Statement ρ :=
  e.only (if f.useRollup then workflowVersionsRollupSQL date f limit else workflowVersionsStatement f limit)

end Engine

/-! Requests. -/

inductive ScopeError
  | unauthorized
  | internal
  | forbidden
  deriving DecidableEq

/-- The workspaces a request may read: the requested one, if the caller is a member, or all
of the caller's. -/
def resolveWorkspaceScope (allowedIDs : Str → Option (List Str)) (principal : Option Str)
    (requested : Str) : Except ScopeError (List Str) :=
  match principal with
  | none => .error .unauthorized
  | some userID =>
    if userID = [] then .error .unauthorized
    else match allowedIDs userID with
      | none => .error .internal
      | some allowed =>
        if requested = [] then .ok allowed
        else if allowed.any (· == requested) then .ok [requested]
        else .error .forbidden

/-- A read and its filters; the workspaces of a filter are set from the scope. The anomalies and
the setup checks are left out. -/
inductive Read
  | listTraces (f : TraceFilter)
  | getTrace (traceID : Str)
  | listSpans (traceID : Str)
  | overviewKPIs (f : MetricsFilter)
  | costSeries (f : MetricsFilter)
  | latencySeries (f : MetricsFilter)
  | errorSeries (f : MetricsFilter)
  | tokenSeries (f : MetricsFilter)
  | topWorkflows (f : MetricsFilter) (limit : Int)
  | listWorkflows (f : MetricsFilter) (limit : Int)
  | workflowDetail (f : MetricsFilter)
  | failures (f : MetricsFilter) (limit : Int)
  | modelCosts (f : MetricsFilter) (limit : Int)
  | userUsage (f : MetricsFilter) (limit : Int)
  | workflowUsage (f : MetricsFilter) (limit : Int)
  | workflowVersions (f : MetricsFilter) (limit : Int)
  | attributeKeys (f : MetricsFilter) (limit : Int)
  | usageByAttribute (f : MetricsFilter) (key : Str) (limit : Int)

def MetricsFilter.within (f : MetricsFilter) (scope : List Str) : MetricsFilter :=
  { f with workspaceIDs := scope }

section Serving

variable {Row ρ : Type} (e : Engine Row ρ) (date : DateFormat)

def Read.script (scope : List Str) : Read → Script Statement ρ
  | .listTraces f => e.listTraces { f with workspaceIDs := scope }
  | .getTrace traceID => e.getTrace traceID scope
  | .listSpans traceID => e.listSpans traceID scope
  | .overviewKPIs f => e.overviewKPIs date (f.within scope)
  | .costSeries f => e.costSeries date (f.within scope)
  | .latencySeries f => e.latencySeries (f.within scope)
  | .errorSeries f => e.errorSeries date (f.within scope)
  | .tokenSeries f => e.tokenSeries date (f.within scope)
  | .topWorkflows f limit => e.topWorkflows date (f.within scope) limit
  | .listWorkflows f limit => e.listWorkflows date (f.within scope) limit
  | .workflowDetail f => e.workflowDetail date (f.within scope)
  | .failures f limit => e.failures date (f.within scope) limit
  | .modelCosts f limit => e.modelCosts date (f.within scope) limit
  | .userUsage f limit => e.userUsage date (f.within scope) limit
  | .workflowUsage f limit => e.workflowUsage date (f.within scope) limit
  | .workflowVersions f limit => e.workflowVersions date (f.within scope) limit
  | .attributeKeys f limit => e.only (attributeKeysStatement (f.within scope) limit)
  | .usageByAttribute f key limit => e.only (usageByAttributeStatement (f.within scope) key limit)

/-- The statements sent and the answers got; the response is made from the answers alone. -/
def serve (store : Tables Row) (allowedIDs : Str → Option (List Str)) (principal : Option Str)
    (requested : Str) (read : Read) : Except ScopeError (List (Statement × ρ)) :=
  (resolveWorkspaceScope allowedIDs principal requested).map fun scope =>
    (read.script e date scope).transcript (e.answer store)

end Serving

end Tracium.Query
