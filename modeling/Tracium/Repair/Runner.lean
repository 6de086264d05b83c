import Mathlib.Algebra.BigOperators.GroupWithZero.Action
import Mathlib.Algebra.Order.Field.Rat
import Mathlib.Data.Multiset.Filter
import Tracium.Fallible
import Tracium.Go.Strconv
import Tracium.GroupBy

/-! rolluprepair: deleting and rebuilding days of the two daily rollups from the raw
spans. Every statement may fail, before or after it took effect, and time passes between
statements. What the tool prints is left out. -/
namespace Tracium.Repair

open Go GroupBy Fallible

/-- A bucket_date, as a number of days. -/
abbrev Day := Int

inductive Source where
  | span
  | metric
  deriving DecidableEq, Repr

/-- The columns of tracium.spans the two views and the stats read. -/
structure SpanRow where
  startTimeMs : Int
  receivedAt : Int
  source : Source
  userID : Str
  workspaceID : Str
  workflowName : Str
  workflowVersion : Str
  model : Str
  modelNormalized : Str
  costUSD : ℚ
  inputTokens : Int
  outputTokens : Int
  traceID : Str
  errorType : Str
  errorMessage : Str
  deriving DecidableEq

/-- The sorting key of metrics_daily. -/
structure DailyKey where
  bucketDate : Day
  userID : Str
  workspaceID : Str
  workflowName : Str
  workflowVersion : Str
  model : Str
  deriving DecidableEq

/-- A row of metrics_daily; `U` is the state of a distinct count. -/
structure DailyRow (U : Type) extends DailyKey where
  cost : ℚ
  inputTokens : Int
  outputTokens : Int
  spanCount : Nat
  runs : U
  errorRuns : U
  deriving DecidableEq

/-- The sorting key of metrics_daily_cost. -/
structure DailyCostKey where
  bucketDate : Day
  userID : Str
  workspaceID : Str
  deriving DecidableEq

structure DailyCostRow extends DailyCostKey where
  spanCost : ℚ
  metricCost : ℚ
  deriving DecidableEq

/-- What the tool relies on the ClickHouse server for. -/
structure Server (U : Type) where
  /-- toDate(start_time_ms / 1000). -/
  toDate : Int → Day
  /-- The bounds of dayPredicate, in milliseconds. -/
  dayStart : Day → Int
  dayEnd : Day → Int
  /-- A Date as ClickHouse prints it. -/
  dateString : Day → Str
  /-- as_select of a view in system.tables, empty when there is none. -/
  asSelect : Str → Str
  /-- EXPLAIN SYNTAX. -/
  explain : Str → List Str
  uniqState : List Str → U

variable {U : Type} (sv : Server U)

/-- dayPredicate. -/
def Server.dayPredicate (d : Day) (r : SpanRow) : Bool :=
  sv.dayStart d ≤ r.startTimeMs && r.startTimeMs < sv.dayEnd d

/-! The rollups. -/

inductive Rollup where
  | metricsDaily
  | metricsDailyCost
  deriving DecidableEq, Repr

def rollups : List Rollup := [.metricsDaily, .metricsDailyCost]

def Rollup.table : Rollup → Str
  | .metricsDaily => lit "tracium.metrics_daily"
  | .metricsDailyCost => lit "tracium.metrics_daily_cost"

def Rollup.view : Rollup → Str
  | .metricsDaily => lit "tracium.metrics_daily_mv"
  | .metricsDailyCost => lit "tracium.metrics_daily_cost_mv"

def Rollup.baseWhere : Rollup → Str
  | .metricsDaily => lit "source = 'span'"
  | .metricsDailyCost => []

def whereClause (body : Str) : Str := if body = [] then [] else lit "\nWHERE " ++ body

def Rollup.body : Rollup → Str → Str
  | .metricsDaily, whereBody =>
    lit ("SELECT\n    toDate(start_time_ms / 1000)                       AS bucket_date,\n" ++
      "    user_id,\n    workspace_id,\n    workflow_name,\n    workflow_version,\n" ++
      "    if(model_normalized != '', model_normalized, model) AS model,\n" ++
      "    sum(cost_usd)                                      AS cost,\n" ++
      "    sum(input_tokens)                                  AS input_tokens,\n" ++
      "    sum(output_tokens)                                 AS output_tokens,\n" ++
      "    count()                                            AS span_count,\n" ++
      "    uniqState(trace_id)                                AS runs,\n" ++
      "    uniqIfState(trace_id, error_type != '' OR error_message != '') AS error_runs\n" ++
      "FROM tracium.spans") ++ whereClause whereBody ++
      lit "\nGROUP BY bucket_date, user_id, workspace_id, workflow_name, workflow_version, model"
  | .metricsDailyCost, whereBody =>
    lit ("SELECT\n    toDate(start_time_ms / 1000)       AS bucket_date,\n" ++
      "    user_id,\n    workspace_id,\n" ++
      "    sumIf(cost_usd, source = 'span')   AS span_cost,\n" ++
      "    sumIf(cost_usd, source = 'metric') AS metric_cost\n" ++
      "FROM tracium.spans") ++ whereClause whereBody ++
      lit "\nGROUP BY bucket_date, user_id, workspace_id"

def Rollup.canonicalSelect (rp : Rollup) : Str := rp.body rp.baseWhere

/-- The predicate `baseWhere` spells. -/
def Rollup.reads : Rollup → SpanRow → Bool
  | .metricsDaily, r => r.source == .span
  | .metricsDailyCost, _ => true

def modelOf (r : SpanRow) : Str := if r.modelNormalized ≠ [] then r.modelNormalized else r.model

/-- The aggregating SELECT of metrics_daily; the token columns are 64 bits wide. -/
def metricsDailySelect (rows : List SpanRow) : List (DailyRow U) :=
  (groupBy (fun r => (⟨sv.toDate r.startTimeMs, r.userID, r.workspaceID, r.workflowName,
    r.workflowVersion, modelOf r⟩ : DailyKey)) rows).map fun g =>
      { g.1 with
        cost := (g.2.map SpanRow.costUSD).sum
        inputTokens := (g.2.map SpanRow.inputTokens).sum % 2 ^ 64
        outputTokens := (g.2.map SpanRow.outputTokens).sum % 2 ^ 64
        spanCount := g.2.length
        runs := sv.uniqState (g.2.map SpanRow.traceID)
        errorRuns := sv.uniqState
          ((g.2.filter fun r => r.errorType ≠ [] || r.errorMessage ≠ []).map SpanRow.traceID) }

/-- `sumIf(cost_usd, source = ...)`. -/
def sumCostIf (source : Source) (rows : List SpanRow) : ℚ :=
  ((rows.filter fun r => r.source = source).map SpanRow.costUSD).sum

def metricsDailyCostSelect (rows : List SpanRow) : List DailyCostRow :=
  (groupBy (fun r => (⟨sv.toDate r.startTimeMs, r.userID, r.workspaceID⟩ : DailyCostKey))
    rows).map fun g =>
    { g.1 with
      spanCost := sumCostIf .span g.2
      metricCost := sumCostIf .metric g.2 }

/-- The tables the tool reads and writes; a rollup is a multiset of rows. -/
structure Database (U : Type) where
  spans : List SpanRow
  daily : Multiset (DailyRow U)
  dailyCost : Multiset DailyCostRow

/-- The rows one day's rebuild of a rollup reads. -/
def Database.dayRows (db : Database U) (rp : Rollup) (d : Day) : List SpanRow :=
  db.spans.filter fun r => rp.reads r && sv.dayPredicate d r

/-- DeleteDay. -/
def deleteDay (rp : Rollup) (d : Day) (db : Database U) : Database U :=
  match rp with
  | .metricsDaily => { db with daily := db.daily.filter (·.bucketDate ≠ d) }
  | .metricsDailyCost => { db with dailyCost := db.dailyCost.filter (·.bucketDate ≠ d) }

/-- RebuildInsert. -/
def rebuildInsert (rp : Rollup) (d : Day) (db : Database U) : Database U :=
  match rp with
  | .metricsDaily =>
    { db with daily := db.daily + metricsDailySelect sv (db.dayRows sv .metricsDaily d) }
  | .metricsDailyCost =>
    { db with dailyCost :=
        db.dailyCost + metricsDailyCostSelect sv (db.dayRows sv .metricsDailyCost d) }

/-! Stats and guards. -/

structure DayStats where
  rawSpans : Nat
  distinctDays : Nat
  minDay : Day
  maxDay : Day
  ageSeconds : Int

structure Options where
  quiesceSeconds : Int
  allowEmpty : Bool
  force : Bool

/-- The rows SpanStatsWhere selects. -/
def Database.statsRows (db : Database U) (d : Day) : List SpanRow :=
  db.spans.filter fun r => r.source == .span && sv.dayPredicate d r

/-- statsSQL at the second `now`; the aggregates of no row are zero. -/
def Database.stats (db : Database U) (d : Day) (now : Int) : DayStats :=
  let rows := db.statsRows sv d
  let days := rows.map fun r => sv.toDate r.startTimeMs
  { rawSpans := rows.length
    distinctDays := days.dedup.length
    minDay := days.min?.getD 0
    maxDay := days.max?.getD 0
    ageSeconds := now - (rows.map SpanRow.receivedAt).max?.getD 0 }

inductive Action where
  | rebuild
  | skipEmpty
  | refuseOpen
  | refuseTimezone
  deriving DecidableEq, Repr

/-- Classify: the decision and its reason. -/
def classify (day : Day) (s : DayStats) (o : Options) : Action × Str :=
  if s.rawSpans = 0 then
    if o.allowEmpty then
      (.rebuild, lit "no spans remain; rebuilding to an empty day (--allow-empty)")
    else (.skipEmpty,
      lit "no spans remain (aged out under the spans TTL?); pass --allow-empty to empty this day")
  else if s.distinctDays ≠ 1 ∨ s.minDay ≠ day ∨ s.maxDay ≠ day then
    (.refuseTimezone, lit "time range for " ++ sv.dateString day ++ lit " covers bucket_date " ++
      sv.dateString s.minDay ++ lit ".." ++ sv.dateString s.maxDay ++
      lit " — the server timezone disagrees with the view's bucketing")
  else if s.ageSeconds < o.quiesceSeconds ∧ o.force = false then
    (.refuseOpen, lit "newest span for " ++ sv.dateString day ++ lit " arrived " ++
      itoa s.ageSeconds ++ lit "s ago (< " ++ itoa o.quiesceSeconds ++
      lit ("s); rebuilding a day still receiving spans double-counts — " ++
        "wait, stop ingestion, or pass --force"))
  else (.rebuild, lit "rebuilding from raw spans")

theorem classify_action (day : Day) (s : DayStats) (o : Options) :
    (classify sv day s o).1 =
      if s.rawSpans = 0 then if o.allowEmpty then .rebuild else .skipEmpty
      else if s.distinctDays ≠ 1 ∨ s.minDay ≠ day ∨ s.maxDay ≠ day then .refuseTimezone
      else if s.ageSeconds < o.quiesceSeconds ∧ o.force = false then .refuseOpen
      else .rebuild := by
  simp only [classify, apply_ite Prod.fst]

/-! The runner. -/

/-- How a statement ends: an error may be reported although it took effect. -/
inductive Reply where
  | ok
  | failed (applied : Bool) (err : Str)

/-- One run's environment: the fate of its statements and the clock at each of them. -/
structure Env where
  reply : Nat → Reply
  now : Nat → Int

structure Session (U : Type) where
  db : Database U
  statement : Nat

variable (env : Env)

/-- A statement with this effect. -/
def exec (change : Database U → Database U) : Command (Session U) Str := fun s =>
  match env.reply s.statement with
  | .ok => (⟨change s.db, s.statement + 1⟩, none)
  | .failed applied err => (⟨if applied then change s.db else s.db, s.statement + 1⟩, some err)

/-- A query. -/
def query : Command (Session U) Str := exec env id

/-- `strings.TrimPrefix(rp.View, "tracium.")`. -/
def Rollup.viewName (rp : Rollup) : Str := rp.view.drop (lit "tracium.").length

/-- squash: the text without white space. -/
def squash (s : Str) : Str := ((pieces s).filter fun p => !isSpace p.rune).flatMap Piece.bytes

/-- explain: the lines of EXPLAIN SYNTAX, joined. -/
def Server.explained (sql : Str) : Str := (lit "\n").intercalate (sv.explain sql)

/-- DriftMatches. -/
def driftMatches (mineNormalized liveNormalized : Str) : Bool :=
  squash mineNormalized == squash liveNormalized && liveNormalized ≠ []

/-- The drift check of one rollup. -/
def checkView (rp : Rollup) : Command (Session U) Str :=
  let live := sv.asSelect rp.viewName
  andThen (mapError (lit "read " ++ rp.view ++ lit " definition: " ++ ·) (query env)) <|
    if trimSpace live = [] then
      fail (rp.view ++ lit " does not exist — run the migrations first")
    else
      andThen (mapError (lit "normalize mirror for " ++ rp.table ++ lit ": " ++ ·) (query env)) <|
      andThen (mapError (lit "normalize live " ++ rp.view ++ lit ": " ++ ·) (query env)) <|
        if driftMatches (sv.explained rp.canonicalSelect) (sv.explained live) then skip
        else fail (rp.view ++
          lit " aggregates differently from this tool's mirror — refusing to rebuild.\nlive view:\n" ++
          live)

def preflight : Command (Session U) Str := forEach (checkView sv env) rollups

structure Runner where
  opts : Options
  dryRun : Bool

/-- The two statements that rebuild one rollup for one day. -/
def rebuildRollup (r : Runner) (d : Day) (rp : Rollup) : Command (Session U) Str :=
  if r.dryRun then skip
  else
    andThen
      (mapError (lit "delete " ++ rp.table ++ lit " for " ++ sv.dateString d ++ lit ": " ++ ·)
        (exec env (deleteDay rp d)))
      (mapError (lit "rebuild " ++ rp.table ++ lit " for " ++ sv.dateString d ++ lit ": " ++ ·)
        (exec env (rebuildInsert sv rp d)))

def repairDay (r : Runner) (d : Day) : Command (Session U) Str := fun s =>
  match query env s with
  | (s', some err) =>
    (s', some (lit "gather stats for " ++ sv.dateString d ++ lit ": " ++ err))
  | (s', none) =>
    match classify sv d (s.db.stats sv d (env.now s.statement)) r.opts with
    | (.skipEmpty, _) => (s', none)
    | (.refuseOpen, reason) => (s', some (sv.dateString d ++ lit ": " ++ reason))
    | (.refuseTimezone, reason) => (s', some (sv.dateString d ++ lit ": " ++ reason))
    | (.rebuild, _) => forEach (rebuildRollup sv env r d) rollups s'

/-- Run: the database it leaves, and the error if it stopped. -/
def run (r : Runner) (days : List Day) (db : Database U) : Database U × Option Str :=
  let last := andThen (preflight sv env) (forEach (repairDay sv env r) days) ⟨db, 0⟩
  (last.1.db, last.2)

end Tracium.Repair
