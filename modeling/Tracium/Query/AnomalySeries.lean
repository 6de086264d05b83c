import Tracium.Anomaly.Exact
import Tracium.Go.Float64
import Tracium.Go.Strconv
import Tracium.Query.Series

/-! The daily aggregates of one series, projected onto the axis and scored metric by
metric. A metric's value is over any number type; the scores are exact. -/
namespace Tracium.Query

open Go Anomaly

inductive Metric where
  | cost
  | errorRate
  | runs
  deriving DecidableEq

inductive Scope where
  | workspace
  | workflow
  deriving DecidableEq

structure DailyAgg (α : Type) where
  cost : α
  (runs errRuns : Int)
  deriving DecidableEq

/-- What a Go map read gives for a missing day. -/
def DailyAgg.zero {α : Type} [Zero α] : DailyAgg α := ⟨0, 0, 0⟩

structure VersionChange where
  workflow : Str
  version : Str
  firstSeenMs : Int
  deriving DecidableEq

structure Anomaly (α : Type) where
  metric : Metric
  scope : Scope
  workflow : Str
  bucketMs : Int
  (observed expected deviation score : α)
  direction : Direction
  severity : Severity
  summary : Str
  versionChange : Option VersionChange

/-- The value of a day and the volume behind it; `float64` converts a count. -/
def metricValue {α : Type} [Zero α] [Div α] (float64 : Int → α) (d : DailyAgg α) : Metric → α × α
  | .cost => (d.cost, d.cost)
  | .runs => (float64 d.runs, float64 d.runs)
  | .errorRate => (if 0 < d.runs then float64 d.errRuns / float64 d.runs else 0, float64 d.runs)

/-! Dates and numbers as the summaries print them. -/

/-- The calendar date of a day number since 1970-01-01: year, month, day. -/
def civil (days : Int) : Int × Int × Int :=
  let z := days + 719468
  let era := z / 146097
  let doe := z - era * 146097
  let yoe := (doe - doe / 1460 + doe / 36524 - doe / 146096) / 365
  let doy := doe - (365 * yoe + yoe / 4 - yoe / 100)
  let mp := (5 * doy + 2) / 153
  let month := if mp < 10 then mp + 3 else mp - 9
  (if month ≤ 2 then yoe + era * 400 + 1 else yoe + era * 400, month, doy - (153 * mp + 2) / 5 + 1)

/-- `%0*d` of a number that is not negative. -/
def padded (width : Nat) (n : Int) : Str :=
  List.replicate (width - (itoa n).length) 0x30 ++ itoa n

/-- `time.UnixMilli(ms).UTC().Format(dateFmt)`. -/
def formatDate (ms : Int) : Str :=
  let (year, month, day) := civil (ms / 86400000)
  padded 4 year ++ lit "-" ++ padded 2 month ++ lit "-" ++ padded 2 day

example : formatDate 864000000 = lit "1970-01-11" ∧ formatDate 951782400000 = lit "2000-02-29" := by
  decide +kernel

/-- `%.*f`. -/
def fixed (places : Nat) (x : ℚ) : Str :=
  let scaled := nearestEven (|x| * 10 ^ places)
  let whole := (if x < 0 then lit "-" else []) ++ itoa (scaled / 10 ^ places)
  if places = 0 then whole else whole ++ lit "." ++ padded places (scaled % 10 ^ places)

def formatAnomalyValue (metric : Metric) (v : ℚ) : Str :=
  match metric with
  | .cost => lit "$" ++ fixed 2 v
  | .errorRate => fixed 1 (v * 100) ++ lit "%"
  | .runs => fixed 0 v

def Metric.noun : Metric → Str
  | .cost => lit "cost"
  | .runs => lit "run volume"
  | .errorRate => lit "error rate"

/-- `quote` is `%q`. -/
def anomalySummary (quote : Str → Str) (a : Anomaly ℚ) : Str :=
  let subject := match a.scope with
    | .workspace => lit "Workspace"
    | .workflow => lit "Workflow " ++ quote a.workflow
  let date := formatDate a.bucketMs
  let obs := formatAnomalyValue a.metric a.observed
  let exp := formatAnomalyValue a.metric a.expected
  let head := subject ++ lit " " ++ a.metric.noun
  if a.direction = .drop then
    head ++ lit " fell to " ++ obs ++ lit " on " ++ date ++ lit ", from a typical " ++ exp ++ lit "."
  else if 0 < a.expected then
    head ++ lit " rose to " ++ obs ++ lit " on " ++ date ++ lit ", " ++ fixed 1 (a.observed / a.expected) ++
      lit "× the typical " ++ exp ++ lit "."
  else head ++ lit " rose to " ++ obs ++ lit " on " ++ date ++ lit ", from near zero."

/-! Scoring. -/

structure AnomalyMetric where
  name : Metric
  (absFloor volumeFloor : ℚ)
  (spike drop : Bool)

def anomalyMetrics : List AnomalyMetric :=
  [⟨.cost, 1, 1, true, false⟩, ⟨.errorRate, 1 / 20, 20, true, false⟩, ⟨.runs, 5, 10, true, true⟩]

def anomalyBaselineDays : Nat := 28
def anomalyMinBaseline : Int := 7
def anomalyMinBaselineActive : Int := 10
def anomalyResultLimit : Nat := 100

def AnomalyMetric.options (m : AnomalyMetric) (detectFrom : Int) : Options ℚ :=
  ⟨anomalyBaselineDays, anomalyMinBaseline, anomalyMinBaselineActive, detectFrom, 3, 9 / 2, 6,
    m.absFloor, m.volumeFloor, m.spike, m.drop⟩

/-- The exact count. -/
def count (n : Int) : ℚ := n

/-- One point per slot; sanitize changes only NaN and the infinities. -/
def seriesPoints (axis : List Int) (byBucket : Int → DailyAgg ℚ) (metric : Metric) : List (Point ℚ) :=
  axis.map fun bm =>
    ⟨bm, (metricValue count (byBucket bm) metric).1, (metricValue count (byBucket bm) metric).2⟩

/-- The fields of the filter that narrow the output; an unset severity is `none`. -/
structure AnomalyFilter extends MetricsFilter where
  anomalyMetric : Option Metric
  anomalyMinSeverity : Severity

/-- A detector's result as an anomaly of the series. -/
def toAnomaly (quote : Str → Str) (metric : Metric) (scope : Scope) (workflow : Str) (res : Result ℚ) :
    Anomaly ℚ :=
  let a : Anomaly ℚ := ⟨metric, scope, workflow, res.bucketMs, res.observed, res.expected, res.deviation,
    res.score, res.direction, res.severity, [], none⟩
  { a with summary := anomalySummary quote a }

def detectSeries (quote : Str → Str) (f : AnomalyFilter) (scope : Scope) (workflow : Str) (axis : List Int)
    (byBucket : Int → DailyAgg ℚ) (detectFrom : Int) : List (Anomaly ℚ) :=
  (anomalyMetrics.filter fun m => f.anomalyMetric = none ∨ f.anomalyMetric = some m.name).flatMap fun m =>
    ((detect exact (seriesPoints axis byBucket m.name) (m.options detectFrom)).filter
      fun res => f.anomalyMinSeverity.rank ≤ res.severity.rank).map (toAnomaly quote m.name scope workflow)

/-- Anomalies come out of the detector without a version change. -/
theorem detectSeries_fresh {quote : Str → Str} {f : AnomalyFilter} {scope : Scope} {workflow : Str}
    {axis : List Int} {byBucket : Int → DailyAgg ℚ} {detectFrom : Int} {a : Anomaly ℚ}
    (member : a ∈ detectSeries quote f scope workflow axis byBucket detectFrom) : a.versionChange = none := by
  obtain ⟨m, _, reported⟩ := List.mem_flatMap.mp member
  obtain ⟨res, _, rfl⟩ := List.mem_map.mp reported
  rfl

end Tracium.Query
