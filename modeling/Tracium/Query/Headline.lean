import Mathlib.Algebra.Order.Field.Rat
import Mathlib.Algebra.BigOperators.GroupWithZero.Action
import Tracium.Query.Series

/-! The headline KPIs and the charts beside them, on raw spans. The two relations are
lists of rows, costs are exact rationals, and a GROUP BY is `groupBy`. -/
namespace Tracium.Query

open Go OrderedMap GroupBy

/-- The columns of tracium.calls and tracium.usage_metrics these queries read. -/
structure SpanRow where
  traceID : Str
  startTimeMs : Int
  endTimeMs : Int
  costUSD : ℚ
  userID : Str
  workspaceID : Str
  errorType : Str
  errorMessage : Str

structure Store where
  calls : List SpanRow
  usageMetrics : List SpanRow

/-- The WHERE clause of `window`; an empty workspace list matches nothing. -/
def inWindow (user : Str) (workspaces : List Str) (lo hi : Int) (r : SpanRow) : Bool :=
  lo ≤ r.startTimeMs && r.startTimeMs < hi && (user == [] || r.userID == user) &&
    workspaces.contains r.workspaceID

/-- A row of the union of both cost relations. -/
structure CostEntry where
  startTimeMs : Int
  spanCost : ℚ
  metricCost : ℚ

def reconciledCostUnion (store : Store) (keep : SpanRow → Bool) : List CostEntry :=
  (store.calls.filter keep).map (fun r => ⟨r.startTimeMs, r.costUSD, 0⟩) ++
    (store.usageMetrics.filter keep).map fun r => ⟨r.startTimeMs, 0, r.costUSD⟩

/-- `greatest(sum(span_cost), sum(metric_cost))`. -/
def reconciledCost (entries : List CostEntry) : ℚ :=
  max (entries.map CostEntry.spanCost).sum (entries.map CostEntry.metricCost).sum

def costTotal (store : Store) (user : Str) (workspaces : List Str) (lo hi bucketMs : Int) : ℚ :=
  let union := reconciledCostUnion store (inWindow user workspaces lo hi)
  ((groupBy (fun e => e.startTimeMs.tdiv bucketMs) union).map fun g => reconciledCost g.2).sum

/-! Traces: the rows of one trace_id. -/

/-- The traces of the rows that pass the clause. -/
def traces (store : Store) (keep : SpanRow → Bool) : List (List SpanRow) :=
  (groupBy SpanRow.traceID (store.calls.filter keep)).map Prod.snd

def spanErrored (r : SpanRow) : Bool := r.errorType != [] || r.errorMessage != []

/-- `max(spanErrored)`. -/
def errored (trace : List SpanRow) : Bool := trace.any spanErrored

/-- `min(start_time_ms)`, 0 on the empty trace, which no GROUP BY yields. -/
def startedMs : List SpanRow → Int
  | [] => 0
  | r :: rest => rest.foldl (fun ms r => min ms r.startTimeMs) r.startTimeMs

def endedMs : List SpanRow → Int
  | [] => 0
  | r :: rest => rest.foldl (fun ms r => max ms r.endTimeMs) r.endTimeMs

def traceDuration (trace : List SpanRow) : Int := endedMs trace - startedMs trace

structure KpiRow where
  cost : ℚ
  p95 : ℚ
  errRate : ℚ
  runs : Int

structure KPI where
  value : ℚ
  delta : ℚ
  deltaType : Str

structure KPISet where
  cost : KPI
  runs : KPI
  latencyP95 : KPI
  errorRate : KPI

def boolToDelta (good : Bool) : Str := if good then lit "good" else lit "bad"

def kpi (cur prev : ℚ) (higherIsBad : Bool) : KPI :=
  if prev = 0 then ⟨cur, 0, lit "neutral"⟩
  else ⟨cur, (cur - prev) / prev,
    if cur > prev then boolToDelta !higherIsBad
    else if cur < prev then boolToDelta higherIsBad
    else lit "neutral"⟩

structure CostPoint where
  bucketMs : Int
  value : ℚ

structure ErrorPoint where
  bucketMs : Int
  errors : Int
  total : Int

/-- What the long-window path answers; it reads the daily rollup, not the rows. -/
structure RollupPath where
  overviewKPIs : MetricsFilter → KPISet
  costSeries : MetricsFilter → List CostPoint
  errorSeries : MetricsFilter → List ErrorPoint

section Queries

/- ClickHouse leaves ties of argMin open and approximates quantiles, so what
workflowExpr and versionExpr derive from a trace, and the 0.95 quantile, are parameters. -/
variable (workflowOf versionOf : List SpanRow → Str) (quantile95 : List Int → ℚ)
  (rollup : RollupPath) (store : Store)

/-- kpiWindow; over an empty window the average is NaN and sanitized to 0, as is `0 / 0`. -/
def kpiWindow (f : MetricsFilter) (lo hi : Int) : KpiRow :=
  let runs := traces store (inWindow f.userID f.workspaceIDs lo hi)
  { cost := costTotal store f.userID f.workspaceIDs lo hi (milliseconds f.bucket)
    p95 := if runs = [] then 0 else quantile95 (runs.map traceDuration)
    errRate := (runs.countP errored : ℚ) / (runs.length : ℚ)
    runs := runs.length }

def overviewKPIs (f : MetricsFilter) : KPISet :=
  if f.useRollup then rollup.overviewKPIs f
  else
    let cur := kpiWindow quantile95 store f (unixMilli f.start) (unixMilli f.end')
    let prev := kpiWindow quantile95 store f (unixMilli f.prevStart) (unixMilli f.start)
    { cost := kpi cur.cost prev.cost true
      runs := kpi cur.runs prev.runs false
      latencyP95 := kpi cur.p95 prev.p95 true
      errorRate := kpi cur.errRate prev.errRate true }

/-- The outer WHERE of traceScope. -/
def inScope (f : MetricsFilter) (trace : List SpanRow) : Bool :=
  (f.workflow == [] || workflowOf trace == f.workflow) &&
    (f.version == [] || versionOf trace == f.version)

/-- The clause over the current window. -/
def currentWindow (f : MetricsFilter) : SpanRow → Bool :=
  inWindow f.userID f.workspaceIDs (unixMilli f.start) (unixMilli f.end')

/-- The traces of the window that pass the workflow and version filters. -/
def scopedTraces (f : MetricsFilter) : List (List SpanRow) :=
  (traces store (currentWindow f)).filter (inScope workflowOf versionOf f)

/-- A scoped cost series is span-only and rolls up to traces; the unscoped one
reconciles both relations per bucket. -/
def costSeries (f : MetricsFilter) : List CostPoint :=
  if f.useRollup then rollup.costSeries f
  else if f.workflow ≠ [] ∨ f.version ≠ [] then
    bucketSeries f 0 CostPoint.mk
      ((groupBy (fun trace => bucketOf (milliseconds f.bucket) (startedMs trace))
        (scopedTraces workflowOf versionOf store f)).map fun g =>
          (g.1, (g.2.map fun trace => (trace.map SpanRow.costUSD).sum).sum))
  else
    bucketSeries f 0 CostPoint.mk
      ((groupBy (fun e => bucketOf (milliseconds f.bucket) e.startTimeMs)
        (reconciledCostUnion store (currentWindow f))).map fun g => (g.1, reconciledCost g.2))

def errorPoint (bm : Int) (p : ErrorPoint) : ErrorPoint := { p with bucketMs := bm }

def errorSeries (f : MetricsFilter) : List ErrorPoint :=
  if f.useRollup then rollup.errorSeries f
  else
    bucketSeries f ⟨0, 0, 0⟩ errorPoint
      ((groupBy (fun trace => bucketOf (milliseconds f.bucket) (startedMs trace))
        (scopedTraces workflowOf versionOf store f)).map fun g =>
          (g.1, ⟨g.1, g.2.countP errored, g.2.length⟩))

end Queries

/-! Every grouped key is the bucket of an instant of the window. -/

theorem inWindow_bounds (kept : inWindow user workspaces lo hi r = true) :
    lo ≤ r.startTimeMs ∧ r.startTimeMs < hi := by
  simp only [inWindow, Bool.and_eq_true, decide_eq_true_eq] at kept
  exact kept.1.1

theorem startedMs_mem (trace : List SpanRow) (nonempty : trace ≠ []) :
    ∃ r ∈ trace, startedMs trace = r.startTimeMs := by
  obtain ⟨first, rest, rfl⟩ := List.exists_cons_of_ne_nil nonempty
  simp only [startedMs]
  induction rest generalizing first with
  | nil => exact ⟨first, List.mem_cons_self .., rfl⟩
  | cons r rest ih =>
    rw [List.foldl_cons]
    rcases Int.le_total first.startTimeMs r.startTimeMs with le | le
    · rw [Int.min_eq_left le]
      obtain ⟨row, member, started⟩ := ih first (List.cons_ne_nil _ _)
      refine ⟨row, ?_, started⟩
      rcases List.mem_cons.mp member with rfl | later
      · exact List.mem_cons_self ..
      · exact List.mem_cons_of_mem _ (List.mem_cons_of_mem _ later)
    · rw [Int.min_eq_right le]
      obtain ⟨row, member, started⟩ := ih r (List.cons_ne_nil _ _)
      exact ⟨row, List.mem_cons_of_mem _ member, started⟩

section Window

variable {store : Store} {f : MetricsFilter}
  (nonneg : ∀ r ∈ store.calls ++ store.usageMetrics, 0 ≤ r.startTimeMs)
  (positive : 0 < milliseconds f.bucket)

include nonneg positive

theorem union_onAxis (e : CostEntry) (member : e ∈ reconciledCostUnion store (currentWindow f)) :
    bucketOf (milliseconds f.bucket) e.startTimeMs ∈ (bucketAxis f).slots := by
  obtain ⟨r, inStore, kept, time⟩ : ∃ r ∈ store.calls ++ store.usageMetrics,
      currentWindow f r = true ∧ e.startTimeMs = r.startTimeMs := by
    rcases List.mem_append.mp member with call | metric
    · obtain ⟨r, filtered, rfl⟩ := List.mem_map.mp call
      obtain ⟨inCalls, kept⟩ := List.mem_filter.mp filtered
      exact ⟨r, List.mem_append_left _ inCalls, kept, rfl⟩
    · obtain ⟨r, filtered, rfl⟩ := List.mem_map.mp metric
      obtain ⟨inMetrics, kept⟩ := List.mem_filter.mp filtered
      exact ⟨r, List.mem_append_right _ inMetrics, kept, rfl⟩
  obtain ⟨after, before⟩ := inWindow_bounds kept
  rw [time]
  exact bucketOf_mem_slots f positive (nonneg r inStore) after before

theorem trace_onAxis (trace : List SpanRow) (member : trace ∈ traces store (currentWindow f)) :
    bucketOf (milliseconds f.bucket) (startedMs trace) ∈ (bucketAxis f).slots := by
  obtain ⟨g, grouped, rfl⟩ := List.mem_map.mp member
  obtain ⟨r, inRows, key⟩ := groupBy_key_mem grouped
  have group := groupBy_group grouped
  have nonempty : g.2 ≠ [] := by
    rw [group]
    exact List.ne_nil_of_mem (List.mem_filter.mpr ⟨inRows, by simpa using key⟩)
  obtain ⟨first, inTrace, started⟩ := startedMs_mem g.2 nonempty
  rw [group] at inTrace
  obtain ⟨inCalls, kept⟩ := List.mem_filter.mp (List.mem_filter.mp inTrace).1
  obtain ⟨after, before⟩ := inWindow_bounds kept
  rw [started]
  exact bucketOf_mem_slots f positive (nonneg first (List.mem_append_left _ inCalls)) after before

omit nonneg in
/-- The KPI groups by the quotient, the chart by the quotient times the width. -/
theorem costTotal_eq_groups :
    costTotal store f.userID f.workspaceIDs (unixMilli f.start) (unixMilli f.end')
        (milliseconds f.bucket) =
      ((groupBy (fun e => bucketOf (milliseconds f.bucket) e.startTimeMs)
        (reconciledCostUnion store (currentWindow f))).map fun g => reconciledCost g.2).sum := by
  have injective : Function.Injective fun q : Int => q * milliseconds f.bucket := by
    intro q q' same
    exact Int.eq_of_mul_eq_mul_right (by omega) same
  simp only [bucketOf]
  rw [groupBy_relabel _ injective, List.map_map]
  rfl

theorem costSeries_sum (workflowOf versionOf : List SpanRow → Str) (rollup : RollupPath)
    (raw : f.useRollup = false) (noWorkflow : f.workflow = []) (noVersion : f.version = []) :
    ((costSeries workflowOf versionOf rollup store f).map CostPoint.value).sum =
      costTotal store f.userID f.workspaceIDs (unixMilli f.start) (unixMilli f.end')
        (milliseconds f.bucket) := by
  rw [costTotal_eq_groups positive]
  simp only [costSeries, raw, noWorkflow, noVersion, Bool.false_eq_true, ↓reduceIte, ne_eq,
    not_true_eq_false, or_self]
  rw [bucketSeries_sum f positive 0 CostPoint.mk _ (groupBy_distinct _ _ _) ?_ CostPoint.value id
    (fun _ _ => rfl) rfl, List.map_map]
  · rfl
  · intro e member
    obtain ⟨g, grouped, rfl⟩ := List.mem_map.mp member
    obtain ⟨entry, inUnion, key⟩ := groupBy_key_mem grouped
    rw [← key]
    exact union_onAxis nonneg positive entry inUnion

omit nonneg positive in
theorem scopedTraces_unscoped (workflowOf versionOf : List SpanRow → Str)
    (noWorkflow : f.workflow = []) (noVersion : f.version = []) :
    scopedTraces workflowOf versionOf store f = traces store (currentWindow f) := by
  simp [scopedTraces, inScope, noWorkflow, noVersion]

theorem errorSeries_sum (workflowOf versionOf : List SpanRow → Str) (rollup : RollupPath)
    (raw : f.useRollup = false) (noWorkflow : f.workflow = []) (noVersion : f.version = []) :
    ((errorSeries workflowOf versionOf rollup store f).map ErrorPoint.total).sum =
        (traces store (currentWindow f)).length ∧
      ((errorSeries workflowOf versionOf rollup store f).map ErrorPoint.errors).sum =
        (traces store (currentWindow f)).countP errored := by
  have onAxis : ∀ e ∈ (groupBy (fun trace => bucketOf (milliseconds f.bucket) (startedMs trace))
      (traces store (currentWindow f))).map fun g =>
        (g.1, (⟨g.1, g.2.countP errored, g.2.length⟩ : ErrorPoint)), e.1 ∈ (bucketAxis f).slots := by
    intro e member
    obtain ⟨g, grouped, rfl⟩ := List.mem_map.mp member
    obtain ⟨trace, inTraces, key⟩ := groupBy_key_mem grouped
    rw [← key]
    exact trace_onAxis nonneg positive trace inTraces
  simp only [errorSeries, raw, Bool.false_eq_true, ↓reduceIte,
    scopedTraces_unscoped workflowOf versionOf noWorkflow noVersion]
  constructor
  · rw [bucketSeries_sum f positive _ errorPoint _ (groupBy_distinct _ _ _) onAxis ErrorPoint.total
      ErrorPoint.total (fun _ _ => rfl) rfl, List.map_map]
    exact length_groupBy _ _
  · rw [bucketSeries_sum f positive _ errorPoint _ (groupBy_distinct _ _ _) onAxis ErrorPoint.errors
      ErrorPoint.errors (fun _ _ => rfl) rfl, List.map_map]
    exact countP_groupBy _ _ _

end Window

theorem kpi_value (cur prev : ℚ) (higherIsBad : Bool) : (kpi cur prev higherIsBad).value = cur := by
  unfold kpi
  split <;> rfl

/-- Runs times the error rate is the number of errored runs, also when there are none. -/
theorem runs_mul_errRate (runs : List (List SpanRow)) :
    (runs.length : ℚ) * ((runs.countP errored : ℚ) / (runs.length : ℚ)) = runs.countP errored := by
  by_cases empty : runs = []
  · subst empty
    simp
  · have positive : (runs.length : ℚ) ≠ 0 := by
      simpa using empty
    exact mul_div_cancel₀ _ positive

theorem bucketOf_slot_unique (f : MetricsFilter) {t : Int} (positive : 0 < milliseconds f.bucket)
    (nonneg : 0 ≤ t) (after : unixMilli f.start ≤ t) (before : t < unixMilli f.end') :
    ∃! i, i < (bucketAxis f).n ∧ (bucketAxis f).slot i = bucketOf (milliseconds f.bucket) t := by
  obtain ⟨i, bound, slot⟩ := List.mem_map.mp (bucketOf_mem_slots f positive nonneg after before)
  rw [List.mem_range] at bound
  refine ⟨i, ⟨bound, slot⟩, ?_⟩
  rintro j ⟨bound', slot'⟩
  have index := (bucketAxis f).index_slot positive bound
  rw [slot, ← slot', (bucketAxis f).index_slot positive bound'] at index
  exact Option.some.inj index

/-- The buckets a query over the window can return. -/
def WindowBucket (f : MetricsFilter) (bm : Int) : Prop :=
  ∃ t, 0 ≤ t ∧ unixMilli f.start ≤ t ∧ t < unixMilli f.end' ∧ bm = bucketOf (milliseconds f.bucket) t

theorem WindowBucket.mem_slots {f : MetricsFilter} (positive : 0 < milliseconds f.bucket)
    (bucket : WindowBucket f bm) : bm ∈ (bucketAxis f).slots := by
  obtain ⟨t, nonneg, after, before, rfl⟩ := bucket
  exact bucketOf_mem_slots f positive nonneg after before

theorem headline_equals_chart (workflowOf versionOf : List SpanRow → Str) (quantile95 : List Int → ℚ)
    (rollup : RollupPath) (store : Store) (f : MetricsFilter) (raw : f.useRollup = false)
    (noWorkflow : f.workflow = []) (noVersion : f.version = [])
    (positive : 0 < milliseconds f.bucket)
    (nonneg : ∀ r ∈ store.calls ++ store.usageMetrics, 0 ≤ r.startTimeMs) :
    ((overviewKPIs quantile95 rollup store f).cost.value =
        ((costSeries workflowOf versionOf rollup store f).map CostPoint.value).sum ∧
      (overviewKPIs quantile95 rollup store f).runs.value =
        ((errorSeries workflowOf versionOf rollup store f).map ErrorPoint.total).sum ∧
      (overviewKPIs quantile95 rollup store f).runs.value *
          (overviewKPIs quantile95 rollup store f).errorRate.value =
        ((errorSeries workflowOf versionOf rollup store f).map ErrorPoint.errors).sum) ∧
    (∀ t, 0 ≤ t → unixMilli f.start ≤ t → t < unixMilli f.end' →
      ∃! i, i < (bucketAxis f).n ∧ (bucketAxis f).slot i = bucketOf (milliseconds f.bucket) t) ∧
    (∀ (V P : Type) (zero : V) (point : Int → V → P) (rows : List (Int × V)), DistinctKeys rows →
      bucketSeries f zero point rows =
        (bucketAxis f).slots.map fun bm => point bm ((get rows bm).getD zero)) ∧
    (∀ counts, DistinctKeys counts → (∀ e ∈ counts, WindowBucket f e.1) →
      zeroFillTrend f counts = (bucketAxis f).slots.map fun bm => (get counts bm).getD 0) ∧
    ∀ (V : Type) (zero : V) (names : List Str) (results : List (Str × Int × V)), names.Nodup →
      DistinctKeys (results.map fun e => ((e.1, e.2.1), e.2.2)) →
      (∀ e ∈ results, WindowBucket f e.2.1) →
      fillTrends f zero names results = names.map fun name => (bucketAxis f).slots.map fun bm =>
        (get (results.map fun e => ((e.1, e.2.1), e.2.2)) (name, bm)).getD zero := by
  have kpis : overviewKPIs quantile95 rollup store f =
      { cost := kpi _ _ true, runs := kpi _ _ false, latencyP95 := kpi _ _ true,
        errorRate := kpi _ _ true } := if_neg (by simp [raw])
  obtain ⟨totals, errors⟩ :=
    errorSeries_sum nonneg positive workflowOf versionOf rollup raw noWorkflow noVersion
  have costs := costSeries_sum nonneg positive workflowOf versionOf rollup raw noWorkflow noVersion
  refine ⟨⟨?_, ?_, ?_⟩, ?_, ?_, ?_, ?_⟩
  · rw [kpis, kpi_value, costs]
    rfl
  · rw [kpis, kpi_value, totals]
    rfl
  · rw [kpis, kpi_value, kpi_value, errors]
    exact_mod_cast runs_mul_errRate (traces store (currentWindow f))
  · intro t nonneg after before
    exact bucketOf_slot_unique f positive nonneg after before
  · intro V P zero point rows distinct
    exact bucketSeries_eq f zero point rows distinct
  · intro counts distinct buckets
    exact zeroFillTrend_eq f positive counts distinct fun e member =>
      (buckets e member).mem_slots positive
  · intro V zero names results ranked distinct buckets
    exact fillTrends_eq f positive zero names ranked results distinct fun e member =>
      (buckets e member).mem_slots positive

/-- Two runs in an unaligned one-minute window, the first with a metered twin. -/
def minuteStore : Store where
  calls := [⟨lit "t1", 70000, 70500, 2, [], lit "w", [], []⟩, ⟨lit "t2", 119999, 120100, 3, [], lit "w",
    lit "timeout", []⟩]
  usageMetrics := [⟨[], 61000, 61000, 5 / 2, [], lit "w", [], []⟩]

def minuteFilter : MetricsFilter :=
  ⟨[], [lit "w"], [], [], 60500 * 1000000, 120500 * 1000000, 500 * 1000000, 7000 * 1000000⟩

def noRollup : RollupPath :=
  ⟨fun _ => ⟨⟨0, 0, []⟩, ⟨0, 0, []⟩, ⟨0, 0, []⟩, ⟨0, 0, []⟩⟩, fun _ => [], fun _ => []⟩

theorem headline_equals_chart_minute :
    (overviewKPIs (fun _ => 0) noRollup minuteStore minuteFilter).cost.value = 15 / 2 ∧
    (overviewKPIs (fun _ => 0) noRollup minuteStore minuteFilter).cost.value =
      ((costSeries (fun _ => []) (fun _ => []) noRollup minuteStore minuteFilter).map
        CostPoint.value).sum ∧
    (overviewKPIs (fun _ => 0) noRollup minuteStore minuteFilter).runs.value = 2 :=
  have chart := headline_equals_chart (fun _ => []) (fun _ => []) (fun _ => 0) noRollup minuteStore
    minuteFilter (by decide) rfl rfl (by decide) (by decide)
  ⟨by decide +kernel, chart.1.1, by decide +kernel⟩

end Tracium.Query
