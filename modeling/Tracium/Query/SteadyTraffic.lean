import Tracium.Anomaly.Flat
import Tracium.Query.Attribution
import Tracium.Query.RollupHeadline

/-! The anomalies query on steady traffic. The grid ends with the day that holds End, which
is still running, and the detector scores it like a whole day. -/
namespace Tracium.Query

open Go Tracium.Anomaly

/-- Time.AddDate by days: the wall clock stays, and the offset of the new date is looked up
as time.Date looks it up. -/
def addDays (zone : Location) (t days : Int) : Int :=
  let wall := t / 1000000000 + zone (t / 1000000000) + days * 86400
  (wall - zone (wall - zone wall)) * 1000000000 + t % 1000000000

/-- What the statements read: the day's merged aggregates of all the rows in scope and of a
workflow's, the busiest workflows, and the version changes from a time on. -/
structure AnomalyReads where
  overall : Int → DailyAgg ℚ
  workflows : List Str
  ofWorkflow : Str → Int → DailyAgg ℚ
  versionChanges : Int → List VersionChange

/-- The days that pass rollupWindow, by bucket_ms; the others are missing from the map. -/
def rollupDays (zone : Location) (lo hi : Int) (days : Int → DailyAgg ℚ) (bm : Int) : DailyAgg ℚ :=
  if localDay zone lo ≤ bm / msPerDay ∧ bm / msPerDay ≤ localDay zone hi then days (bm / msPerDay) else .zero

/-- The order of sortAnomalies. -/
def ranksBefore (a b : Anomaly ℚ) : Bool :=
  if a.severity.rank ≠ b.severity.rank then b.severity.rank < a.severity.rank
  else if |a.score| ≠ |b.score| then |b.score| < |a.score|
  else b.bucketMs < a.bucketMs

/-- A stable sort. -/
def sortAnomalies (anomalies : List (Anomaly ℚ)) : List (Anomaly ℚ) :=
  anomalies.insertionSort fun a b => ranksBefore b a = false

section Model

variable (zone : Location) (quote : Str → Str)

def baseStart (f : AnomalyFilter) : Int := addDays zone f.start (-anomalyBaselineDays)

def daily (f : AnomalyFilter) : MetricsFilter := { f.toMetricsFilter with bucket := 24 * hour }

def anomalyAxis (f : AnomalyFilter) : List Int :=
  (bucketAxis { daily f with start := baseStart zone f }).slots

def detectFromMs (f : AnomalyFilter) : Int := (bucketAxis (daily f)).base

/-- One series over the grid. -/
def detectDays (f : AnomalyFilter) (scope : Scope) (workflow : Str) (days : Int → DailyAgg ℚ) : List (Anomaly ℚ) :=
  detectSeries quote f scope workflow (anomalyAxis zone f) (rollupDays zone (baseStart zone f) f.end' days)
    (detectFromMs f)

def Anomalies (reads : AnomalyReads) (f : AnomalyFilter) : List (Anomaly ℚ) :=
  let byWorkflow : ByWorkflow ℚ := reads.workflows.map fun name =>
    (name, rollupDays zone (baseStart zone f) f.end' (reads.ofWorkflow name))
  let out := detectDays zone quote f .workspace [] reads.overall ++
    reads.workflows.flatMap fun name => detectDays zone quote f .workflow name (reads.ofWorkflow name)
  let attached := attachVersionChanges count out (reads.versionChanges (detectFromMs f - versionLeadMs)) byWorkflow
  (sortAnomalies attached).take anomalyResultLimit

end Model

section Reported

variable {zone : Location} {quote : Str → Str} {reads : AnomalyReads} {f : AnomalyFilter}

/-- Each anomaly of the answer is one a series' detector reported, with its version change:
detectors report none themselves. -/
theorem anomalies_attributed {since : Int} (lead : since = detectFromMs f - versionLeadMs)
    (sorted : (reads.versionChanges since).Pairwise fun v w => v.firstSeenMs ≤ w.firstSeenMs)
    (named : ∀ v ∈ reads.versionChanges since, v.workflow ≠ []) {b : Anomaly ℚ}
    (answered : b ∈ Anomalies zone quote reads f) :
    ∃ a, (a ∈ detectDays zone quote f .workspace [] reads.overall ∨
        ∃ name ∈ reads.workflows, a ∈ detectDays zone quote f .workflow name (reads.ofWorkflow name)) ∧
      Attributed count (reads.versionChanges since) (reads.workflows.map fun name =>
        (name, rollupDays zone (baseStart zone f) f.end' (reads.ofWorkflow name))) a b := by
  subst lead
  have attached := (List.perm_insertionSort _ _).mem_iff.mp (List.mem_of_mem_take answered)
  obtain ⟨a, reported, rfl⟩ := List.mem_map.mp attached
  rcases List.mem_append.mp reported with whole | busy
  · exact ⟨a, .inl whole, attributed sorted named (detectSeries_fresh whole)⟩
  · obtain ⟨name, inList, own⟩ := List.mem_flatMap.mp busy
    exact ⟨a, .inr ⟨name, inList, own⟩, attributed sorted named (detectSeries_fresh own)⟩

theorem anomalies_eq_nil_iff :
    Anomalies zone quote reads f = [] ↔ detectDays zone quote f .workspace [] reads.overall = [] ∧
      ∀ name ∈ reads.workflows, detectDays zone quote f .workflow name (reads.ofWorkflow name) = [] := by
  have none : ∀ l : List (Anomaly ℚ), (sortAnomalies l).take anomalyResultLimit = [] ↔ l = [] := by
    intro l
    rw [List.take_eq_nil_iff, ← List.length_eq_zero_iff, sortAnomalies, List.length_insertionSort,
      List.length_eq_zero_iff]
    simp [anomalyResultLimit]
  rw [Anomalies, none, attachVersionChanges, List.map_eq_nil_iff, List.append_eq_nil_iff,
    List.flatMap_eq_nil_iff]

end Reported

/-! Steady traffic. -/

/-- The time zone database has no offset of a day. -/
def Location.Bounded (zone : Location) : Prop := ∀ s, -86400 < zone s ∧ zone s < 86400

/-- The UTC day that holds End. -/
def runningDay (f : AnomalyFilter) : Int := unixMilli f.end' / msPerDay

/-- One series of metrics_daily: the same amounts on every completed UTC day from the
baseline's first on, and on the running day the fraction q of each. -/
structure SteadyDays (zone : Location) (f : AnomalyFilter) (q : ℚ) (a : DailyAgg ℚ) (days : Int → DailyAgg ℚ) :
    Prop where
  runs : 0 ≤ a.runs
  errRuns : 0 ≤ a.errRuns
  completed : ∀ d, unixMilli (baseStart zone f) / msPerDay ≤ d → d < runningDay f → days d = a
  runningCost : (days (runningDay f)).cost = q * a.cost
  runningRuns : ((days (runningDay f)).runs : ℚ) = q * a.runs
  runningErrRuns : ((days (runningDay f)).errRuns : ℚ) = q * a.errRuns

/-- The runs of the running day that the statement reads: none where End's calendar day in
the server's zone is the one before. -/
def runsShown (zone : Location) (f : AnomalyFilter) (q : ℚ) (a : DailyAgg ℚ) : ℚ :=
  if runningDay f ≤ localDay zone f.end' then q * a.runs else 0

/-- The running day has no slot, run volume is not asked for, or its fall stays under a floor. -/
def NoFall (zone : Location) (f : AnomalyFilter) (q : ℚ) (a : DailyAgg ℚ) : Prop :=
  unixMilli f.end' % msPerDay = 0 ∨ (f.anomalyMetric ≠ none ∧ f.anomalyMetric ≠ some .runs) ∨
    (a.runs : ℚ) < 10 ∨ a.runs - runsShown zone f q a < 5

section Grid

variable {zone : Location} {f : AnomalyFilter}

/-- The request's window and its baseline lie in the range of bucket_date. -/
structure Window (zone : Location) (f : AnomalyFilter) : Prop where
  bounded : zone.Bounded
  order : f.start ≤ f.end'
  epoch : 0 ≤ unixMilli (baseStart zone f)

/-- The index of the running day, where it has one. -/
def runningIndex (zone : Location) (f : AnomalyFilter) : Nat :=
  (runningDay f - unixMilli (baseStart zone f) / msPerDay).toNat

theorem Window.lead (w : Window zone f) : baseStart zone f ≤ f.start - 26 * 86400 * 1000000000 := by
  have first := w.bounded (f.start / 1000000000)
  have second := w.bounded (f.start / 1000000000 + zone (f.start / 1000000000) + -(28 : Nat) * 86400 -
    zone (f.start / 1000000000 + zone (f.start / 1000000000) + -(28 : Nat) * 86400))
  simp only [baseStart, addDays, anomalyBaselineDays]
  omega

theorem Window.days (w : Window zone f) :
    unixMilli (baseStart zone f) / msPerDay + 25 ≤ runningDay f ∧
      localDay zone (baseStart zone f) ≤ unixMilli (baseStart zone f) / msPerDay + 1 ∧
      runningDay f - 1 ≤ localDay zone f.end' := by
  have lead := w.lead
  have order := w.order
  have first := w.bounded (baseStart zone f / 1000000000)
  have last := w.bounded (f.end' / 1000000000)
  simp only [runningDay, unixMilli, localDay, msPerDay]
  refine ⟨?_, ?_, ?_⟩
  · omega
  · omega
  · omega

/-- The grid holds the days from the baseline's first to the last that begins before End. -/
theorem Window.axis (w : Window zone f) :
    anomalyAxis zone f = (List.range (if unixMilli f.end' % msPerDay = 0 then runningIndex zone f
      else runningIndex zone f + 1)).map fun (i : Nat) => (unixMilli (baseStart zone f) / msPerDay + i) * msPerDay := by
  have days := w.days.1
  have epoch := w.epoch
  have width : milliseconds (24 * hour) = msPerDay := by decide
  have total : 0 ≤ unixMilli f.end' - unixMilli (baseStart zone f) / msPerDay * msPerDay + msPerDay - 1 := by
    simp only [runningDay, msPerDay] at *
    omega
  have length : (if (unixMilli f.end' - unixMilli (baseStart zone f) / msPerDay * msPerDay + msPerDay - 1) /
        msPerDay < 1 then 1
      else ((unixMilli f.end' - unixMilli (baseStart zone f) / msPerDay * msPerDay + msPerDay - 1) /
        msPerDay).toNat) =
      if unixMilli f.end' % msPerDay = 0 then runningIndex zone f else runningIndex zone f + 1 := by
    have some : ¬ (unixMilli f.end' - unixMilli (baseStart zone f) / msPerDay * msPerDay + msPerDay - 1) /
        msPerDay < 1 := by
      simp only [runningDay, msPerDay] at *
      omega
    rw [if_neg some]
    by_cases midnight : unixMilli f.end' % msPerDay = 0
    · rw [if_pos midnight]
      simp only [runningIndex, runningDay, msPerDay] at *
      omega
    · rw [if_neg midnight]
      simp only [runningIndex, runningDay, msPerDay] at *
      omega
  simp only [anomalyAxis, Axis.slots, bucketAxis, daily, width, Int.tdiv_eq_ediv_of_nonneg epoch,
    Int.tdiv_eq_ediv_of_nonneg total, length]
  apply List.map_congr_left
  intro i _
  rw [Axis.slot, Int.add_mul]

theorem Window.detectFrom_le (w : Window zone f) : detectFromMs f ≤ runningDay f * msPerDay := by
  have lead := w.lead
  have order := w.order
  have epoch := w.epoch
  have width : milliseconds (24 * hour) = msPerDay := by decide
  simp only [detectFromMs, bucketAxis, daily, width]
  have nonneg : 0 ≤ unixMilli f.start := by
    simp only [unixMilli] at *
    omega
  rw [Int.tdiv_eq_ediv_of_nonneg nonneg]
  simp only [runningDay, unixMilli, msPerDay]
  omega

end Grid

section Series

variable {zone : Location} {f : AnomalyFilter} {q : ℚ} {a : DailyAgg ℚ} {days : Int → DailyAgg ℚ}

/-- What the series reads on the i-th day of the grid. -/
def readingAt (zone : Location) (f : AnomalyFilter) (days : Int → DailyAgg ℚ) (i : Nat) : DailyAgg ℚ :=
  rollupDays zone (baseStart zone f) f.end' days ((unixMilli (baseStart zone f) / msPerDay + i) * msPerDay)

def pointAt (zone : Location) (f : AnomalyFilter) (days : Int → DailyAgg ℚ) (metric : Metric) (i : Nat) : Point ℚ :=
  ⟨(unixMilli (baseStart zone f) / msPerDay + i) * msPerDay, (metricValue count (readingAt zone f days i) metric).1,
    (metricValue count (readingAt zone f days i) metric).2⟩

theorem readingAt_eq (i : Nat) : readingAt zone f days i =
    if localDay zone (baseStart zone f) ≤ unixMilli (baseStart zone f) / msPerDay + i ∧
        unixMilli (baseStart zone f) / msPerDay + i ≤ localDay zone f.end'
      then days (unixMilli (baseStart zone f) / msPerDay + i) else .zero := by
  rw [readingAt, rollupDays, Int.mul_ediv_cancel _ (by decide)]

/-- The days between the first and the running one read the steady amounts. -/
theorem SteadyDays.reading (steady : SteadyDays zone f q a days) (w : Window zone f) {i : Nat} (after : 0 < i)
    (before : i < runningIndex zone f) : readingAt zone f days i = a := by
  obtain ⟨_, first, last⟩ := w.days
  rw [runningIndex] at before
  rw [readingAt_eq, if_pos ⟨by omega, by omega⟩]
  exact steady.completed _ (by omega) (by omega)

/-- The first may be missing, where it begins before the calendar day of the baseline's start. -/
theorem SteadyDays.reading_first (steady : SteadyDays zone f q a days) (w : Window zone f) :
    readingAt zone f days 0 = a ∨ readingAt zone f days 0 = .zero := by
  obtain ⟨long, _, _⟩ := w.days
  rw [readingAt_eq]
  split
  · exact .inl (steady.completed _ (by omega) (by omega))
  · exact .inr rfl

theorem SteadyDays.reading_running (w : Window zone f) : readingAt zone f days (runningIndex zone f) =
    if runningDay f ≤ localDay zone f.end' then days (runningDay f) else .zero := by
  obtain ⟨long, first, _⟩ := w.days
  have same : unixMilli (baseStart zone f) / msPerDay + (runningIndex zone f : Int) = runningDay f := by
    rw [runningIndex]
    omega
  rw [readingAt_eq, same]
  by_cases shown : runningDay f ≤ localDay zone f.end'
  · rw [if_pos shown, if_pos ⟨by omega, shown⟩]
  · rw [if_neg shown, if_neg fun both => shown both.2]

theorem metricValue_zero (metric : Metric) : metricValue count DailyAgg.zero metric = (0, 0) := by
  cases metric <;> simp [metricValue, DailyAgg.zero, count]

theorem SteadyDays.flat (steady : SteadyDays zone f q a days) (w : Window zone f) (metric : Metric) {i : Nat}
    (before : i ≤ runningIndex zone f) :
    FlatDays (metricValue count a metric).1 (metricValue count a metric).2
      ((List.range i).map (pointAt zone f days metric)) := by
  intro p member
  obtain ⟨j, inRange, rfl⟩ := List.mem_map.mp member
  have less := List.mem_range.mp inRange
  simp only [pointAt]
  rcases Nat.eq_zero_or_pos j with rfl | later
  · rcases steady.reading_first w with same | none
    · exact .inl (by rw [same]; exact ⟨rfl, rfl⟩)
    · exact .inr (by rw [none, metricValue_zero])
  · rw [steady.reading w later (less.trans_le before)]
    exact .inl ⟨rfl, rfl⟩

theorem absFloor_pos {m : AnomalyMetric} (listed : m ∈ anomalyMetrics) : 0 < m.absFloor := by
  simp only [anomalyMetrics, List.mem_cons, List.not_mem_nil, or_false] at listed
  rcases listed with rfl | rfl | rfl <;> decide +kernel

theorem AnomalyMetric.gate (m : AnomalyMetric) (from' : Int) : 0 < (m.options from').minBaselineActive := by
  change (0 : Int) < 10
  decide

/-- A completed day is not reported. -/
theorem SteadyDays.completed_quiet (steady : SteadyDays zone f q a days) (w : Window zone f) {m : AnomalyMetric}
    (floor : 0 < m.absFloor) (from' : Int) {i : Nat} (before : i < runningIndex zone f) :
    detectAt exact (m.options from') ((List.range i).map (pointAt zone f days m.name))
      (pointAt zone f days m.name i) = none := by
  have gate := m.gate from'
  have flat := steady.flat w m.name before.le
  rcases Nat.eq_zero_or_pos i with rfl | later
  · rw [Option.eq_none_iff_forall_ne_some]
    intro r reported
    have enough := (detectAt_eq_some.mp reported).1.active_ne_nil gate
    exact enough rfl
  · apply flat.same_day gate floor
    simp only [pointAt]
    rw [steady.reading w later before]

section Running

variable (steady : SteadyDays zone f q a days) (w : Window zone f)

include steady w

theorem SteadyDays.runs_running : ((readingAt zone f days (runningIndex zone f)).runs : ℚ) = runsShown zone f q a := by
  rw [SteadyDays.reading_running w, runsShown]
  split
  · exact steady.runningRuns
  · simp [DailyAgg.zero]

theorem SteadyDays.cost_running (le_one : q ≤ 1) (positive : 0 < a.cost) :
    (readingAt zone f days (runningIndex zone f)).cost ≤ a.cost := by
  rw [SteadyDays.reading_running w]
  split
  · rw [steady.runningCost]
    exact mul_le_of_le_one_left positive.le le_one
  · exact positive.le

/-- A fraction of the errored runs among the same fraction of the runs is the same rate. -/
theorem SteadyDays.errorRate_running (positive : 0 < a.runs) :
    (metricValue count (readingAt zone f days (runningIndex zone f)) .errorRate).1 ≤
      (metricValue count a .errorRate).1 := by
  have whole : (metricValue count a .errorRate).1 = (a.errRuns : ℚ) / a.runs := if_pos positive
  have rate : 0 ≤ (a.errRuns : ℚ) / a.runs :=
    div_nonneg (Int.cast_nonneg steady.errRuns) (Int.cast_nonneg steady.runs)
  rw [whole, SteadyDays.reading_running w]
  split
  · by_cases some : 0 < (days (runningDay f)).runs
    · have ratio : (metricValue count (days (runningDay f)) .errorRate).1 =
          ((days (runningDay f)).errRuns : ℚ) / (days (runningDay f)).runs := if_pos some
      have fraction : q ≠ 0 := by
        rintro rfl
        have none := steady.runningRuns
        rw [zero_mul, Int.cast_eq_zero] at none
        omega
      rw [ratio, steady.runningErrRuns, steady.runningRuns, mul_div_mul_left _ _ fraction]
    · have none : (metricValue count (days (runningDay f)) .errorRate).1 = 0 := if_neg some
      rw [none]
      exact rate
  · rw [metricValue_zero]
    exact rate

/-- The running day is scored where the steady days have volume. -/
theorem SteadyDays.running_scored {m : AnomalyMetric} (positive : 0 < (metricValue count a m.name).2) :
    Scored (m.options (detectFromMs f)) ((List.range (runningIndex zone f)).map (pointAt zone f days m.name))
      (pointAt zone f days m.name (runningIndex zone f)) := by
  have days' := w.days.1
  obtain ⟨older, some, long⟩ : ∃ older, 0 < older ∧ runningIndex zone f = older + 10 := by
    refine ⟨runningIndex zone f - 10, ?_, ?_⟩ <;> rw [runningIndex] <;> omega
  have late : detectFromMs f ≤ (pointAt zone f days m.name (runningIndex zone f)).bucketMs := by
    have same : unixMilli (baseStart zone f) / msPerDay + (runningIndex zone f : Int) = runningDay f := by
      rw [runningIndex]
      omega
    rw [pointAt, same]
    exact w.detectFrom_le
  rw [long] at late ⊢
  rw [List.range_add, List.map_append]
  apply scored_of_recent _ _ _ _ late
  · simp [AnomalyMetric.options, anomalyBaselineDays]
  · intro p member
    obtain ⟨j, shifted, rfl⟩ := List.mem_map.mp member
    obtain ⟨i, inRange, rfl⟩ := List.mem_map.mp shifted
    have less := List.mem_range.mp inRange
    rw [pointAt, steady.reading w (by omega) (by omega)]
    exact positive
  · simp [AnomalyMetric.options, anomalyMinBaseline]
  · simp [AnomalyMetric.options, anomalyMinBaselineActive]

/-- The running day is reported when the fall of its run volume clears the floors. -/
theorem SteadyDays.running_reported (le_one : q ≤ 1) {m : AnomalyMetric} (listed : m ∈ anomalyMetrics) :
    (∃ r, detectAt exact (m.options (detectFromMs f))
      ((List.range (runningIndex zone f)).map (pointAt zone f days m.name))
      (pointAt zone f days m.name (runningIndex zone f)) = some r) ↔
    m.name = .runs ∧ 10 ≤ (a.runs : ℚ) ∧ 5 ≤ a.runs - runsShown zone f q a := by
  have gate := m.gate (detectFromMs f)
  have floor : 0 < (m.options (detectFromMs f)).absFloor := absFloor_pos listed
  have flat := steady.flat w m.name le_rfl
  simp only [anomalyMetrics, List.mem_cons, List.not_mem_nil, or_false] at listed
  rcases listed with rfl | rfl | rfl
  · have quiet := flat.not_above gate floor rfl
      (p := pointAt zone f days .cost (runningIndex zone f)) (steady.cost_running w le_one)
    exact iff_of_false quiet fun both => by cases both.1
  · have quiet := flat.not_above gate floor rfl
      (p := pointAt zone f days .errorRate (runningIndex zone f))
      fun positive => steady.errorRate_running w (Int.cast_pos.mp positive)
    exact iff_of_false quiet fun both => by cases both.1
  · have value : (pointAt zone f days .runs (runningIndex zone f)).value = runsShown zone f q a :=
      steady.runs_running w
    have typical : metricValue count a .runs = ((a.runs : ℚ), (a.runs : ℚ)) := rfl
    have le : runsShown zone f q a ≤ a.runs := by
      have runs : (0 : ℚ) ≤ a.runs := Int.cast_nonneg steady.runs
      rw [runsShown]
      split
      · exact mul_le_of_le_one_left runs le_one
      · exact runs
    have fall : |runsShown zone f q a - a.runs| = a.runs - runsShown zone f q a := by
      rw [abs_sub_comm]
      exact abs_of_nonneg (sub_nonneg.mpr le)
    rw [flat.detectAt_isSome gate, value, typical, fall]
    simp only [AnomalyMetric.options, true_and]
    constructor
    · rintro ⟨_, far, ⟨above, _⟩ | ⟨_, volume⟩⟩
      · rw [le_antisymm le above, sub_self] at far
        exact absurd far (by decide +kernel)
      · exact ⟨volume, far⟩
    · rintro ⟨volume, far⟩
      have positive : (0 : ℚ) < a.runs := lt_of_lt_of_le (by decide +kernel) volume
      have below : runsShown zone f q a < a.runs := sub_pos.mp (lt_of_lt_of_le (by decide +kernel) far)
      exact ⟨steady.running_scored w (m := ⟨.runs, 5, 10, true, true⟩) positive, far, .inr ⟨below, volume⟩⟩

end Running

/-- The days of the grid as points. -/
theorem seriesPoints_axis (w : Window zone f) (metric : Metric) :
    seriesPoints (anomalyAxis zone f) (rollupDays zone (baseStart zone f) f.end' days) metric =
      (List.range (if unixMilli f.end' % msPerDay = 0 then runningIndex zone f else runningIndex zone f + 1)).map
        (pointAt zone f days metric) := by
  rw [w.axis, seriesPoints, List.map_map]
  rfl

/-- A steady series is quiet exactly when its running day does not fall. -/
theorem SteadyDays.detectDays_eq_nil (steady : SteadyDays zone f q a days) (w : Window zone f) (le_one : q ≤ 1)
    (quote : Str → Str) (scope : Scope) (workflow : Str) :
    detectDays zone quote f scope workflow days = [] ↔ NoFall zone f q a := by
  rw [detectDays, detectSeries, List.flatMap_eq_nil_iff]
  constructor
  · intro quiet
    by_contra fall
    simp only [NoFall, not_or, not_and_or, not_not, not_lt] at fall
    obtain ⟨midday, admitted, volume, far⟩ := fall
    have listed : (⟨.runs, 5, 10, true, true⟩ : AnomalyMetric) ∈ anomalyMetrics := by simp [anomalyMetrics]
    obtain ⟨r, reported⟩ := (steady.running_reported w le_one listed).mpr ⟨rfl, volume, far⟩
    have critical := (steady.flat w .runs le_rfl).critical
      (AnomalyMetric.gate ⟨.runs, 5, 10, true, true⟩ (detectFromMs f)) reported
    have none := quiet _ (List.mem_filter.mpr ⟨listed, decide_eq_true admitted⟩)
    rw [List.map_eq_nil_iff, List.filter_eq_nil_iff, seriesPoints_axis w, if_neg midday, List.range_succ,
      List.map_append, List.map_singleton, detect_append] at none
    apply none r (List.mem_append_right _ _)
    · rw [critical]
      cases f.anomalyMinSeverity <;> decide
    · rw [detectFrom, reported]
      exact List.mem_append_left _ (List.mem_singleton_self r)
  · intro noFall m member
    obtain ⟨listed, admitted⟩ := List.mem_filter.mp member
    have none : detect exact (seriesPoints (anomalyAxis zone f)
        (rollupDays zone (baseStart zone f) f.end' days) m.name) (m.options (detectFromMs f)) = [] := by
      rw [seriesPoints_axis w, detect_range_eq_nil]
      intro i inRange
      by_cases completed : i < runningIndex zone f
      · exact steady.completed_quiet w (absFloor_pos listed) _ completed
      · by_cases midnight : unixMilli f.end' % msPerDay = 0
        · rw [if_pos midnight] at inRange
          exact absurd inRange completed
        · rw [if_neg midnight] at inRange
          obtain rfl : i = runningIndex zone f := by omega
          rw [Option.eq_none_iff_forall_ne_some]
          intro r reported
          obtain ⟨runs, volume, far⟩ := (steady.running_reported w le_one listed).mp ⟨r, reported⟩
          have wanted := of_decide_eq_true admitted
          rw [runs] at wanted
          rcases noFall with isMidnight | ⟨notAll, notRuns⟩ | few | near
          · exact midnight isMidnight
          · exact wanted.elim notAll notRuns
          · exact absurd volume (not_le.mpr few)
          · exact absurd far (not_le.mpr near)
    rw [none]
    rfl

end Series

/-- Steady traffic of the whole workspace and of each busy workflow, the running day at one
fraction of its amounts: the query is quiet exactly when no series' running day falls. -/
theorem steady_quiet_iff (zone : Location) (quote : Str → Str) (reads : AnomalyReads) (f : AnomalyFilter)
    (w : Window zone f) (q : ℚ) (le_one : q ≤ 1) (overall : DailyAgg ℚ) (ofWorkflow : Str → DailyAgg ℚ)
    (steady : SteadyDays zone f q overall reads.overall)
    (each : ∀ name ∈ reads.workflows, SteadyDays zone f q (ofWorkflow name) (reads.ofWorkflow name)) :
    Anomalies zone quote reads f = [] ↔
      NoFall zone f q overall ∧ ∀ name ∈ reads.workflows, NoFall zone f q (ofWorkflow name) := by
  rw [anomalies_eq_nil_iff, steady.detectDays_eq_nil w le_one]
  apply and_congr_right
  intro _
  apply forall₂_congr
  intro name member
  rw [(each name member).detectDays_eq_nil w le_one]

def noon : Int := (20000 * 86400 + 43200) * 1000000000

/-- A week that ends at noon. -/
def noonWeek : AnomalyFilter :=
  ⟨⟨[], [lit "acme"], [], [], noon - 7 * 24 * hour, noon, noon - 14 * 24 * hour, 24 * hour⟩, none, .none⟩

/-- A hundred runs on every day, fifty by noon. -/
def hundredADay : AnomalyReads where
  overall d := if d < 20000 then ⟨10, 100, 2⟩ else ⟨5, 50, 1⟩
  workflows := []
  ofWorkflow _ _ := .zero
  versionChanges _ := []

theorem noonWeek_window : Window (fun _ => 0) noonWeek where
  bounded _ := by
    change (-86400 : Int) < 0 ∧ (0 : Int) < 86400
    decide
  order := by decide
  epoch := by decide

theorem hundredADay_steady :
    SteadyDays (fun _ => 0) noonWeek (1 / 2) ⟨10, 100, 2⟩ hundredADay.overall where
  runs := by decide
  errRuns := by decide
  completed d _ before := if_pos before
  runningCost := by decide +kernel
  runningRuns := by decide +kernel
  runningErrRuns := by decide +kernel

theorem steady_quiet_iff_noon :
    SteadyDays (fun _ => 0) noonWeek (1 / 2) ⟨10, 100, 2⟩ hundredADay.overall ∧
      (Anomalies (fun _ => 0) id hundredADay noonWeek = [] ↔
        NoFall (fun _ => 0) noonWeek (1 / 2) ⟨10, 100, 2⟩ ∧
          ∀ name ∈ hundredADay.workflows, NoFall (fun _ => 0) noonWeek (1 / 2) .zero) :=
  ⟨hundredADay_steady, steady_quiet_iff (fun _ => 0) id hundredADay noonWeek noonWeek_window (1 / 2)
    (by decide +kernel) ⟨10, 100, 2⟩ (fun _ => .zero) hundredADay_steady (fun _ member => by cases member)⟩

/-- At noon the day's fifty runs are reported as a fall from a hundred. -/
theorem steady_reported_at_noon :
    Window (fun _ => 0) noonWeek ∧
      SteadyDays (fun _ => 0) noonWeek (1 / 2) ⟨10, 100, 2⟩ hundredADay.overall ∧
      hundredADay.workflows = [] ∧ Anomalies (fun _ => 0) id hundredADay noonWeek ≠ [] := by
  refine ⟨noonWeek_window, hundredADay_steady, rfl, ?_⟩
  intro quiet
  have noFall := (hundredADay_steady.detectDays_eq_nil noonWeek_window (by decide +kernel) id .workspace []).mp
    (anomalies_eq_nil_iff.mp quiet).1
  rw [NoFall] at noFall
  revert noFall
  decide +kernel

end Tracium.Query
