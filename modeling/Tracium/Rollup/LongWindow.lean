import Mathlib.Tactic.Linarith
import Tracium.Rollup.Agreement

/-! The KPIs of a long window beside those of the raw rows: costs agree exactly, and the
distinct counts up to the error of the server's estimate. Spans that expire take nothing
from the rollups. -/
namespace Tracium.Rollup

open Go GroupBy PartialAggregates Repair Query

variable {U : Type} [AddCommMonoid U] {sv : Server U} {w : Warehouse U} {user : Str}
  {workspaces : List Str} {lo hi : Int} {hiInclusive : Bool}

/-- uniqMerge finds the number of distinct ids up to a relative error. -/
structure Estimates (sv : Server U) (count : U → Nat) (error : ℚ) : Prop where
  mergeable : Mergeable sv
  near : ∀ ids, |(count (sv.uniqState ids) : ℚ) - ids.dedup.length| ≤ error * ids.dedup.length

/-- The states of single ids, of the rows some test picks, merged. -/
theorem Mergeable.sum_picked (mergeable : Mergeable sv) (pick : Repair.SpanRow → Bool)
    (rows : List Repair.SpanRow) :
    (rows.map fun r => sv.uniqState (if pick r then [r.traceID] else [])).sum =
      sv.uniqState ((rows.filter pick).map (·.traceID)) := by
  induction rows with
  | nil => exact mergeable.nil.symm
  | cons r rest ih =>
    rw [List.map_cons, List.sum_cons, ih, ← mergeable.append]
    cases picked : pick r <;> simp [picked]

/-- The call rows of the whole days a window keeps. -/
def windowCalls (endTimeMs : Repair.SpanRow → Int) (user : Str) (workspaces : List Str) (lo hi : Int)
    (hiInclusive : Bool) (r : Repair.SpanRow) : Bool :=
  inWindow user workspaces (daysStart lo) (daysEnd hi hiInclusive) (callRow endTimeMs r) &&
    Repair.Rollup.metricsDaily.reads r

/-- A column of metrics_daily over the days of a window, from the rows inserted. -/
theorem sum_dailyColumn (maintained : Maintained sv w) (dated : ∀ r ∈ w.inserted, Dated sv r)
    {daily : List (Repair.DailyRow U)} (read : (daily : Multiset _) = w.daily)
    (endTimeMs : Repair.SpanRow → Int) (column : DailyMeasure U →+ U) :
    ((daily.filter fun r => inDays utc user workspaces lo hi hiInclusive (dateColumn r.bucketDate) r.userID
        r.workspaceID).map fun r => column (dailyMeasure r)).sum =
      ((w.inserted.filter (windowCalls endTimeMs user workspaces lo hi hiInclusive)).map
        fun r => column (dailyValue sv r)).sum := by
  have same := maintained.daily.maintains.map column fun k =>
    inDays utc user workspaces lo hi hiInclusive (dateColumn k.bucketDate) k.userID k.workspaceID
  rw [← read, total_coe, total_coe, List.filter_filter] at same
  rw [same]
  congr 2
  apply List.filter_congr
  intro r member
  rw [windowCalls, ← inDays_eq_inWindow user workspaces lo hi hiInclusive endTimeMs (dated r member)]
  rfl

variable (user workspaces lo hi hiInclusive) in
/-- uniqMerge(runs) and uniqIfMerge(error_runs) see the trace ids of the window. -/
theorem runs_rollup (mergeable : Mergeable sv) (maintained : Maintained sv w)
    (dated : ∀ r ∈ w.inserted, Dated sv r) {daily : List (Repair.DailyRow U)}
    (read : (daily : Multiset _) = w.daily) (endTimeMs : Repair.SpanRow → Int) :
    let rows := daily.filter fun r =>
      inDays utc user workspaces lo hi hiInclusive (dateColumn r.bucketDate) r.userID r.workspaceID
    let calls := w.inserted.filter (windowCalls endTimeMs user workspaces lo hi hiInclusive)
    (rows.map (·.runs)).sum = sv.uniqState (calls.map (·.traceID)) ∧
      (rows.map (·.errorRuns)).sum = sv.uniqState ((calls.filter errored).map (·.traceID)) := by
  intro rows calls
  constructor
  · refine (sum_dailyColumn maintained dated read endTimeMs
      { toFun := fun m => m.2.2.2.2.1, map_zero' := rfl, map_add' := fun _ _ => rfl }).trans ?_
    simpa [dailyValue] using mergeable.sum_picked (fun _ => true) calls
  · exact (sum_dailyColumn maintained dated read endTimeMs
      { toFun := fun m => m.2.2.2.2.2, map_zero' := rfl, map_add' := fun _ _ => rfl }).trans
        (mergeable.sum_picked errored calls)

/-- The calls of the window on the raw path. -/
theorem calls_rawStore (endTimeMs : Repair.SpanRow → Int) (rows : List Repair.SpanRow) :
    (rawStore endTimeMs rows).calls.filter
        (inWindow user workspaces (daysStart lo) (daysEnd hi hiInclusive)) =
      (rows.filter (windowCalls endTimeMs user workspaces lo hi hiInclusive)).map (callRow endTimeMs) := by
  rw [rawStore, List.filter_map, List.filter_filter]
  rfl

theorem spanErrored_callRow (endTimeMs : Repair.SpanRow → Int) (r : Repair.SpanRow) :
    spanErrored (callRow endTimeMs r) = errored r := by
  simp [spanErrored, errored, callRow, bne, Bool.beq_eq_decide_eq]

variable (user workspaces lo hi hiInclusive) in
/-- Runs and failed runs on the raw path, as distinct trace ids. -/
theorem traces_rawStore (endTimeMs : Repair.SpanRow → Int) (rows : List Repair.SpanRow) :
    let calls := rows.filter (windowCalls endTimeMs user workspaces lo hi hiInclusive)
    let runs := traces (rawStore endTimeMs rows)
      (inWindow user workspaces (daysStart lo) (daysEnd hi hiInclusive))
    runs.length = (calls.map (·.traceID)).dedup.length ∧
      runs.countP Query.errored = ((calls.filter errored).map (·.traceID)).dedup.length := by
  intro calls runs
  have ids (rows : List Repair.SpanRow) :
      (rows.map (callRow endTimeMs)).map (·.traceID) = rows.map (·.traceID) := by
    rw [List.map_map]
    rfl
  simp only [runs, traces, calls_rawStore]
  constructor
  · rw [List.length_map, groupBy, List.length_map, ids]
  · refine (countP_groupBy_any _ spanErrored _).trans ?_
    rw [List.filter_map, ids]
    congr 4
    funext r
    exact spanErrored_callRow endTimeMs r

/-- A ratio of two estimates. -/
theorem ratio_near {error n m n' m' : ℚ} (small : error < 1) (some : 0 ≤ n) (among : 0 ≤ m)
    (near : |n' - n| ≤ error * n) (near' : |m' - m| ≤ error * m) :
    (1 - error) * (m' / n') ≤ (1 + error) * (m / n) ∧
      (1 - error) * (m / n) ≤ (1 + error) * (m' / n') := by
  obtain ⟨nLow, nHigh⟩ := abs_le.mp near
  obtain ⟨mLow, mHigh⟩ := abs_le.mp near'
  rcases some.eq_or_lt with rfl | positive
  · have zero : n' = 0 := by linarith
    simp [zero]
  have positive' : 0 < n' := by nlinarith
  constructor
  · rw [← mul_div_assoc, ← mul_div_assoc, div_le_div_iff₀ positive' positive]
    nlinarith [mul_le_mul_of_nonneg_left nLow among]
  · rw [← mul_div_assoc, ← mul_div_assoc, div_le_div_iff₀ positive positive']
    nlinarith [mul_le_mul_of_nonneg_left nHigh among]

/-- While no row of a window has expired the stored spans answer as every row inserted. -/
theorem kpiWindow_stored (maintained : Maintained sv w) (endTimeMs : Repair.SpanRow → Int)
    (quantile95 : List Int → ℚ) (f : MetricsFilter) {from_ until_ : Int} (unexpired : w.horizon ≤ from_) :
    kpiWindow quantile95 (rawStore endTimeMs w.spans) f from_ until_ =
      kpiWindow quantile95 (rawStore endTimeMs w.inserted) f from_ until_ := by
  have sources (source : Source) :
      ((w.spans.filter (·.source = source)).map (callRow endTimeMs)).filter
          (inWindow f.userID f.workspaceIDs from_ until_) =
        ((w.inserted.filter (·.source = source)).map (callRow endTimeMs)).filter
          (inWindow f.userID f.workspaceIDs from_ until_) := by
    rw [maintained.spans, List.filter_map, List.filter_map, List.filter_filter, List.filter_filter,
      List.filter_filter]
    congr 1
    apply List.filter_congr
    intro r _
    cases kept : inWindow f.userID f.workspaceIDs from_ until_ (callRow endTimeMs r)
    · simp [kept]
    · -- a row of the window starts after the horizon
      have start : from_ ≤ r.startTimeMs := by
        simp only [inWindow, Bool.and_eq_true, decide_eq_true_eq] at kept
        exact kept.1.1.1
      simp [kept, unexpired.trans start]
  have calls := sources .span
  have metrics := sources .metric
  unfold kpiWindow costTotal reconciledCostUnion traces rawStore
  rw [calls, metrics]

variable {count : U → Nat} {error : ℚ}

/-- One window from the rollups beside the raw path over its whole days. -/
theorem kpiWindowRollup_near (estimates : Estimates sv count error) (small : error < 1)
    (maintained : Maintained sv w) (dated : ∀ r ∈ w.inserted, Dated sv r)
    {daily : List (Repair.DailyRow U)} {dailyCost : List Repair.DailyCostRow}
    (read : (daily : Multiset _) = w.daily) (readCost : (dailyCost : Multiset _) = w.dailyCost)
    (endTimeMs : Repair.SpanRow → Int) (quantile95 : List Int → ℚ) (f : MetricsFilter)
    (bucket : milliseconds f.bucket = msPerDay) (lo hi : Int) (hiInclusive : Bool) :
    let served := kpiWindowRollup utc count daily dailyCost f.userID f.workspaceIDs lo hi hiInclusive
    let raw := kpiWindow quantile95 (rawStore endTimeMs w.inserted) f (daysStart lo) (daysEnd hi hiInclusive)
    served.cost = raw.cost ∧ |(served.runs : ℚ) - raw.runs| ≤ error * raw.runs ∧
      (1 - error) * rollupErrRate served ≤ (1 + error) * raw.errRate ∧
        (1 - error) * raw.errRate ≤ (1 + error) * rollupErrRate served := by
  intro served raw
  obtain ⟨runs, errors⟩ := runs_rollup f.userID f.workspaceIDs lo hi hiInclusive estimates.mergeable maintained
    dated read endTimeMs
  obtain ⟨length, failed⟩ := traces_rawStore f.userID f.workspaceIDs lo hi hiInclusive endTimeMs w.inserted
  let calls := w.inserted.filter (windowCalls endTimeMs f.userID f.workspaceIDs lo hi hiInclusive)
  have nearRuns := estimates.near (calls.map (·.traceID))
  have nearErrors := estimates.near ((calls.filter errored).map (·.traceID))
  rw [← runs, ← length] at nearRuns
  rw [← errors, ← failed] at nearErrors
  let rows := daily.filter fun r =>
    inDays utc f.userID f.workspaceIDs lo hi hiInclusive (dateColumn r.bucketDate) r.userID r.workspaceID
  have servedRuns : (served.runs : ℚ) = (count (rows.map (·.runs)).sum : ℚ) := Int.cast_natCast _
  have servedErrors : (served.errRuns : ℚ) = (count (rows.map (·.errorRuns)).sum : ℚ) := Int.cast_natCast _
  have rawRuns : (raw.runs : ℚ) = ((traces (rawStore endTimeMs w.inserted)
      (inWindow f.userID f.workspaceIDs (daysStart lo) (daysEnd hi hiInclusive))).length : ℚ) :=
    Int.cast_natCast _
  have rate : rollupErrRate served =
      (count (rows.map (·.errorRuns)).sum : ℚ) / (count (rows.map (·.runs)).sum : ℚ) := by
    rw [← servedErrors, ← servedRuns, rollupErrRate]
    split
    next zero => rw [zero, Int.cast_zero, div_zero]
    next => rfl
  have ratios := ratio_near small (Nat.cast_nonneg _) (Nat.cast_nonneg _) nearRuns nearErrors
  refine ⟨?_, ?_, ?_, ?_⟩
  · have cost := costTotalRollup_eq f.userID f.workspaceIDs lo hi hiInclusive maintained dated readCost endTimeMs
    rw [← bucket] at cost
    exact cost
  · rw [servedRuns, rawRuns]
    exact nearRuns
  · rw [rate]
    exact ratios.1
  · rw [rate]
    exact ratios.2

/-- A UTC server whose distinct counts keep the ids. -/
def exactServer : Server (Multiset Str) where
  toDate := fun ms => ms / 86400000
  dayStart := fun d => d * 86400000
  dayEnd := fun d => (d + 1) * 86400000
  dateString := itoa
  asSelect := fun view => lit "view " ++ view
  explain := fun _ => [lit "SELECT 1"]
  uniqState := fun ids => (ids : Multiset Str)

def distinct (ids : Multiset Str) : Nat := ids.dedup.card

theorem exactServer_estimates : Estimates exactServer distinct 0 where
  mergeable := ⟨rfl, fun _ _ => rfl⟩
  near := fun ids => by simp [exactServer, distinct]

def succeeded : Repair.SpanRow :=
  ⟨1728000000, 1728000, .span, [], lit "w", [], [], lit "m", [], 2, 10, 20, lit "t", [], []⟩

def failed : Repair.SpanRow := { succeeded with startTimeMs := 1728000700, errorType := lit "timeout" }

def metered : Repair.SpanRow :=
  ⟨1728000500, 1728001, .metric, [], lit "w", [], [], [], [], 3, 0, 0, [], [], []⟩

def dayTwenty : DailyKey := ⟨20, [], lit "w", [], [], lit "m"⟩

def mergedDaily : Repair.DailyRow (Multiset Str) := ⟨dayTwenty, 4, 20, 40, 2, {lit "t", lit "t"}, {lit "t"}⟩

def mergedCost : Repair.DailyCostRow := ⟨⟨20, [], lit "w"⟩, 4, 3⟩

def twoBlocks : List (Action (Multiset Str)) :=
  [.insert [succeeded, metered], .insert [failed],
    .mergeDaily [⟨dayTwenty, 2, 10, 20, 1, {lit "t"}, 0⟩, ⟨dayTwenty, 2, 10, 20, 1, {lit "t"}, {lit "t"}⟩],
    .mergeCost [⟨⟨20, [], lit "w"⟩, 2, 3⟩, ⟨⟨20, [], lit "w"⟩, 2, 0⟩]]

def dayWindow : MetricsFilter :=
  ⟨[], [lit "w"], [], [], 1728000000000000, 1728001000000000, 1641600000000000, 86400000000000⟩

def stored : Warehouse (Multiset Str) := (Steps.run (step exactServer) newWarehouse twoBlocks).getD newWarehouse

theorem run_twoBlocks : Steps.run (step exactServer) newWarehouse twoBlocks = some stored := by
  have finished : (Steps.run (step exactServer) newWarehouse twoBlocks).isSome = true := by decide +kernel
  obtain ⟨w, ran⟩ := Option.isSome_iff_exists.mp finished
  rw [stored, ran]
  rfl

theorem stored_dated : ∀ r ∈ stored.inserted, Dated exactServer r := by
  have inserted : stored.inserted = [succeeded, metered, failed] := by decide +kernel
  rw [inserted]
  intro r member
  simp only [List.mem_cons, List.not_mem_nil, or_false] at member
  rcases member with rfl | rfl | rfl <;> exact ⟨by decide, by decide, by decide⟩

theorem stored_daily : (([mergedDaily] : List _) : Multiset _) = stored.daily := by decide +kernel

end Tracium.Rollup
