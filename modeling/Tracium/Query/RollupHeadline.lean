import Tracium.Query.Headline

/-! The cost headline and its chart over windows served from the daily rollups. The
statement keeps the calendar days of the window in the server's time zone, the last one
included; the chart's axis counts UTC days up to the end of the window. -/
namespace Tracium.Query

open Go OrderedMap GroupBy

def hour : Int := 60 * 60 * 1000000000

/-- ParseRange. -/
def parseRange (rng : Str) (now : Int) : Except Str MetricsFilter :=
  let filter (span bucket : Int) : MetricsFilter :=
    ⟨[], [], [], [], now - span, now, now - span - span, bucket⟩
  if rng = lit "24h" then .ok (filter (24 * hour) hour)
  else if rng = lit "7d" then .ok (filter (7 * 24 * hour) (24 * hour))
  else if rng = lit "30d" then .ok (filter (30 * 24 * hour) (24 * hour))
  else if rng = lit "90d" then .ok (filter (90 * 24 * hour) (24 * hour))
  else if rng = lit "1y" then .ok (filter (365 * 24 * hour) (24 * hour))
  else .error (lit "range must be one of 24h, 7d, 30d, 90d, 1y")

/-- A time.Location: the offset from UTC in seconds at each unix second. -/
abbrev Location := Int → Int

/-- The calendar date Time.Format prints, as a day number since 1970-01-01. -/
def localDay (zone : Location) (t : Int) : Int :=
  (t / 1000000000 + zone (t / 1000000000)) / 86400

def msPerDay : Int := 86400000

/-- A row of metrics_daily_cost; parts that are not merged yet may repeat a key. A Date
is a 16-bit number of days. -/
structure DailyCostRow where
  bucketDate : UInt16
  userID : Str
  workspaceID : Str
  spanCost : ℚ
  metricCost : ℚ

/-- The columns of metrics_daily the scoped cost series reads. -/
structure DailyRow where
  bucketDate : UInt16
  userID : Str
  workspaceID : Str
  workflowName : Str
  workflowVersion : Str
  cost : ℚ

structure RollupStore where
  daily : List DailyRow
  dailyCost : List DailyCostRow

/-- The clause of rollupWindow on the columns both rollups have. -/
def inDays (zone : Location) (user : Str) (workspaces : List Str) (lo hi : Int) (hiInclusive : Bool)
    (bucketDate : UInt16) (userID workspaceID : Str) : Bool :=
  localDay zone lo ≤ bucketDate.toNat &&
    (if hiInclusive then decide ((bucketDate.toNat : Int) ≤ localDay zone hi)
      else decide ((bucketDate.toNat : Int) < localDay zone hi)) &&
    (user == [] || userID == user) && workspaces.contains workspaceID

def DailyCostRow.inDays (zone : Location) (user : Str) (workspaces : List Str) (lo hi : Int)
    (hiInclusive : Bool) (r : DailyCostRow) : Bool :=
  Query.inDays zone user workspaces lo hi hiInclusive r.bucketDate r.userID r.workspaceID

/-- rollupScope on metrics_daily. -/
def DailyRow.inScope (zone : Location) (f : MetricsFilter) (r : DailyRow) : Bool :=
  Query.inDays zone f.userID f.workspaceIDs f.start f.end' true r.bucketDate r.userID r.workspaceID &&
    (f.workflow == [] || r.workflowName == f.workflow) &&
    (f.version == [] || r.workflowVersion == f.version)

/-- `toInt64(bucket_date) * 86400000`. -/
def dayMs (bucketDate : UInt16) : Int := bucketDate.toNat * msPerDay

/-- costReconcileRollupExpr over the rows of one day. -/
def reconciledDay (rows : List DailyCostRow) : ℚ :=
  max (rows.map DailyCostRow.spanCost).sum (rows.map DailyCostRow.metricCost).sum

section Queries

variable (zone : Location) (store : RollupStore)

/-- costTotalRollup. -/
def costTotalRollup (user : Str) (workspaces : List Str) (lo hi : Int) (hiInclusive : Bool) : ℚ :=
  let rows := store.dailyCost.filter (DailyCostRow.inDays zone user workspaces lo hi hiInclusive)
  ((groupBy DailyCostRow.bucketDate rows).map fun g => reconciledDay g.2).sum

/-- costSeriesRollup; a scoped series is span-only. -/
def costSeriesRollup (f : MetricsFilter) : List CostPoint :=
  if f.workflow ≠ [] ∨ f.version ≠ [] then
    bucketSeries f 0 CostPoint.mk
      ((groupBy (fun r => dayMs r.bucketDate) (store.daily.filter (DailyRow.inScope zone f))).map
        fun g => (g.1, (g.2.map DailyRow.cost).sum))
  else
    bucketSeries f 0 CostPoint.mk
      ((groupBy (fun r => dayMs r.bucketDate) (store.dailyCost.filter
        (DailyCostRow.inDays zone f.userID f.workspaceIDs f.start f.end' true))).map
          fun g => (g.1, reconciledDay g.2))

end Queries

/-! Which days have a slot. -/

/-- Every calendar day the statement keeps begins within the chart: not before the UTC
day of Start, and before End. -/
def DaysOnAxis (zone : Location) (f : MetricsFilter) : Prop :=
  ∀ d : UInt16, localDay zone f.start ≤ d.toNat → (d.toNat : Int) ≤ localDay zone f.end' →
    unixMilli f.start / msPerDay ≤ d.toNat ∧ dayMs d < unixMilli f.end'

/-- A filter for a long range, as the handler completes it. -/
structure LongRange (f : MetricsFilter) : Prop where
  useRollup : f.useRollup = true
  parsed : ∃ rng now base, parseRange rng now = .ok base ∧ f.start = base.start ∧
    f.end' = base.end' ∧ f.bucket = base.bucket
  noWorkflow : f.workflow = []
  noVersion : f.version = []

/-- The accepted ranges: a day by the hour, or longer ones by the day. -/
theorem parseRange_cases {rng : Str} {now : Int} {base : MetricsFilter}
    (parsed : parseRange rng now = .ok base) :
    (base.bucket = hour ∧ base.end' - base.start = 24 * hour) ∨ base.bucket = 24 * hour := by
  simp only [parseRange] at parsed
  split at parsed
  · obtain rfl := Except.ok.inj parsed
    exact .inl ⟨rfl, sub_sub_cancel now _⟩
  split at parsed
  · exact .inr (Except.ok.inj parsed ▸ rfl)
  split at parsed
  · exact .inr (Except.ok.inj parsed ▸ rfl)
  split at parsed
  · exact .inr (Except.ok.inj parsed ▸ rfl)
  split at parsed
  · exact .inr (Except.ok.inj parsed ▸ rfl)
  · cases parsed

theorem LongRange.daily {f : MetricsFilter} (long : LongRange f) :
    milliseconds f.bucket = msPerDay ∧ unixMilli f.start + msPerDay < unixMilli f.end' := by
  obtain ⟨rng, now, base, parsed, start, stop, bucket⟩ := long.parsed
  have rolled : f.end' - f.start > rollupThreshold := of_decide_eq_true long.useRollup
  rcases parseRange_cases parsed with ⟨_, short⟩ | daily
  · rw [stop, start, short] at rolled
    simp only [hour, rollupThreshold] at rolled
    omega
  · simp only [bucket, daily, unixMilli, msPerDay, rollupThreshold] at *
    exact ⟨by decide, by omega⟩

/-- The slots of a daily axis are the days from that of Start that begin before End. -/
theorem dayMs_mem_slots_iff {f : MetricsFilter} (width : milliseconds f.bucket = msPerDay)
    (wide : unixMilli f.start + msPerDay < unixMilli f.end') (d : UInt16) :
    dayMs d ∈ (bucketAxis f).slots ↔
      unixMilli f.start / msPerDay ≤ d.toNat ∧ dayMs d < unixMilli f.end' := by
  simp only [Axis.slots, Axis.slot, bucketAxis, width, List.mem_map, List.mem_range, dayMs]
  simp only [msPerDay] at *
  generalize unixMilli f.start = lo at *
  generalize unixMilli f.end' = hi at *
  generalize d.toNat = day at *
  obtain ⟨first, quotient, bound⟩ : ∃ first, lo.tdiv 86400000 = first ∧
      ((0 ≤ lo ∧ first = lo / 86400000) ∨ (lo < 0 ∧ first ≤ 0 ∧ lo ≤ first * 86400000 ∧
        first * 86400000 < lo + 86400000)) := by
    refine ⟨_, rfl, ?_⟩
    rcases Int.lt_or_le lo 0 with before | since
    · have rounded : lo.tdiv 86400000 = -((-lo) / 86400000) := by
        rw [← Int.tdiv_eq_ediv_of_nonneg (by omega), Int.neg_tdiv, Int.neg_neg]
      omega
    · rw [Int.tdiv_eq_ediv_of_nonneg since]
      exact .inl ⟨since, rfl⟩
  have total : 0 ≤ hi - first * 86400000 + 86400000 - 1 := by omega
  simp only [quotient, Int.tdiv_eq_ediv_of_nonneg total]
  constructor
  · rintro ⟨i, inRange, slot⟩
    split at inRange <;> omega
  · rintro ⟨after, before⟩
    refine ⟨(day - first).toNat, ?_, by omega⟩
    split <;> omega

/-! The headline and the chart. -/

section Agreement

variable {zone : Location} {f : MetricsFilter} (long : LongRange f)

include long

/-- The chart lays the same days out, each once, and drops those without a slot. -/
theorem costSeriesRollup_sum (store : RollupStore)
    (onAxis : ∀ r ∈ store.dailyCost,
      r.inDays zone f.userID f.workspaceIDs f.start f.end' true = true →
        dayMs r.bucketDate ∈ (bucketAxis f).slots) :
    ((costSeriesRollup zone store f).map CostPoint.value).sum =
      costTotalRollup zone store f.userID f.workspaceIDs f.start f.end' true := by
  have positive : 0 < milliseconds f.bucket := by
    rw [long.daily.1]
    decide
  have injective : Function.Injective dayMs := by
    intro d d' same
    simp only [dayMs, msPerDay] at same
    exact UInt16.toNat_inj.mp (by omega)
  simp only [costSeriesRollup, long.noWorkflow, long.noVersion, ne_eq, not_true_eq_false, or_self,
    ↓reduceIte]
  rw [bucketSeries_sum f positive 0 CostPoint.mk _ (groupBy_distinct _ _ _) ?_ CostPoint.value id
    (fun _ _ => rfl) rfl, List.map_map, groupBy_relabel dayMs injective, List.map_map]
  · rfl
  · intro e member
    obtain ⟨g, grouped, rfl⟩ := List.mem_map.mp member
    obtain ⟨r, filtered, key⟩ := groupBy_key_mem grouped
    obtain ⟨inTable, kept⟩ := List.mem_filter.mp filtered
    rw [← key]
    exact onAxis r inTable kept

/-- A lone row on a day without a slot. -/
def strayRow (f : MetricsFilter) (d : UInt16) : RollupStore where
  daily := []
  dailyCost := [⟨d, f.userID, f.workspaceIDs.headD [], 1, 0⟩]

theorem strayRow_missed {d : UInt16} (inScope : f.workspaceIDs ≠ [])
    (after : localDay zone f.start ≤ d.toNat) (before : (d.toNat : Int) ≤ localDay zone f.end')
    (off : dayMs d ∉ (bucketAxis f).slots) :
    costTotalRollup zone (strayRow f d) f.userID f.workspaceIDs f.start f.end' true = 1 ∧
      ((costSeriesRollup zone (strayRow f d) f).map CostPoint.value).sum = 0 := by
  obtain ⟨workspace, rest, workspaces⟩ := List.exists_cons_of_ne_nil inScope
  have kept : (strayRow f d).dailyCost.filter
      (DailyCostRow.inDays zone f.userID f.workspaceIDs f.start f.end' true) =
        (strayRow f d).dailyCost := by
    simp [strayRow, DailyCostRow.inDays, inDays, after, before, workspaces]
  constructor
  · simp only [costTotalRollup, kept]
    simp [strayRow, groupBy, reconciledDay]
  · simp only [costSeriesRollup, long.noWorkflow, long.noVersion, ne_eq, not_true_eq_false, or_self,
      ↓reduceIte, kept]
    rw [bucketSeries_eq f _ _ _ (groupBy_distinct _ _ _), List.map_map]
    apply List.sum_eq_zero
    intro value member
    obtain ⟨slot, inSlots, rfl⟩ := List.mem_map.mp member
    have apart : dayMs d ≠ slot := fun same => off (same ▸ inSlots)
    simp [strayRow, groupBy, get_cons, apart]

/-- The headline over [Start, End] equals the sum of the chart whatever metrics_daily_cost
holds exactly when no workspace is in scope or every calendar day of the window in the
server's zone begins within the chart. -/
theorem rollup_headline_equals_chart_iff :
    (∀ store, costTotalRollup zone store f.userID f.workspaceIDs f.start f.end' true =
        ((costSeriesRollup zone store f).map CostPoint.value).sum) ↔
      f.workspaceIDs = [] ∨ DaysOnAxis zone f := by
  obtain ⟨width, wide⟩ := long.daily
  constructor
  · intro agree
    rcases eq_or_ne f.workspaceIDs [] with none | inScope
    · exact .inl none
    · refine .inr fun d after before => ?_
      rw [← dayMs_mem_slots_iff width wide]
      by_contra off
      obtain ⟨total, chart⟩ := strayRow_missed long inScope after before off
      have same := agree (strayRow f d)
      rw [total, chart] at same
      exact one_ne_zero same
  · intro condition store
    rw [costSeriesRollup_sum long]
    intro r _ kept
    simp only [DailyCostRow.inDays, inDays, ↓reduceIte, Bool.and_eq_true, decide_eq_true_eq] at kept
    obtain ⟨⟨⟨after, before⟩, -⟩, readable⟩ := kept
    rcases condition with none | onAxis
    · rw [none] at readable
      cases readable
    · exact (dayMs_mem_slots_iff width wide _).mpr (onAxis r.bucketDate after before)

/-- On a server in UTC only the first millisecond of a day goes wrong. -/
theorem daysOnAxis_utc_iff (since : 0 ≤ f.start) (dated : unixMilli f.end' / msPerDay < 65536) :
    DaysOnAxis (fun _ => 0) f ↔ unixMilli f.end' % msPerDay ≠ 0 := by
  obtain ⟨-, wide⟩ := long.daily
  have day (t : Int) : localDay (fun _ => 0) t = unixMilli t / msPerDay := by
    simp only [localDay, unixMilli, msPerDay]
    omega
  simp only [DaysOnAxis, day, dayMs]
  have lower : 0 ≤ unixMilli f.start := by
    simp only [unixMilli]
    omega
  simp only [msPerDay] at *
  generalize unixMilli f.start = lo at *
  generalize unixMilli f.end' = hi at *
  constructor
  · intro onAxis midnight
    have last := onAxis (UInt16.ofNat (hi / 86400000).toNat)
    rw [UInt16.toNat_ofNat_of_lt' (by simp only [UInt16.size]; omega)] at last
    omega
  · intro _ d _ _
    omega

end Agreement

/-- The 90 days before an instant, for one workspace. -/
def quarter (now : Int) : MetricsFilter :=
  ⟨[], [lit "w"], [], [], now - 90 * 24 * hour, now, now - 90 * 24 * hour - 90 * 24 * hour, 24 * hour⟩

theorem quarter_longRange (now : Int) : LongRange (quarter now) where
  useRollup := by
    apply decide_eq_true
    simp only [quarter, hour, rollupThreshold]
    omega
  parsed := ⟨lit "90d", now, _, rfl, rfl, rfl, rfl⟩
  noWorkflow := rfl
  noVersion := rfl

/-- 2026-01-01 00:00:00 UTC. -/
def midnight : Int := 20454 * 24 * hour

theorem midnight_day_missed :
    LongRange (quarter midnight) ∧
      costTotalRollup (fun _ => 0) (strayRow (quarter midnight) 20454) [] [lit "w"]
        (quarter midnight).start (quarter midnight).end' true = 1 ∧
      ((costSeriesRollup (fun _ => 0) (strayRow (quarter midnight) 20454) (quarter midnight)).map
        CostPoint.value).sum = 0 :=
  have long := quarter_longRange midnight
  have off : dayMs 20454 ∉ (bucketAxis (quarter midnight)).slots := by
    rw [dayMs_mem_slots_iff long.daily.1 long.daily.2]
    decide
  ⟨long, strayRow_missed long (by decide) (by decide) (by decide) off⟩

theorem noon_headline_equals_chart :
    costTotalRollup (fun _ => 0) (strayRow (quarter (midnight + 12 * hour)) 20454) [] [lit "w"]
        (quarter (midnight + 12 * hour)).start (quarter (midnight + 12 * hour)).end' true =
      ((costSeriesRollup (fun _ => 0) (strayRow (quarter (midnight + 12 * hour)) 20454)
        (quarter (midnight + 12 * hour))).map CostPoint.value).sum :=
  have long := quarter_longRange (midnight + 12 * hour)
  (rollup_headline_equals_chart_iff long).mpr
    (.inr ((daysOnAxis_utc_iff long (by decide) (by decide)).mpr (by decide))) _

end Tracium.Query
