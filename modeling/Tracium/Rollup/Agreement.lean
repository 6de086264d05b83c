import Tracium.Query.RollupHeadline
import Tracium.Rollup.Warehouse

/-! The KPIs of a long window, served from the rollups, beside those the raw path computes
over the same whole UTC days. The API and the server run in UTC. -/
namespace Tracium.Rollup

open Go GroupBy PartialAggregates Repair Query

variable {U : Type} [AddCommMonoid U]

/-- A Date column: 16 bits of days. -/
def dateColumn (d : Day) : UInt16 := UInt16.ofNat d.toNat

def costRow (r : Repair.DailyCostRow) : Query.DailyCostRow :=
  ⟨dateColumn r.bucketDate, r.userID, r.workspaceID, r.spanCost, r.metricCost⟩

/-- The row with the end of its span, which no rollup reads. -/
def callRow (endTimeMs : Repair.SpanRow → Int) (r : Repair.SpanRow) : Query.SpanRow :=
  ⟨r.traceID, r.startTimeMs, endTimeMs r, r.costUSD, r.userID, r.workspaceID, r.errorType, r.errorMessage⟩

/-- tracium.calls and tracium.usage_metrics. -/
def rawStore (endTimeMs : Repair.SpanRow → Int) (spans : List Repair.SpanRow) : Store where
  calls := (spans.filter (·.source = .span)).map (callRow endTimeMs)
  usageMetrics := (spans.filter (·.source = .metric)).map (callRow endTimeMs)

structure RollupKPI where
  cost : ℚ
  runs : Int
  errRuns : Int

def rollupErrRate (k : RollupKPI) : ℚ := if k.runs = 0 then 0 else (k.errRuns : ℚ) / (k.runs : ℚ)

/-- kpiWindowRollup; `count` is what uniqMerge makes of a merged state. -/
def kpiWindowRollup (zone : Location) (count : U → Nat) (daily : List (Repair.DailyRow U))
    (dailyCost : List Repair.DailyCostRow) (user : Str) (workspaces : List Str) (lo hi : Int)
    (hiInclusive : Bool) : RollupKPI :=
  let rows := daily.filter fun r =>
    inDays zone user workspaces lo hi hiInclusive (dateColumn r.bucketDate) r.userID r.workspaceID
  { cost := costTotalRollup zone ⟨[], dailyCost.map costRow⟩ user workspaces lo hi hiInclusive
    runs := count (rows.map (·.runs)).sum
    errRuns := count (rows.map (·.errorRuns)).sum }

/-- overviewKPIsRollup: the day of Start belongs to the current window only. -/
def overviewKPIsRollup (zone : Location) (count : U → Nat) (daily : List (Repair.DailyRow U))
    (dailyCost : List Repair.DailyCostRow) (f : MetricsFilter) : KPISet :=
  let cur := kpiWindowRollup zone count daily dailyCost f.userID f.workspaceIDs f.start f.end' true
  let prev := kpiWindowRollup zone count daily dailyCost f.userID f.workspaceIDs f.prevStart f.start false
  { cost := kpi cur.cost prev.cost true
    runs := kpi cur.runs prev.runs false
    latencyP95 := ⟨0, 0, lit "neutral"⟩
    errorRate := kpi (rollupErrRate cur) (rollupErrRate prev) true }

def utc : Location := fun _ => 0

/-- The first millisecond after the days a window keeps. -/
def daysEnd (hi : Int) (hiInclusive : Bool) : Int :=
  (localDay utc hi + if hiInclusive then 1 else 0) * msPerDay

def daysStart (lo : Int) : Int := localDay utc lo * msPerDay

/-- The server buckets the row by its UTC day, and a Date can hold it. -/
structure Dated (sv : Server U) (r : Repair.SpanRow) : Prop where
  since : 0 ≤ r.startTimeMs
  day : sv.toDate r.startTimeMs = r.startTimeMs / msPerDay
  fits : r.startTimeMs / msPerDay < 65536

variable {sv : Server U} {w : Warehouse U} {user : Str} {workspaces : List Str} {lo hi : Int}
  {hiInclusive : Bool}

theorem toNat_dateColumn {d : Int} (nonneg : 0 ≤ d) (fits : d < 65536) :
    ((dateColumn d).toNat : Int) = d := by
  rw [dateColumn, UInt16.toNat_ofNat_of_lt' (by simp only [UInt16.size]; omega)]
  omega

omit [AddCommMonoid U] in
variable (user workspaces lo hi hiInclusive) in
/-- The days a window keeps are those of the raw window between their bounds. -/
theorem inDays_eq_inWindow (endTimeMs : Repair.SpanRow → Int) {r : Repair.SpanRow} (dated : Dated sv r) :
    inDays utc user workspaces lo hi hiInclusive (dateColumn (sv.toDate r.startTimeMs)) r.userID
        r.workspaceID =
      inWindow user workspaces (daysStart lo) (daysEnd hi hiInclusive) (callRow endTimeMs r) := by
  obtain ⟨since, day, fits⟩ := dated
  have column := toNat_dateColumn (Int.ediv_nonneg since (by decide)) fits
  unfold inDays inWindow
  rw [day, column]
  have lower : decide (localDay utc lo ≤ r.startTimeMs / msPerDay) =
      decide (daysStart lo ≤ r.startTimeMs) := by
    rw [decide_eq_decide, daysStart]
    simp only [msPerDay]
    omega
  have upper : (if hiInclusive then decide (r.startTimeMs / msPerDay ≤ localDay utc hi)
      else decide (r.startTimeMs / msPerDay < localDay utc hi)) =
      decide (r.startTimeMs < daysEnd hi hiInclusive) := by
    cases hiInclusive <;> simp only [Bool.false_eq_true, ↓reduceIte] <;> rw [decide_eq_decide] <;>
      simp only [daysEnd, msPerDay, Bool.false_eq_true, ↓reduceIte] <;> omega
  rw [lower, upper]
  rfl

/-! The cost: per day the greater of both sources. -/

/-- The rows of one day within the window. -/
def keepDay (user : Str) (workspaces : List Str) (lo hi : Int) (hiInclusive : Bool) (d : Int)
    (k : DailyCostKey) : Bool :=
  inDays utc user workspaces lo hi hiInclusive (dateColumn k.bucketDate) k.userID k.workspaceID &&
    decide (((dateColumn k.bucketDate).toNat : Int) = d)

def greater (m : ℚ × ℚ) : ℚ := max m.1 m.2

theorem reconciledDay_costRow (rows : List Repair.DailyCostRow) :
    reconciledDay (rows.map costRow) = greater (rows.map costMeasure).sum := by
  rw [← costMeasure_combine ⟨0, [], []⟩]
  simp [reconciledDay, greater, costMeasure, combineCost, List.map_map, Function.comp_def, costRow]

theorem costTotalRollup_days (dailyCost : List Repair.DailyCostRow) (days : Finset Int)
    (covers : ∀ r ∈ dailyCost, ((dateColumn r.bucketDate).toNat : Int) ∈ days) :
    costTotalRollup utc ⟨[], dailyCost.map costRow⟩ user workspaces lo hi hiInclusive =
      ∑ d ∈ days, greater (total DailyCostRow.toDailyCostKey costMeasure
        (keepDay user workspaces lo hi hiInclusive d) dailyCost) := by
  have injective : Function.Injective fun d : UInt16 => (d.toNat : Int) := by
    intro d d' same
    exact UInt16.toNat_inj.mp (by simpa using same)
  have relabelled : costTotalRollup utc ⟨[], dailyCost.map costRow⟩ user workspaces lo hi hiInclusive =
      ((groupBy (fun r : Query.DailyCostRow => ((r.bucketDate.toNat : Nat) : Int))
        ((dailyCost.map costRow).filter
          (Query.DailyCostRow.inDays utc user workspaces lo hi hiInclusive))).map
        fun g => reconciledDay g.2).sum := by
    rw [groupBy_relabel _ injective, List.map_map]
    rfl
  rw [relabelled, sum_groupBy_over (F := reconciledDay) (by simp [reconciledDay])]
  · refine Finset.sum_congr rfl fun d _ => ?_
    rw [List.filter_map, List.filter_map, List.filter_filter, reconciledDay_costRow, total_coe]
    congr 3
    apply List.filter_congr
    intro r _
    rw [Bool.and_comm]
    rfl
  · intro r member
    obtain ⟨row, inRows, rfl⟩ := List.mem_map.mp (List.mem_filter.mp member).1
    exact covers row inRows

/-- Rows a test keeps, or all rows with the others counted as zero. -/
theorem sum_filter_ite {α : Type} (p q : α → Bool) (cost : α → ℚ) (rows : List α) :
    ((rows.filter fun r => p r && q r).map cost).sum =
      ((rows.filter q).map fun r => if p r then cost r else 0).sum := by
  induction rows with
  | nil => rfl
  | cons r rest ih => cases hp : p r <;> cases hq : q r <;> simp [hp, hq, ih]

theorem sum_costValue (rows : List Repair.SpanRow) : (rows.map costValue).sum =
    ((rows.map fun r => if r.source = .span then r.costUSD else 0).sum,
      (rows.map fun r => if r.source = .metric then r.costUSD else 0).sum) := by
  induction rows with
  | nil => rfl
  | cons r rest ih => rw [List.map_cons, List.sum_cons, ih]; rfl

/-- The rows of the union on one day, by the cost each source counts. -/
theorem reconciledCost_union (endTimeMs : Repair.SpanRow → Int) (spans : List Repair.SpanRow)
    (keep : Query.SpanRow → Bool) (on : Int → Bool) :
    reconciledCost ((reconciledCostUnion (rawStore endTimeMs spans) keep).filter fun e => on e.startTimeMs) =
      greater ((spans.filter fun r => keep (callRow endTimeMs r) && on r.startTimeMs).map costValue).sum := by
  have part (source : Source) := sum_filter_ite (fun r : Repair.SpanRow => decide (r.source = source))
    (fun r => keep (callRow endTimeMs r) && on r.startTimeMs) (·.costUSD) spans
  simp only [decide_eq_true_eq] at part
  have order (source : Source) : (spans.filter fun r =>
        on r.startTimeMs && (keep (callRow endTimeMs r) && decide (r.source = source))) =
      spans.filter fun r =>
        decide (r.source = source) && (keep (callRow endTimeMs r) && on r.startTimeMs) := by
    apply List.filter_congr
    intro r _
    cases on r.startTimeMs <;> cases keep (callRow endTimeMs r) <;> simp
  have zeros (rows : List Repair.SpanRow) : (rows.map fun _ => (0 : ℚ)).sum = 0 := by simp
  rw [sum_costValue, ← part .span, ← part .metric, ← order .span, ← order .metric]
  simp only [reconciledCost, reconciledCostUnion, rawStore, greater, List.filter_append, List.map_append,
    List.sum_append, List.filter_map, List.map_map, List.filter_filter, Function.comp_def]
  rw [zeros, zeros, add_zero, zero_add]
  rfl

theorem costTotal_days (endTimeMs : Repair.SpanRow → Int) (spans : List Repair.SpanRow) {from_ until_ : Int}
    (days : Finset Int) (covers : ∀ r ∈ spans, r.startTimeMs.tdiv msPerDay ∈ days) :
    costTotal (rawStore endTimeMs spans) user workspaces from_ until_ msPerDay =
      ∑ d ∈ days, greater ((spans.filter fun r => inWindow user workspaces from_ until_ (callRow endTimeMs r) &&
        decide (r.startTimeMs.tdiv msPerDay = d)).map costValue).sum := by
  rw [costTotal, sum_groupBy_over (F := reconciledCost) (by simp [reconciledCost])]
  · refine Finset.sum_congr rfl fun d _ => ?_
    exact reconciledCost_union endTimeMs spans _ fun ms => decide (ms.tdiv msPerDay = d)
  · intro e member
    simp only [reconciledCostUnion, rawStore, List.mem_append, List.mem_map, List.mem_filter] at member
    obtain ⟨_, ⟨⟨r, ⟨inSpans, -⟩, rfl⟩, -⟩, rfl⟩ | ⟨_, ⟨⟨r, ⟨inSpans, -⟩, rfl⟩, -⟩, rfl⟩ := member
    exacts [covers r inSpans, covers r inSpans]

variable (user workspaces lo hi hiInclusive) in
/-- Reconciling day by day over the rollup is reconciling day by day over every row inserted. -/
theorem costTotalRollup_eq (maintained : Maintained sv w) (dated : ∀ r ∈ w.inserted, Dated sv r)
    {dailyCost : List Repair.DailyCostRow} (read : (dailyCost : Multiset _) = w.dailyCost)
    (endTimeMs : Repair.SpanRow → Int) :
    costTotalRollup utc ⟨[], dailyCost.map costRow⟩ user workspaces lo hi hiInclusive =
      costTotal (rawStore endTimeMs w.inserted) user workspaces (daysStart lo) (daysEnd hi hiInclusive)
        msPerDay := by
  let days : Finset Int := (dailyCost.map fun r => ((dateColumn r.bucketDate).toNat : Int)).toFinset ∪
    (w.inserted.map fun r => r.startTimeMs.tdiv msPerDay).toFinset
  rw [costTotalRollup_days dailyCost days fun r member => Finset.mem_union_left _
      (List.mem_toFinset.mpr (List.mem_map_of_mem member)),
    costTotal_days endTimeMs w.inserted days fun r member => Finset.mem_union_right _
      (List.mem_toFinset.mpr (List.mem_map_of_mem member))]
  refine Finset.sum_congr rfl fun d _ => ?_
  rw [read, maintained.dailyCost.maintains (keepDay user workspaces lo hi hiInclusive d), total_coe]
  congr 3
  apply List.filter_congr
  intro r member
  obtain ⟨since, day, fits⟩ := dated r member
  have column := toNat_dateColumn (Int.ediv_nonneg since (by decide)) fits
  have same := inDays_eq_inWindow user workspaces lo hi hiInclusive endTimeMs (dated r member)
  have onDay : ((dateColumn (sv.toDate r.startTimeMs)).toNat : Int) = r.startTimeMs.tdiv msPerDay := by
    rw [day, column, Int.tdiv_eq_ediv_of_nonneg since]
  simp only [keepDay, dailyCostKey, same, onDay]

end Tracium.Rollup
