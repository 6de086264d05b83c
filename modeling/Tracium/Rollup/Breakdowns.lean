import Tracium.Query.Tokens
import Tracium.Query.UserTrend
import Tracium.Rollup.LongWindow

/-! The tables and charts of a long window, served from metrics_daily. The server returns
the groups of a statement in any order, and equal sort keys in any order too, so a panel is
a relation between the table and its answer. -/
namespace Tracium.Rollup

open Go GroupBy PartialAggregates Repair Query Paging

variable {U : Type} [AddCommMonoid U]

/-- toInt64 of a 64-bit sum. -/
def toInt64 (n : Int) : Int := n.bmod (2 ^ 64)

/-- rollupWindow, on the key of a row. -/
def rollupWindow (zone : Location) (user : Str) (workspaces : List Str) (lo hi : Int) (hiInclusive : Bool)
    (k : DailyKey) : Bool :=
  inDays zone user workspaces lo hi hiInclusive (dateColumn k.bucketDate) k.userID k.workspaceID

/-- The current window, today's partial day included. -/
def currentDays (zone : Location) (f : MetricsFilter) : DailyKey → Bool :=
  rollupWindow zone f.userID f.workspaceIDs f.start f.end' true

def rollupScope (zone : Location) (f : MetricsFilter) (k : DailyKey) : Bool :=
  currentDays zone f k && (f.workflow == [] || k.workflowName == f.workflow) &&
    (f.version == [] || k.workflowVersion == f.version)

/-- `bucket_date >= curDate`. -/
def sinceDate (zone : Location) (t : Int) (k : DailyKey) : Bool :=
  localDay zone t ≤ (dateColumn k.bucketDate).toNat

def bucketMs (k : DailyKey) : Int := dayMs (dateColumn k.bucketDate)

/-- ORDER BY ... DESC LIMIT over groups in any order. -/
def Ranked {R : Type} (sortKey : R → ℚ) (limit : Int) (groups answer : List R) : Prop :=
  ∃ order, Ordered sortKey groups order ∧ answer = order.take limit.toNat

/-! The aggregates of a group. -/

section Aggregates

variable (count : U → Nat) (rows : List (Repair.DailyRow U))

def sumCost : ℚ := (rows.map (·.cost)).sum

def uniqMerge (column : Repair.DailyRow U → U) : Int := toInt64 (count (rows.map column).sum)

def sumInt64 (column : Repair.DailyRow U → Int) : Int := toInt64 (rows.map column).sum

def sumSpans : Nat := (rows.map (·.spanCount)).sum

end Aggregates

structure WorkflowCost where
  name : Str
  cost : ℚ
  calls : Int
  trend : List Int

structure Workflow where
  name : Str
  calls : Int
  cost : ℚ
  avgLatencyMs : ℚ
  errorRate : ℚ
  trend : List Int
  lastTraceID : Str

structure Failure where
  workflow : Str
  count : Int
  pct : ℚ
  topError : Str

structure WorkflowUsage where
  name : Str
  model : Str
  (cost costPrev : ℚ)
  (runs runsPrev : Int)

structure WorkflowVersion where
  version : Str
  (firstSeenMs lastSeenMs : Int)
  calls : Int
  (cost costPerRun : ℚ)
  p95LatencyMs : Option ℚ
  (errorRate tokensPerRun : ℚ)

/-! The panels. -/

section Panels

variable (zone : Location) (count : U → Nat) (f : MetricsFilter) (limit : Int)
  (daily : List (Repair.DailyRow U))

def groupedDaily {β R : Type} [DecidableEq β] (label : DailyKey → β) (keep : DailyKey → Bool)
    (row : β → List (Repair.DailyRow U) → R) : List R :=
  grouped DailyRow.toDailyKey label keep row daily

/-- The statement behind the sparklines of both workflow tables. -/
def workflowTrends : List (Str × Int × Int) :=
  groupedDaily daily (fun k => (k.workflowName, bucketMs k)) (currentDays zone f) fun b rows =>
    (b.1, b.2, uniqMerge count rows (·.runs))

def TopWorkflowsRollup (answer : List WorkflowCost) : Prop :=
  ∃ ranked trends,
    Ranked WorkflowCost.cost limit (groupedDaily daily (·.workflowName) (currentDays zone f)
      fun name rows => ⟨name, sumCost rows, uniqMerge count rows (·.runs), []⟩) ranked ∧
    trends.Perm (workflowTrends zone count f daily) ∧
    answer = List.zipWith (fun a trend => { a with trend := trend }) ranked
      (fillTrends f 0 (ranked.map WorkflowCost.name) trends)

/-- Latency and the last trace are not in the rollup. -/
def ListWorkflowsRollup (answer : List Workflow) : Prop :=
  ∃ ranked trends,
    Ranked (fun a : Workflow => a.calls) limit (groupedDaily daily (·.workflowName) (currentDays zone f)
      fun name rows =>
        let calls := uniqMerge count rows (·.runs)
        let errRuns := uniqMerge count rows (·.errorRuns)
        ⟨name, calls, sumCost rows, 0, if calls > 0 then errRuns / calls else 0, [], []⟩) ranked ∧
    trends.Perm (workflowTrends zone count f daily) ∧
    answer = List.zipWith (fun a trend => { a with trend := trend }) ranked
      (fillTrends f 0 (ranked.map Workflow.name) trends)

/-- The failing workflows and the failures of the whole window. -/
def FailuresRollup (answer : List Failure × Int) : Prop :=
  Ranked (fun fl : Failure => fl.count) limit ((groupedDaily daily (·.workflowName) (currentDays zone f)
    fun name rows =>
      let failed := uniqMerge count rows (·.errorRuns)
      let runs := uniqMerge count rows (·.runs)
      (⟨name, failed, if runs > 0 then failed / runs else 0, []⟩ : Failure)).filter
        fun fl => fl.count > 0) answer.1 ∧
  answer.2 = uniqMerge count (daily.filter fun r => currentDays zone f r.toDailyKey) (·.errorRuns)

def ModelCostsRollup (answer : List ModelCost) : Prop :=
  Ranked ModelCost.cost limit (groupedDaily daily (·.model) (fun k => currentDays zone f k && k.model != [])
    fun name rows => ⟨name, sumCost rows, toInt64 (sumSpans rows), sumInt64 rows (·.inputTokens),
      sumInt64 rows (·.outputTokens)⟩) answer

/-- The columns of both usage tables: one pass over both windows, split at the day of Start. -/
def usageSplit (rows : List (Repair.DailyRow U)) : (ℚ × ℚ) × (Int × Int) :=
  let cur := rows.filter fun r => sinceDate zone f.start r.toDailyKey
  let prev := rows.filter fun r => !sinceDate zone f.start r.toDailyKey
  ((sumCost cur, sumCost prev), uniqMerge count cur (·.runs), uniqMerge count prev (·.runs))

def bothWindows : DailyKey → Bool := rollupWindow zone f.userID f.workspaceIDs f.prevStart f.end' true

def UserUsageRollup (answer : List UserUsage) : Prop :=
  ∃ ranked trends,
    Ranked UserUsage.cost limit (groupedDaily daily (·.userID) (bothWindows zone f) fun user rows =>
      let ((cost, costPrev), runs, runsPrev) := usageSplit zone count f rows
      ⟨user, cost, costPrev, runs, runsPrev, []⟩) ranked ∧
    trends.Perm (groupedDaily daily (fun k => (k.userID, bucketMs k)) (currentDays zone f) fun b rows =>
      (b.1, b.2, sumCost rows)) ∧
    answer = List.zipWith (fun u trend => { u with trend := trend }) ranked
      (fillTrends f 0 (ranked.map UserUsage.userID) trends)

/-- The inner statement of fillWorkflowModels. -/
def workflowModels : List (Str × Str × Nat) :=
  groupedDaily daily (fun k => (k.workflowName, k.model))
    (fun k => currentDays zone f k && k.model != []) fun b rows => (b.1, b.2, sumSpans rows % 2 ^ 64)

/-- fillWorkflowModels: argMax takes any of the models with the most spans. -/
def FillsModel (a filled : WorkflowUsage) : Prop :=
  (∃ model spans, (a.name, model, spans) ∈ workflowModels zone f daily ∧
    (∀ e ∈ workflowModels zone f daily, e.1 = a.name → e.2.2 ≤ spans) ∧ filled = { a with model := model }) ∨
  (∀ e ∈ workflowModels zone f daily, e.1 ≠ a.name) ∧ filled = a

def WorkflowUsageRollup (answer : List WorkflowUsage) : Prop :=
  ∃ ranked,
    Ranked WorkflowUsage.cost limit (groupedDaily daily (·.workflowName) (bothWindows zone f) fun name rows =>
      let ((cost, costPrev), runs, runsPrev) := usageSplit zone count f rows
      ⟨name, [], cost, costPrev, runs, runsPrev⟩) ranked ∧
    List.Forall₂ (FillsModel zone f daily) ranked answer

/-- ORDER BY max(bucket_date) DESC, which is the order of lastSeenMs. -/
def WorkflowVersionsRollup (answer : List WorkflowVersion) : Prop :=
  Ranked (fun v : WorkflowVersion => v.lastSeenMs) limit (groupedDaily daily (·.workflowVersion)
    (fun k => currentDays zone f k && k.workflowName == f.workflow) fun version rows =>
      let days := rows.map fun r => bucketMs r.toDailyKey
      let calls := uniqMerge count rows (·.runs)
      let errRuns := uniqMerge count rows (·.errorRuns)
      let tokens := toInt64 ((rows.map (·.inputTokens)).sum + (rows.map (·.outputTokens)).sum)
      let perRun (n : ℚ) : ℚ := if calls > 0 then n / calls else 0
      ⟨version, days.min?.getD 0, days.max?.getD 0, calls, sumCost rows, perRun (sumCost rows), none,
        perRun errRuns, perRun tokens⟩) answer

def ErrorSeriesRollup (answer : List ErrorPoint) : Prop :=
  ∃ buckets, buckets.Perm (groupedDaily daily bucketMs (rollupScope zone f) fun bm rows =>
      (bm, ⟨bm, uniqMerge count rows (·.errorRuns), uniqMerge count rows (·.runs)⟩)) ∧
    answer = bucketSeries f ⟨0, 0, 0⟩ errorPoint buckets

def TokenSeriesRollup (answer : List TokenPoint) : Prop :=
  ∃ buckets, buckets.Perm (groupedDaily daily bucketMs (rollupScope zone f) fun bm rows =>
      (bm, ⟨bm, sumInt64 rows (·.inputTokens), sumInt64 rows (·.outputTokens)⟩)) ∧
    answer = bucketSeries f ⟨0, 0, 0⟩ tokenPoint buckets

/-- The scoped cost chart, which is span-only. -/
def ScopedCostSeriesRollup (answer : List CostPoint) : Prop :=
  ∃ buckets, buckets.Perm (groupedDaily daily bucketMs (rollupScope zone f) fun bm rows =>
      (bm, sumCost rows)) ∧
    answer = bucketSeries f 0 CostPoint.mk buckets

end Panels

/-! What a panel can tell of the table it reads. -/

def spanWeight : DailyMeasure U →+ ℕ where
  toFun := fun m => m.2.2.2.1
  map_zero' := rfl
  map_add' := fun _ _ => rfl

/-- Two readings with the same totals for every choice of keys. -/
abbrev SameTotals (daily daily' : List (Repair.DailyRow U)) : Prop :=
  Alike DailyRow.toDailyKey dailyMeasure DailyRow.toDailyKey dailyMeasure spanWeight daily daily'

theorem toInt64_congr {m n : Int} (same : (m : ZMod (2 ^ 64)) = n) : toInt64 m = toInt64 n := by
  have remainders : m % (2 ^ 64 : ℕ) = n % (2 ^ 64 : ℕ) := (ZMod.intCast_eq_intCast_iff m n _).mp same
  rw [toInt64, toInt64, ← Int.emod_bmod (x := m), ← Int.emod_bmod (x := n), remainders]

theorem min?_congr {l l' : List Int} (same : ∀ n, n ∈ l ↔ n ∈ l') : l.min? = l'.min? := by
  cases least : l.min? with
  | none =>
    obtain rfl := List.min?_eq_none_iff.mp least
    have none : l' = [] := List.eq_nil_iff_forall_not_mem.mpr fun n member => by simpa using (same n).mpr member
    rw [none]
    rfl
  | some n =>
    obtain ⟨member, below⟩ := List.min?_eq_some_iff.mp least
    exact (List.min?_eq_some_iff.mpr ⟨(same n).mp member, fun m inRows => below m ((same m).mpr inRows)⟩).symm

theorem max?_congr {l l' : List Int} (same : ∀ n, n ∈ l ↔ n ∈ l') : l.max? = l'.max? := by
  cases greatest : l.max? with
  | none =>
    obtain rfl := List.max?_eq_none_iff.mp greatest
    have none : l' = [] := List.eq_nil_iff_forall_not_mem.mpr fun n member => by simpa using (same n).mpr member
    rw [none]
    rfl
  | some n =>
    obtain ⟨member, above⟩ := List.max?_eq_some_iff.mp greatest
    exact (List.max?_eq_some_iff.mpr ⟨(same n).mp member, fun m inRows => above m ((same m).mpr inRows)⟩).symm

section SameTotals

variable {zone : Location} {count : U → Nat} {f : MetricsFilter} {limit : Int}
  {daily daily' : List (Repair.DailyRow U)} (same : SameTotals daily daily')

include same

theorem SameTotals.sumCost : sumCost daily = sumCost daily' :=
  same.sum { toFun := fun m => m.1, map_zero' := rfl, map_add' := fun _ _ => rfl }

theorem SameTotals.runs : uniqMerge count daily (·.runs) = uniqMerge count daily' (·.runs) :=
  congrArg (fun u => toInt64 (count u))
    (same.sum { toFun := fun m => m.2.2.2.2.1, map_zero' := rfl, map_add' := fun _ _ => rfl })

theorem SameTotals.errorRuns : uniqMerge count daily (·.errorRuns) = uniqMerge count daily' (·.errorRuns) :=
  congrArg (fun u => toInt64 (count u))
    (same.sum { toFun := fun m => m.2.2.2.2.2, map_zero' := rfl, map_add' := fun _ _ => rfl })

theorem SameTotals.sumSpans : sumSpans daily = sumSpans daily' := same.sum spanWeight

/-- The token columns, as far as 64 bits go. -/
theorem SameTotals.tokens :
    (((daily.map (·.inputTokens)).sum : Int) : ZMod (2 ^ 64)) = (daily'.map (·.inputTokens)).sum ∧
      (((daily.map (·.outputTokens)).sum : Int) : ZMod (2 ^ 64)) = (daily'.map (·.outputTokens)).sum := by
  have input := same.sum { toFun := fun m => m.2.1, map_zero' := rfl, map_add' := fun _ _ => rfl }
  have output := same.sum { toFun := fun m => m.2.2.1, map_zero' := rfl, map_add' := fun _ _ => rfl }
  have cast (rows : List (Repair.DailyRow U)) (column : Repair.DailyRow U → Int) :
      (((rows.map column).sum : Int) : ZMod (2 ^ 64)) = (rows.map fun r => (column r : ZMod (2 ^ 64))).sum := by
    rw [Int.cast_list_sum, List.map_map]
    rfl
  simp only [cast]
  exact ⟨input, output⟩

theorem SameTotals.inputTokens : sumInt64 daily (·.inputTokens) = sumInt64 daily' (·.inputTokens) :=
  toInt64_congr same.tokens.1

theorem SameTotals.outputTokens : sumInt64 daily (·.outputTokens) = sumInt64 daily' (·.outputTokens) :=
  toInt64_congr same.tokens.2

theorem SameTotals.days (n : Int) :
    (n ∈ daily.map fun r => bucketMs r.toDailyKey) ↔ n ∈ daily'.map fun r => bucketMs r.toDailyKey := by
  have both := exists_congr fun k => and_congr_left (c := bucketMs k = n) fun _ => same.keys k
  simpa only [List.mem_map, exists_exists_and_eq_and] using both

theorem SameTotals.usageSplit : usageSplit zone count f daily = usageSplit zone count f daily' := by
  have cur := same.filter (sinceDate zone f.start)
  have prev := same.filter fun k => !sinceDate zone f.start k
  simp only [Rollup.usageSplit, SameTotals.sumCost cur, SameTotals.sumCost prev, SameTotals.runs cur,
    SameTotals.runs prev]

/-- The groups of a statement whose rows only read totals. -/
theorem SameTotals.groupedDaily {β R : Type} [DecidableEq β] (label : DailyKey → β) (keep : DailyKey → Bool)
    {row : β → List (Repair.DailyRow U) → R}
    (reads : ∀ l part part', SameTotals part part' → row l part = row l part') :
    (groupedDaily daily label keep row).Perm (groupedDaily daily' label keep row) :=
  same.grouped label keep row row reads

end SameTotals

theorem ranked_congr {R : Type} {sortKey : R → ℚ} {limit : Int} {groups groups' : List R}
    (perm : groups.Perm groups') (answer : List R) :
    Ranked sortKey limit groups answer ↔ Ranked sortKey limit groups' answer := by
  constructor
  · rintro ⟨order, ordered, rfl⟩
    exact ⟨order, ⟨ordered.perm.trans perm, ordered.sorted⟩, rfl⟩
  · rintro ⟨order, ordered, rfl⟩
    exact ⟨order, ⟨ordered.perm.trans perm.symm, ordered.sorted⟩, rfl⟩

/-- Every panel may answer the same over both readings. -/
structure SamePanels (zone : Location) (count : U → Nat) (daily daily' : List (Repair.DailyRow U)) : Prop where
  topWorkflows : ∀ f limit answer,
    TopWorkflowsRollup zone count f limit daily answer ↔ TopWorkflowsRollup zone count f limit daily' answer
  listWorkflows : ∀ f limit answer,
    ListWorkflowsRollup zone count f limit daily answer ↔ ListWorkflowsRollup zone count f limit daily' answer
  failures : ∀ f limit answer,
    FailuresRollup zone count f limit daily answer ↔ FailuresRollup zone count f limit daily' answer
  modelCosts : ∀ f limit answer,
    ModelCostsRollup zone f limit daily answer ↔ ModelCostsRollup zone f limit daily' answer
  userUsage : ∀ f limit answer,
    UserUsageRollup zone count f limit daily answer ↔ UserUsageRollup zone count f limit daily' answer
  workflowUsage : ∀ f limit answer,
    WorkflowUsageRollup zone count f limit daily answer ↔ WorkflowUsageRollup zone count f limit daily' answer
  workflowVersions : ∀ f limit answer,
    WorkflowVersionsRollup zone count f limit daily answer ↔
      WorkflowVersionsRollup zone count f limit daily' answer
  errorSeries : ∀ f answer,
    ErrorSeriesRollup zone count f daily answer ↔ ErrorSeriesRollup zone count f daily' answer
  tokenSeries : ∀ f answer, TokenSeriesRollup zone f daily answer ↔ TokenSeriesRollup zone f daily' answer
  scopedCostSeries : ∀ f answer,
    ScopedCostSeriesRollup zone f daily answer ↔ ScopedCostSeriesRollup zone f daily' answer

section SamePanels

variable {zone : Location} {count : U → Nat} {daily daily' : List (Repair.DailyRow U)}
  (same : SameTotals daily daily')

include same

theorem SameTotals.workflowTrends (f : MetricsFilter) :
    (workflowTrends zone count f daily).Perm (workflowTrends zone count f daily') :=
  same.groupedDaily _ _ fun b part part' same => by rw [same.runs]

theorem SameTotals.workflowModels (f : MetricsFilter) :
    (workflowModels zone f daily).Perm (workflowModels zone f daily') :=
  same.groupedDaily _ _ fun b part part' same => by rw [same.sumSpans]

theorem SameTotals.fillsModel (f : MetricsFilter) :
    FillsModel zone f daily = FillsModel zone f daily' := by
  have models : ∀ e, e ∈ Rollup.workflowModels zone f daily ↔ e ∈ Rollup.workflowModels zone f daily' :=
    fun e => (same.workflowModels f).mem_iff
  funext a filled
  simp only [FillsModel, models]

theorem SameTotals.panels : SamePanels zone count daily daily' where
  topWorkflows := fun f limit answer => by
    refine exists_congr fun ranked => exists_congr fun trends => and_congr (ranked_congr ?_ _)
      (and_congr ((same.workflowTrends f).congr_right _) Iff.rfl)
    exact same.groupedDaily _ _ fun name part part' same => by rw [same.sumCost, same.runs]
  listWorkflows := fun f limit answer => by
    refine exists_congr fun ranked => exists_congr fun trends => and_congr (ranked_congr ?_ _)
      (and_congr ((same.workflowTrends f).congr_right _) Iff.rfl)
    exact same.groupedDaily _ _ fun name part part' same => by simp only [same.sumCost, same.runs, same.errorRuns]
  failures := fun f limit answer => by
    have total : uniqMerge count (daily.filter fun r => currentDays zone f r.toDailyKey) (·.errorRuns) =
        uniqMerge count (daily'.filter fun r => currentDays zone f r.toDailyKey) (·.errorRuns) :=
      SameTotals.errorRuns (same.filter (currentDays zone f))
    refine and_congr (ranked_congr (List.Perm.filter _ ?_) _) (by rw [total])
    exact same.groupedDaily _ _ fun name part part' same => by simp only [same.runs, same.errorRuns]
  modelCosts := fun f limit answer => ranked_congr (same.groupedDaily _ _ fun name part part' same => by
    rw [same.sumCost, same.sumSpans, same.inputTokens, same.outputTokens]) _
  userUsage := fun f limit answer => by
    refine exists_congr fun ranked => exists_congr fun trends => and_congr (ranked_congr ?_ _)
      (and_congr (List.Perm.congr_right ?_ _) Iff.rfl)
    · exact same.groupedDaily _ _ fun user part part' same => by rw [same.usageSplit]
    · exact same.groupedDaily _ _ fun b part part' same => by rw [same.sumCost]
  workflowUsage := fun f limit answer => by
    refine exists_congr fun ranked => and_congr (ranked_congr ?_ _) (by rw [same.fillsModel f])
    exact same.groupedDaily _ _ fun name part part' same => by rw [same.usageSplit]
  workflowVersions := fun f limit answer => ranked_congr (same.groupedDaily _ _ fun version part part' same => by
    have tokens : toInt64 ((part.map (·.inputTokens)).sum + (part.map (·.outputTokens)).sum) =
        toInt64 ((part'.map (·.inputTokens)).sum + (part'.map (·.outputTokens)).sum) :=
      toInt64_congr (by rw [Int.cast_add, Int.cast_add, same.tokens.1, same.tokens.2])
    simp only [min?_congr same.days, max?_congr same.days, same.sumCost, same.runs, same.errorRuns, tokens]) _
  errorSeries := fun f answer => exists_congr fun buckets => and_congr ((same.groupedDaily _ _
    fun bm part part' same => by rw [same.runs, same.errorRuns]).congr_right _) Iff.rfl
  tokenSeries := fun f answer => exists_congr fun buckets => and_congr ((same.groupedDaily _ _
    fun bm part part' same => by rw [same.inputTokens, same.outputTokens]).congr_right _) Iff.rfl
  scopedCostSeries := fun f answer => exists_congr fun buckets => and_congr ((same.groupedDaily _ _
    fun bm part part' same => by rw [same.sumCost]).congr_right _) Iff.rfl

end SamePanels

/-! Over runs of the warehouse. -/

/-- Each row counts the calls it holds. -/
def Counted (w : Warehouse U) : Prop := ∀ r ∈ w.daily, 0 < r.spanCount

variable {sv : Server U} {w w' : Warehouse U}

omit [AddCommMonoid U] in
theorem Counted.insert (counted : Counted w) (block : List Repair.SpanRow) : Counted (insertBlock sv w block) := by
  intro r member
  rcases Multiset.mem_add.mp member with old | new
  · exact counted r old
  · obtain ⟨g, grouped, rfl⟩ := List.mem_map.mp (Multiset.mem_coe.mp new)
    obtain ⟨call, inBlock, own⟩ := groupBy_key_mem grouped
    have here : call ∈ g.2 := by
      rw [groupBy_group grouped]
      exact List.mem_filter.mpr ⟨inBlock, decide_eq_true own⟩
    exact List.length_pos_of_mem here

theorem Counted.combine [DecidableEq U] (counted : Counted w) {first : Repair.DailyRow U}
    {rest : List (Repair.DailyRow U)} (among : (first :: rest : Multiset (Repair.DailyRow U)) ≤ w.daily) :
    ∀ r ∈ w.daily - (first :: rest) + {combineDaily first.toDailyKey (first :: rest)}, 0 < r.spanCount := by
  intro r member
  rcases Multiset.mem_add.mp member with other | merged
  · exact counted r (Multiset.mem_of_le (Multiset.sub_le_self ..) other)
  · rw [Multiset.mem_singleton.mp merged]
    have one := counted first (Multiset.mem_of_le among (Multiset.mem_coe.mpr (List.mem_cons_self ..)))
    simp only [combineDaily, List.map_cons, List.sum_cons]
    omega

theorem Counted.step [DecidableEq U] (counted : Counted w) {a : Action U}
    (stepped : Rollup.step sv w a = some w') : Counted w' := by
  cases a with
  | insert block => exact Option.some.inj stepped ▸ counted.insert block
  | mergeDaily part =>
    cases part with
    | nil => cases stepped
    | cons first rest =>
      simp only [Rollup.step] at stepped
      split at stepped
      next fits =>
        rw [← Option.some.inj stepped]
        exact counted.combine fits.2
      next => cases stepped
  | mergeCost part =>
    cases part with
    | nil => cases stepped
    | cons first rest =>
      simp only [Rollup.step] at stepped
      split at stepped
      next =>
        rw [← Option.some.inj stepped]
        exact counted
      next => cases stepped
  | expire before =>
    rw [← Option.some.inj stepped]
    exact counted

theorem counted_run [DecidableEq U] {actions : List (Action U)}
    (ran : Steps.run (step sv) newWarehouse actions = some w) : Counted w :=
  Steps.run_invariant_along (fun _ _ _ counted _ stepped => counted.step stepped)
    (Steps.along_always _ _) ran fun _ member => absurd member (Multiset.notMem_zero _)

theorem sameTotals_run [DecidableEq U] (mergeable : Mergeable sv) {actions actions' : List (Action U)}
    (ran : Steps.run (step sv) newWarehouse actions = some w)
    (ran' : Steps.run (step sv) newWarehouse actions' = some w') (same : w.inserted.Perm w'.inserted)
    {daily daily' : List (Repair.DailyRow U)} (read : (daily : Multiset _) = w.daily)
    (read' : (daily' : Multiset _) = w'.daily) : SameTotals daily daily' where
  maintains := (maintained_run mergeable ran).daily.maintains.between (maintained_run mergeable ran').daily.maintains
    (same.filter _) read read'
  weighs := fun r member => (counted_run ran r (read ▸ Multiset.mem_coe.mpr member)).ne'
  weighs' := fun r member => (counted_run ran' r (read' ▸ Multiset.mem_coe.mpr member)).ne'

/-- Two runs that insert the same rows serve every panel of a long window alike: in which
blocks and in which order they came, which parts were merged meanwhile and which spans have
expired does not show. -/
theorem panels_run [DecidableEq U] (mergeable : Mergeable sv) (zone : Location) (count : U → Nat)
    {actions actions' : List (Action U)} (ran : Steps.run (step sv) newWarehouse actions = some w)
    (ran' : Steps.run (step sv) newWarehouse actions' = some w') (same : w.inserted.Perm w'.inserted)
    {daily daily' : List (Repair.DailyRow U)} (read : (daily : Multiset _) = w.daily)
    (read' : (daily' : Multiset _) = w'.daily) : SamePanels zone count daily daily' :=
  (sameTotals_run mergeable ran ran' same read read').panels

/-! The model costs, which the raw path has too. -/

/-- A group of calls that name one model. -/
def modelCost (name : Str) (calls : List Repair.SpanRow) : ModelCost where
  name := name
  cost := (calls.map (·.costUSD)).sum
  calls := toInt64 calls.length
  inputTokens := toInt64 (calls.map (·.inputTokens)).sum
  outputTokens := toInt64 (calls.map (·.outputTokens)).sum

/-- ModelCosts on the raw path. -/
def ModelCosts (endTimeMs : Repair.SpanRow → Int) (user : Str) (workspaces : List Str) (from_ until_ : Int)
    (limit : Int) (spans : List Repair.SpanRow) (answer : List ModelCost) : Prop :=
  let calls := spans.filter fun r => decide (r.source = .span) &&
    (inWindow user workspaces from_ until_ (callRow endTimeMs r) && modelOf r != [])
  Ranked ModelCost.cost limit ((groupBy modelOf calls).map fun g => modelCost g.1 g.2) answer

section ModelCosts

variable {user : Str} {workspaces : List Str} {from_ until_ : Int}

/-- While no row of the window has expired the stored spans give the same costs. -/
theorem modelCosts_stored (maintained : Maintained sv w) (endTimeMs : Repair.SpanRow → Int) (limit : Int)
    (unexpired : w.horizon ≤ from_) (answer : List ModelCost) :
    ModelCosts endTimeMs user workspaces from_ until_ limit w.spans answer ↔
      ModelCosts endTimeMs user workspaces from_ until_ limit w.inserted answer := by
  have same : (w.spans.filter fun r => decide (r.source = .span) &&
        (inWindow user workspaces from_ until_ (callRow endTimeMs r) && modelOf r != [])) =
      w.inserted.filter fun r => decide (r.source = .span) &&
        (inWindow user workspaces from_ until_ (callRow endTimeMs r) && modelOf r != []) := by
    rw [maintained.spans, List.filter_filter]
    apply List.filter_congr
    intro r _
    cases kept : inWindow user workspaces from_ until_ (callRow endTimeMs r)
    · simp
    · -- a row of the window starts after the horizon
      have start : from_ ≤ r.startTimeMs := by
        simp only [inWindow, Bool.and_eq_true, decide_eq_true_eq] at kept
        exact kept.1.1.1
      simp [unexpired.trans start]
  simp only [ModelCosts, same]

/-- The daily rows and the calls they were made from. -/
abbrev MadeFrom (sv : Server U) (daily : List (Repair.DailyRow U)) (calls : List Repair.SpanRow) : Prop :=
  Alike DailyRow.toDailyKey dailyMeasure (dailyKey sv) (dailyValue sv) spanWeight daily calls

theorem MadeFrom.sums {daily : List (Repair.DailyRow U)} {calls : List Repair.SpanRow}
    (made : MadeFrom sv daily calls) : sumCost daily = (calls.map (·.costUSD)).sum ∧
      sumSpans daily = calls.length ∧
      sumInt64 daily (·.inputTokens) = toInt64 (calls.map (·.inputTokens)).sum ∧
      sumInt64 daily (·.outputTokens) = toInt64 (calls.map (·.outputTokens)).sum := by
  have input := made.sum { toFun := fun m => m.2.1, map_zero' := rfl, map_add' := fun _ _ => rfl }
  have output := made.sum { toFun := fun m => m.2.2.1, map_zero' := rfl, map_add' := fun _ _ => rfl }
  have cast {α : Type} (rows : List α) (column : α → Int) :
      (((rows.map column).sum : Int) : ZMod (2 ^ 64)) = (rows.map fun r => (column r : ZMod (2 ^ 64))).sum := by
    rw [Int.cast_list_sum, List.map_map]
    rfl
  refine ⟨made.sum { toFun := fun m => m.1, map_zero' := rfl, map_add' := fun _ _ => rfl }, ?_,
    toInt64_congr ?_, toInt64_congr ?_⟩
  · refine (made.sum spanWeight).trans ?_
    simp [spanWeight, dailyValue]
  · rw [cast, cast]
    exact input
  · rw [cast, cast]
    exact output

/-- Over every run of the warehouse the model costs of a long window are those the raw
statement finds over the same whole UTC days among every row inserted; and among the stored
spans, until one of these days expires. -/
theorem modelCostsRollup_agrees [DecidableEq U] (mergeable : Mergeable sv) {actions : List (Action U)}
    (ran : Steps.run (step sv) newWarehouse actions = some w) (dated : ∀ r ∈ w.inserted, Dated sv r)
    {daily : List (Repair.DailyRow U)} (read : (daily : Multiset _) = w.daily)
    (endTimeMs : Repair.SpanRow → Int) (f : MetricsFilter) (limit : Int) (answer : List ModelCost) :
    let raw := ModelCosts endTimeMs f.userID f.workspaceIDs (daysStart f.start) (daysEnd f.end' true) limit
    (ModelCostsRollup utc f limit daily answer ↔ raw w.inserted answer) ∧
      (w.horizon ≤ daysStart f.start → (raw w.spans answer ↔ raw w.inserted answer)) := by
  intro raw
  have maintained := maintained_run mergeable ran
  have counted := counted_run ran
  have made : MadeFrom sv daily (w.inserted.filter Repair.Rollup.metricsDaily.reads) :=
    { maintains := by
        rw [read]
        exact maintained.daily.maintains
      weighs := fun r member => (counted r (read ▸ Multiset.mem_coe.mpr member)).ne'
      weighs' := fun _ _ => Nat.one_ne_zero }
  refine ⟨ranked_congr ?_ answer, fun unexpired => modelCosts_stored maintained endTimeMs limit unexpired answer⟩
  refine (made.grouped (·.model) (fun k => currentDays utc f k && k.model != []) _ modelCost
    fun name part part' made => ?_).trans (List.Perm.of_eq ?_)
  · obtain ⟨cost, spans, input, output⟩ := MadeFrom.sums made
    rw [cost, spans, input, output]
    rfl
  · unfold grouped
    rw [List.filter_filter]
    refine congrArg (fun calls => (groupBy modelOf calls).map fun g => modelCost g.1 g.2) ?_
    apply List.filter_congr
    intro r member
    have days := inDays_eq_inWindow f.userID f.workspaceIDs f.start f.end' true endTimeMs (dated r member)
    simp only [currentDays, rollupWindow, dailyKey, days, Repair.Rollup.reads]
    exact Bool.and_comm ..

end ModelCosts

/-! The two blocks of day 20 again, and the same rows one by one. -/

def oneByOne : List (Action (Multiset Str)) :=
  [.insert [failed], .expire 1728000600, .insert [metered], .insert [succeeded]]

def unmerged : List (Repair.DailyRow (Multiset Str)) :=
  [⟨dayTwenty, 2, 10, 20, 1, {lit "t"}, {lit "t"}⟩, ⟨dayTwenty, 2, 10, 20, 1, {lit "t"}, 0⟩]

theorem panels_run_oneByOne :
    SamePanels utc distinct [mergedDaily] unmerged ∧ unmerged.length = 2 := by
  have finished : (Steps.run (step exactServer) newWarehouse oneByOne).isSome = true := by decide +kernel
  obtain ⟨w, ran⟩ := Option.isSome_iff_exists.mp finished
  have got : w = (Steps.run (step exactServer) newWarehouse oneByOne).getD newWarehouse := by rw [ran]; rfl
  have same : stored.inserted.Perm w.inserted := by
    rw [got]
    decide +kernel
  have daily' : (unmerged : Multiset _) = w.daily := by
    rw [got]
    decide +kernel
  exact ⟨panels_run exactServer_estimates.mergeable utc distinct run_twoBlocks ran same stored_daily daily', rfl⟩

theorem modelCostsRollup_agrees_twoBlocks :
    ModelCosts (fun r => r.startTimeMs) [] [lit "w"] (daysStart dayWindow.start) (daysEnd dayWindow.end' true) 5
      stored.inserted [⟨lit "m", 4, 2, 20, 40⟩] := by
  refine (modelCostsRollup_agrees exactServer_estimates.mergeable run_twoBlocks stored_dated stored_daily
    (fun r => r.startTimeMs) dayWindow 5 _).1.mp
      ⟨[⟨lit "m", 4, 2, 20, 40⟩], ⟨List.Perm.of_eq ?_, List.pairwise_singleton ..⟩, rfl⟩
  have kept : ([mergedDaily].filter fun r => currentDays utc dayWindow r.toDailyKey && r.model != []) =
      [mergedDaily] := by decide +kernel
  rw [groupedDaily, grouped, kept]
  simp [groupBy, mergedDaily, dayTwenty, sumCost, sumSpans, sumInt64, toInt64]

end Tracium.Rollup
