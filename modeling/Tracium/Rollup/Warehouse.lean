import Mathlib.Data.ZMod.Basic
import Tracium.PartialAggregates
import Tracium.Repair.Runner
import Tracium.History

/-! The span table and its two daily rollups while the server runs: each inserted block
passes through both materialized views, parts are merged in the background, and old spans
expire. `inserted` remembers every row and is not stored anywhere. -/
namespace Tracium.Rollup

open GroupBy PartialAggregates Repair

variable {U : Type} [AddCommMonoid U]

/-- The states of a distinct count add up: `-State` over both lists is the `-Merge`. -/
structure Mergeable (sv : Server U) : Prop where
  nil : sv.uniqState [] = 0
  append : ∀ ids ids', sv.uniqState (ids ++ ids') = sv.uniqState ids + sv.uniqState ids'

structure Warehouse (U : Type) extends Database U where
  inserted : List SpanRow
  horizon : Int

def newWarehouse : Warehouse U := ⟨⟨[], 0, 0⟩, [], 0⟩

inductive Action (U : Type)
  | insert (block : List SpanRow)
  | mergeDaily (part : List (DailyRow U))
  | mergeCost (part : List DailyCostRow)
  | expire (before : Int)

def dailyKey (sv : Server U) (r : SpanRow) : DailyKey :=
  ⟨sv.toDate r.startTimeMs, r.userID, r.workspaceID, r.workflowName, r.workflowVersion, modelOf r⟩

def dailyCostKey (sv : Server U) (r : SpanRow) : DailyCostKey :=
  ⟨sv.toDate r.startTimeMs, r.userID, r.workspaceID⟩

/-- AggregatingMergeTree on rows of metrics_daily with one sorting key; its Float64 costs are
added exactly here. -/
def combineDaily (key : DailyKey) (part : List (DailyRow U)) : DailyRow U :=
  { key with
    cost := (part.map (·.cost)).sum
    inputTokens := (part.map (·.inputTokens)).sum % 2 ^ 64
    outputTokens := (part.map (·.outputTokens)).sum % 2 ^ 64
    spanCount := (part.map (·.spanCount)).sum
    runs := (part.map (·.runs)).sum
    errorRuns := (part.map (·.errorRuns)).sum }

def combineCost (key : DailyCostKey) (part : List DailyCostRow) : DailyCostRow :=
  { key with
    spanCost := (part.map (·.spanCost)).sum
    metricCost := (part.map (·.metricCost)).sum }

/-- Both views fire on an inserted block. -/
def insertBlock (sv : Server U) (w : Warehouse U) (block : List SpanRow) : Warehouse U where
  spans := w.spans ++ block.filter (w.horizon ≤ ·.startTimeMs)
  daily := w.daily + metricsDailySelect sv (block.filter Rollup.metricsDaily.reads)
  dailyCost := w.dailyCost + metricsDailyCostSelect sv (block.filter Rollup.metricsDailyCost.reads)
  inserted := w.inserted ++ block
  horizon := w.horizon

def step [DecidableEq U] (sv : Server U) (w : Warehouse U) : Action U → Option (Warehouse U)
  | .insert block => some (insertBlock sv w block)
  | .mergeDaily [] | .mergeCost [] => none
  | .mergeDaily (first :: rest) =>
    if (∀ r ∈ rest, r.toDailyKey = first.toDailyKey) ∧ (first :: rest : Multiset (DailyRow U)) ≤ w.daily then
      some { w with
        daily := w.daily - (first :: rest) + {combineDaily first.toDailyKey (first :: rest)} }
    else none
  | .mergeCost (first :: rest) =>
    if (∀ r ∈ rest, r.toDailyCostKey = first.toDailyCostKey) ∧
        (first :: rest : Multiset DailyCostRow) ≤ w.dailyCost then
      some { w with
        dailyCost := w.dailyCost - (first :: rest) + {combineCost first.toDailyCostKey (first :: rest)} }
    else none
  | .expire before =>
    let horizon := max w.horizon before
    some { w with spans := w.spans.filter (horizon ≤ ·.startTimeMs), horizon := horizon }

/-! What the rows of each rollup add up to. The token columns wrap at 64 bits. -/

abbrev DailyMeasure (U : Type) := ℚ × ZMod (2 ^ 64) × ZMod (2 ^ 64) × ℕ × U × U

def dailyMeasure (r : DailyRow U) : DailyMeasure U :=
  (r.cost, r.inputTokens, r.outputTokens, r.spanCount, r.runs, r.errorRuns)

def errored (r : SpanRow) : Bool := r.errorType ≠ [] || r.errorMessage ≠ []

def dailyValue (sv : Server U) (r : SpanRow) : DailyMeasure U :=
  (r.costUSD, r.inputTokens, r.outputTokens, 1, sv.uniqState [r.traceID],
    sv.uniqState (if errored r then [r.traceID] else []))

def costMeasure (r : DailyCostRow) : ℚ × ℚ := (r.spanCost, r.metricCost)

def costValue (r : SpanRow) : ℚ × ℚ :=
  (if r.source = .span then r.costUSD else 0, if r.source = .metric then r.costUSD else 0)

structure Maintained (sv : Server U) (w : Warehouse U) : Prop where
  daily : MadeOf DailyRow.toDailyKey dailyMeasure (dailyKey sv) (dailyValue sv) w.daily
    (w.inserted.filter Rollup.metricsDaily.reads : List SpanRow)
  dailyCost : MadeOf DailyCostRow.toDailyCostKey costMeasure (dailyCostKey sv) costValue w.dailyCost
    (w.inserted : Multiset SpanRow)
  spans : w.spans = w.inserted.filter (w.horizon ≤ ·.startTimeMs)

variable {sv : Server U} {w w' : Warehouse U}

theorem intCast_mod_tokens (n : Int) : ((n % 2 ^ 64 : Int) : ZMod (2 ^ 64)) = (n : ZMod (2 ^ 64)) := by
  exact_mod_cast ZMod.intCast_mod n (2 ^ 64)

/-- The SELECT of metrics_daily_mv gives each group the sum of its rows. -/
theorem dailyMeasure_select (mergeable : Mergeable sv) (g : DailyKey × List SpanRow) :
    dailyMeasure { g.1 with
      cost := (g.2.map SpanRow.costUSD).sum
      inputTokens := (g.2.map SpanRow.inputTokens).sum % 2 ^ 64
      outputTokens := (g.2.map SpanRow.outputTokens).sum % 2 ^ 64
      spanCount := g.2.length
      runs := sv.uniqState (g.2.map SpanRow.traceID)
      errorRuns := sv.uniqState
        ((g.2.filter fun r => r.errorType ≠ [] || r.errorMessage ≠ []).map SpanRow.traceID) } =
      (g.2.map (dailyValue sv)).sum := by
  simp only [dailyMeasure, intCast_mod_tokens]
  induction g.2 with
  | nil => simp [mergeable.nil]
  | cons r rest ih =>
    have runs := mergeable.append [r.traceID] (rest.map SpanRow.traceID)
    have errors : sv.uniqState (((r :: rest).filter fun r => r.errorType ≠ [] || r.errorMessage ≠ []).map
          SpanRow.traceID) =
        sv.uniqState (if errored r then [r.traceID] else []) + sv.uniqState
          ((rest.filter fun r => r.errorType ≠ [] || r.errorMessage ≠ []).map SpanRow.traceID) := by
      rw [← mergeable.append, List.filter_cons]
      unfold errored
      split <;> rfl
    rw [errors, List.map_cons (f := dailyValue sv), List.sum_cons, ← ih]
    simp only [dailyValue, Prod.mk_add_mk, List.map_cons, List.sum_cons, Int.cast_add, List.length_cons,
      Nat.add_comm]
    rw [← runs]
    rfl

theorem dailyMeasure_combine (key : DailyKey) (part : List (DailyRow U)) :
    dailyMeasure (combineDaily key part) = (part.map dailyMeasure).sum := by
  simp only [dailyMeasure, combineDaily, intCast_mod_tokens]
  induction part with
  | nil => simp
  | cons row rest ih =>
    rw [List.map_cons (f := dailyMeasure), List.sum_cons, ← ih]
    simp [dailyMeasure]

theorem costMeasure_select (g : DailyCostKey × List SpanRow) :
    costMeasure { g.1 with spanCost := sumCostIf .span g.2, metricCost := sumCostIf .metric g.2 } =
      (g.2.map costValue).sum := by
  simp only [costMeasure, sumCostIf]
  induction g.2 with
  | nil => rfl
  | cons r rest ih =>
    rw [List.map_cons (f := costValue), List.sum_cons, ← ih]
    cases source : r.source <;> simp [costValue, source]

theorem costMeasure_combine (key : DailyCostKey) (part : List DailyCostRow) :
    costMeasure (combineCost key part) = (part.map costMeasure).sum := by
  simp only [costMeasure, combineCost]
  induction part with
  | nil => rfl
  | cons row rest ih =>
    rw [List.map_cons (f := costMeasure), List.sum_cons, ← ih]
    simp [costMeasure]

theorem filter_append_horizon {rows block : List SpanRow} {horizon : Int} :
    rows.filter (horizon ≤ ·.startTimeMs) ++ block.filter (horizon ≤ ·.startTimeMs) =
      (rows ++ block).filter (horizon ≤ ·.startTimeMs) := (List.filter_append ..).symm

theorem Maintained.insert (mergeable : Mergeable sv) (maintained : Maintained sv w)
    (block : List SpanRow) : Maintained sv (insertBlock sv w block) := by
  refine ⟨?_, ?_, ?_⟩
  · rw [insertBlock, List.filter_append, ← Multiset.coe_add]
    refine maintained.daily.add ?_
    unfold metricsDailySelect
    refine .groups ?_ ?_ _
    exacts [fun g => rfl, fun g => dailyMeasure_select mergeable g]
  · have all : block.filter Rollup.metricsDailyCost.reads = block :=
      List.filter_eq_self.mpr fun _ _ => rfl
    rw [insertBlock, all, ← Multiset.coe_add]
    refine maintained.dailyCost.add ?_
    unfold metricsDailyCostSelect
    refine .groups ?_ ?_ _
    exacts [fun g => rfl, fun g => costMeasure_select g]
  · rw [insertBlock, maintained.spans, filter_append_horizon]

theorem Maintained.step [DecidableEq U] (mergeable : Mergeable sv) (maintained : Maintained sv w)
    {a : Action U} (stepped : Rollup.step sv w a = some w') : Maintained sv w' := by
  cases a with
  | insert block => exact Option.some.inj stepped ▸ maintained.insert mergeable block
  | mergeDaily part =>
    cases part with
    | nil => cases stepped
    | cons first rest =>
      simp only [Rollup.step] at stepped
      split at stepped
      next fits =>
        rw [← Option.some.inj stepped]
        refine ⟨maintained.daily.combine (by simp) fits.2 ?_ (dailyMeasure_combine _ _),
          maintained.dailyCost, maintained.spans⟩
        intro r member
        rcases List.mem_cons.mp (Multiset.mem_coe.mp member) with rfl | later
        exacts [rfl, fits.1 r later]
      next => cases stepped
  | mergeCost part =>
    cases part with
    | nil => cases stepped
    | cons first rest =>
      simp only [Rollup.step] at stepped
      split at stepped
      next fits =>
        rw [← Option.some.inj stepped]
        refine ⟨maintained.daily, maintained.dailyCost.combine (by simp) fits.2 ?_
          (costMeasure_combine _ _), maintained.spans⟩
        intro r member
        rcases List.mem_cons.mp (Multiset.mem_coe.mp member) with rfl | later
        exacts [rfl, fits.1 r later]
      next => cases stepped
  | expire before =>
    rw [← Option.some.inj stepped]
    refine ⟨maintained.daily, maintained.dailyCost, ?_⟩
    rw [maintained.spans, List.filter_filter]
    apply List.filter_congr
    intro r _
    simp only [← Bool.decide_and, decide_eq_decide]
    omega

theorem maintained_newWarehouse : Maintained sv newWarehouse :=
  ⟨.empty, .empty, rfl⟩

theorem maintained_run [DecidableEq U] (mergeable : Mergeable sv) {actions : List (Action U)}
    (ran : Steps.run (Rollup.step sv) newWarehouse actions = some w) : Maintained sv w :=
  Steps.run_invariant_along (fun _ _ _ maintained _ stepped => maintained.step mergeable stepped)
    (Steps.along_always _ _) ran maintained_newWarehouse

end Tracium.Rollup
