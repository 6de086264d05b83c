import Tracium.Paging
import Tracium.Query.RollupHeadline
import Tracium.Timing

/-! The token chart and the model costs behind the token figure. The chart counts every
call of the window, the figure only the calls that name a model, and each reads either the
spans or the daily rollup that a view fills from them. Sums are exact. -/
namespace Tracium.Query

open Go OrderedMap GroupBy Paging Processor

/-- The columns of tracium.calls these queries and the view of metrics_daily read. -/
structure MeteredRow extends SpanRow where
  workflowName : Str
  workflowVersion : Str
  model : Str
  modelNormalized : Str
  inputTokens : Int
  outputTokens : Int

section Calls

variable {F : Type}

/-- The columns of a stored span, its cost as an exact number. -/
def MeteredRow.ofSpan (toRat : F → ℚ) (s : Span F) : MeteredRow where
  traceID := s.traceID
  startTimeMs := s.startTimeMs
  endTimeMs := s.endTimeMs
  costUSD := toRat s.costUSD
  userID := s.userID
  workspaceID := s.workspaceID
  errorType := s.errorType
  errorMessage := s.errorMessage
  workflowName := s.workflowName
  workflowVersion := s.workflowVersion
  model := s.model
  modelNormalized := s.modelNormalized
  inputTokens := s.inputTokens
  outputTokens := s.outputTokens

/-- The source WriteBatch inserts. -/
def sourceColumn (s : Span F) : Str := if s.source = [] then lit "span" else s.source

/-- The view tracium.calls; metrics_daily_mv reads the same rows. -/
def callsView (toRat : F → ℚ) (spans : List (Span F)) : List MeteredRow :=
  (spans.filter fun s => sourceColumn s == lit "span").map (MeteredRow.ofSpan toRat)

end Calls

/-- The value of modelExpr. -/
def MeteredRow.modelOf (r : MeteredRow) : Str :=
  if r.modelNormalized ≠ [] then r.modelNormalized else r.model

/-- Input and output tokens. -/
def MeteredRow.tokens (r : MeteredRow) : Int × Int := (r.inputTokens, r.outputTokens)

structure TokenPoint where
  bucketMs : Int
  inputTokens : Int
  outputTokens : Int

def TokenPoint.tokens (p : TokenPoint) : Int × Int := (p.inputTokens, p.outputTokens)

def tokenPoint (bm : Int) (p : TokenPoint) : TokenPoint := { p with bucketMs := bm }

structure ModelCost where
  name : Str
  cost : ℚ
  calls : Int
  inputTokens : Int
  outputTokens : Int

def ModelCost.tokens (m : ModelCost) : Int × Int := (m.inputTokens, m.outputTokens)

/-! The daily rollup. -/

/-- The sorting key of metrics_daily. -/
structure DayKey where
  bucketDate : UInt16
  userID : Str
  workspaceID : Str
  workflowName : Str
  workflowVersion : Str
  model : Str
  deriving DecidableEq

/-- The additive columns of metrics_daily. -/
structure MeteredDay extends DailyRow where
  model : Str
  inputTokens : Int
  outputTokens : Int
  spanCount : Int

def MeteredDay.key (r : MeteredDay) : DayKey :=
  ⟨r.bucketDate, r.userID, r.workspaceID, r.workflowName, r.workflowVersion, r.model⟩

def MeteredDay.tokens (r : MeteredDay) : Int × Int := (r.inputTokens, r.outputTokens)

section View

variable (toDate : Int → UInt16)

def MeteredRow.dayKey (r : MeteredRow) : DayKey :=
  ⟨toDate r.startTimeMs, r.userID, r.workspaceID, r.workflowName, r.workflowVersion, r.modelOf⟩

/-- What metrics_daily_mv writes for one inserted block of calls. -/
def metricsDailyMV (block : List MeteredRow) : List MeteredDay :=
  (groupBy (MeteredRow.dayKey toDate) block).map fun g =>
    { bucketDate := g.1.bucketDate
      userID := g.1.userID
      workspaceID := g.1.workspaceID
      workflowName := g.1.workflowName
      workflowVersion := g.1.workflowVersion
      model := g.1.model
      cost := (g.2.map fun r => r.costUSD).sum
      inputTokens := (g.2.map MeteredRow.inputTokens).sum
      outputTokens := (g.2.map MeteredRow.outputTokens).sum
      spanCount := g.2.length }

/-- Two rows of one key become one. -/
def MeteredDay.merge (a b : MeteredDay) : MeteredDay :=
  { a with
    cost := a.cost + b.cost
    inputTokens := a.inputTokens + b.inputTokens
    outputTokens := a.outputTokens + b.outputTokens
    spanCount := a.spanCount + b.spanCount }

/-- The contents of metrics_daily once the calls are inserted, in any blocks and any order,
with any merges in between. -/
inductive Filled : List MeteredRow → List MeteredDay → Prop
  | empty : Filled [] []
  | insert {calls : List MeteredRow} {daily : List MeteredDay} (block : List MeteredRow) :
      Filled calls daily → Filled (calls ++ block) (daily ++ metricsDailyMV toDate block)
  | merge {calls : List MeteredRow} {daily rest : List MeteredDay} {a b : MeteredDay} :
      Filled calls daily → daily.Perm (a :: b :: rest) → a.key = b.key →
      Filled calls (a.merge b :: rest)
  | reorder {calls calls' : List MeteredRow} {daily : List MeteredDay} :
      Filled calls daily → calls.Perm calls' → Filled calls' daily

end View

/-! The queries. -/

section Queries

variable (workflowOf versionOf : List SpanRow → Str) (zone : Location) (calls : List MeteredRow)
  (daily : List MeteredDay)

/-- The calls the window clause keeps. -/
def callsIn (f : MetricsFilter) : List MeteredRow := calls.filter fun r => currentWindow f r.toSpanRow

/-- The rows rollupWindow keeps, the last day included. -/
def daysIn (f : MetricsFilter) : List MeteredDay :=
  daily.filter fun r =>
    inDays zone f.userID f.workspaceIDs f.start f.end' true r.bucketDate r.userID r.workspaceID

def tokenSeriesRollup (f : MetricsFilter) : List TokenPoint :=
  let rows := daily.filter fun r => r.toDailyRow.inScope zone f
  bucketSeries f ⟨0, 0, 0⟩ tokenPoint
    ((groupBy (fun r => dayMs r.bucketDate) rows).map fun g =>
      (g.1, ⟨g.1, (g.2.map MeteredDay.inputTokens).sum, (g.2.map MeteredDay.outputTokens).sum⟩))

/-- TokenSeries: calls roll up to traces, traces to the bucket they start in. -/
def tokenSeries (f : MetricsFilter) : List TokenPoint :=
  if f.useRollup then tokenSeriesRollup zone daily f
  else
    let traces := (groupBy (fun r => r.traceID) (callsIn calls f)).map Prod.snd
    let wanted := traces.filter fun trace => inScope workflowOf versionOf f (trace.map MeteredRow.toSpanRow)
    bucketSeries f ⟨0, 0, 0⟩ tokenPoint
      ((groupBy (fun trace => bucketOf (milliseconds f.bucket) (startedMs (trace.map MeteredRow.toSpanRow)))
        wanted).map fun g =>
          (g.1, ⟨g.1, (g.2.map fun trace => (trace.map MeteredRow.inputTokens).sum).sum,
            (g.2.map fun trace => (trace.map MeteredRow.outputTokens).sum).sum⟩))

/-- The groups of ModelCosts before ORDER BY and LIMIT, raw and over the rollup. -/
def modelGroups (f : MetricsFilter) : List ModelCost :=
  if f.useRollup then
    (groupBy MeteredDay.model ((daysIn zone daily f).filter fun r => r.model != [])).map fun g =>
      ⟨g.1, (g.2.map fun r => r.cost).sum, (g.2.map MeteredDay.spanCount).sum,
        (g.2.map MeteredDay.inputTokens).sum, (g.2.map MeteredDay.outputTokens).sum⟩
  else
    (groupBy MeteredRow.modelOf ((callsIn calls f).filter fun r => r.modelOf != [])).map fun g =>
      ⟨g.1, (g.2.map fun r => r.costUSD).sum, g.2.length,
        (g.2.map MeteredRow.inputTokens).sum, (g.2.map MeteredRow.outputTokens).sum⟩

/-- ModelCosts, given the order ORDER BY cost DESC leaves the groups in. -/
def modelCosts (order : List ModelCost) (limit : Int) : List ModelCost := order.take limit.toNat

end Queries

/-! What the sums are over. -/

/-- Two sums as one. -/
theorem sum_pair {α : Type} (l : List α) (f g : α → Int) :
    ((l.map f).sum, (l.map g).sum) = (l.map fun a => (f a, g a)).sum := by
  induction l with
  | nil => rfl
  | cons a l ih => simp only [List.map_cons, List.sum_cons, ← ih, Prod.mk_add_mk]

theorem TokenPoint.sum_tokens (chart : List TokenPoint) : (chart.map TokenPoint.tokens).sum =
    ((chart.map TokenPoint.inputTokens).sum, (chart.map TokenPoint.outputTokens).sum) :=
  (sum_pair chart _ _).symm

theorem ModelCost.sum_tokens (models : List ModelCost) : (models.map ModelCost.tokens).sum =
    ((models.map ModelCost.inputTokens).sum, (models.map ModelCost.outputTokens).sum) :=
  (sum_pair models _ _).symm

/-- The unscoped windows the handlers build. -/
structure Unscoped (f : MetricsFilter) : Prop where
  parsed : ∃ rng now base, parseRange rng now = .ok base ∧ f.start = base.start ∧
    f.end' = base.end' ∧ f.bucket = base.bucket
  noWorkflow : f.workflow = []
  noVersion : f.version = []

theorem Unscoped.positive {f : MetricsFilter} (unscoped : Unscoped f) : 0 < milliseconds f.bucket := by
  obtain ⟨rng, now, base, parsed, _, _, bucket⟩ := unscoped.parsed
  rw [bucket]
  rcases parseRange_cases parsed with ⟨hourly, _⟩ | daily
  · rw [hourly]
    decide
  · rw [daily]
    decide

section Sums

variable {workflowOf versionOf : List SpanRow → Str} {zone : Location} {calls : List MeteredRow}
  {daily : List MeteredDay} {f : MetricsFilter}

theorem callsIn_onAxis (unscoped : Unscoped f) (started : ∀ r ∈ calls, 0 ≤ r.startTimeMs)
    {trace : List MeteredRow} (nonempty : trace ≠ []) (within : ∀ r ∈ trace, r ∈ callsIn calls f) :
    bucketOf (milliseconds f.bucket) (startedMs (trace.map MeteredRow.toSpanRow)) ∈ (bucketAxis f).slots := by
  obtain ⟨row, member, first⟩ := startedMs_mem (trace.map MeteredRow.toSpanRow) (by simpa using nonempty)
  obtain ⟨r, inTrace, rfl⟩ := List.mem_map.mp member
  obtain ⟨stored, kept⟩ := List.mem_filter.mp (within r inTrace)
  obtain ⟨after, before⟩ := inWindow_bounds kept
  rw [first]
  exact bucketOf_mem_slots f unscoped.positive (started r stored) after before

/-- The raw chart sums to the calls of the window. -/
theorem tokenSeries_sum (unscoped : Unscoped f) (started : ∀ r ∈ calls, 0 ≤ r.startTimeMs)
    (raw : f.useRollup = false) :
    ((tokenSeries workflowOf versionOf zone calls daily f).map TokenPoint.tokens).sum =
      ((callsIn calls f).map MeteredRow.tokens).sum := by
  have all : ∀ traces : List (List MeteredRow), (traces.filter fun trace =>
      inScope workflowOf versionOf f (trace.map MeteredRow.toSpanRow)) = traces := by
    intro traces
    simp [inScope, unscoped.noWorkflow, unscoped.noVersion]
  simp only [tokenSeries, raw, Bool.false_eq_true, ↓reduceIte, all]
  rw [bucketSeries_sum f unscoped.positive _ tokenPoint _ (groupBy_distinct _ _ _) ?_ TokenPoint.tokens
    TokenPoint.tokens (fun _ _ => rfl) rfl, List.map_map]
  · simp only [Function.comp_def, TokenPoint.tokens, sum_pair]
    rw [sum_groupBy, List.map_map]
    exact sum_groupBy _ MeteredRow.tokens _
  · intro e member
    obtain ⟨g, grouped, rfl⟩ := List.mem_map.mp member
    obtain ⟨trace, inTraces, key⟩ := groupBy_key_mem grouped
    obtain ⟨t, inGroups, rfl⟩ := List.mem_map.mp inTraces
    obtain ⟨r, inCalls, same⟩ := groupBy_key_mem inGroups
    rw [← key]
    apply callsIn_onAxis unscoped started
    · rw [groupBy_group inGroups]
      exact List.ne_nil_of_mem (List.mem_filter.mpr ⟨inCalls, by simpa using same⟩)
    · intro row inTrace
      rw [groupBy_group inGroups] at inTrace
      exact (List.mem_filter.mp inTrace).1

/-- The model costs sum to the calls of the window that name a model. -/
theorem modelGroups_sum (raw : f.useRollup = false) :
    ((modelGroups zone calls daily f).map ModelCost.tokens).sum =
      (((callsIn calls f).filter fun r => r.modelOf != []).map MeteredRow.tokens).sum := by
  simp only [modelGroups, raw, Bool.false_eq_true, ↓reduceIte, List.map_map, Function.comp_def,
    ModelCost.tokens, sum_pair]
  exact sum_groupBy _ MeteredRow.tokens _

/-- Any order under a limit that cuts nothing off. -/
theorem modelCosts_sum {order : List ModelCost} {limit : Int}
    (sorted : Ordered ModelCost.cost (modelGroups zone calls daily f) order)
    (enough : ↑(modelGroups zone calls daily f).length ≤ limit) :
    ((modelCosts order limit).map ModelCost.tokens).sum =
      ((modelGroups zone calls daily f).map ModelCost.tokens).sum := by
  have length := sorted.perm.length_eq
  rw [modelCosts, List.take_of_length_le (by omega)]
  exact (sorted.perm.map _).sum_eq

/-! The same over the rollup: its rows sum to the calls it was filled from, key by key. -/

theorem metricsDailyMV_sum (toDate : Int → UInt16) (block : List MeteredRow) (p : DayKey → Bool) :
    (((metricsDailyMV toDate block).filter fun r => p r.key).map MeteredDay.tokens).sum =
      ((block.filter fun r => p (r.dayKey toDate)).map MeteredRow.tokens).sum := by
  rw [← sum_groupBy_filter (MeteredRow.dayKey toDate) p, metricsDailyMV, List.filter_map, List.map_map]
  simp only [Function.comp_def, MeteredDay.tokens, MeteredDay.key, sum_pair]
  rfl

theorem Filled.single (toDate : Int → UInt16) (block : List MeteredRow) :
    Filled toDate block (metricsDailyMV toDate block) := by
  have inserted := Filled.insert block (Filled.empty : Filled toDate [] [])
  rwa [List.nil_append, List.nil_append] at inserted

theorem Filled.sum {toDate : Int → UInt16} (filled : Filled toDate calls daily) (p : DayKey → Bool) :
    ((daily.filter fun r => p r.key).map MeteredDay.tokens).sum =
      ((calls.filter fun r => p (r.dayKey toDate)).map MeteredRow.tokens).sum := by
  induction filled with
  | empty => rfl
  | insert block _ ih =>
    rw [List.filter_append, List.map_append, List.sum_append, ih, metricsDailyMV_sum, List.filter_append,
      List.map_append, List.sum_append]
  | @merge calls daily rest a b _ perm same ih =>
    rw [← ih, ((perm.filter _).map _).sum_eq]
    have merged : (a.merge b).key = a.key := rfl
    have total : (a.merge b).tokens = a.tokens + b.tokens := rfl
    by_cases kept : p a.key = true
    · have kept' : p b.key = true := same ▸ kept
      simp [merged, kept, kept', total, add_assoc]
    · have kept' : ¬ p b.key = true := same ▸ kept
      simp [merged, kept, kept']
  | reorder _ perm ih =>
    rw [ih]
    exact ((perm.filter _).map _).sum_eq

/-- The days the statements of the rollup keep. -/
def MeteredRow.dayKept (toDate : Int → UInt16) (zone : Location) (f : MetricsFilter) (r : MeteredRow) : Bool :=
  inDays zone f.userID f.workspaceIDs f.start f.end' true (toDate r.startTimeMs) r.userID r.workspaceID

/-- The day of the call has a slot on the chart. -/
def MeteredRow.drawn (toDate : Int → UInt16) (f : MetricsFilter) (r : MeteredRow) : Bool :=
  dayMs (toDate r.startTimeMs) ∈ (bucketAxis f).slots

theorem tokenSeriesRollup_sum {toDate : Int → UInt16} (filled : Filled toDate calls daily)
    (unscoped : Unscoped f) (rolled : f.useRollup = true) :
    ((tokenSeries workflowOf versionOf zone calls daily f).map TokenPoint.tokens).sum =
      ((calls.filter fun r => r.drawn toDate f && r.dayKept toDate zone f).map MeteredRow.tokens).sum := by
  have days : (daily.filter fun r => r.toDailyRow.inScope zone f) = daysIn zone daily f := by
    simp [daysIn, DailyRow.inScope, unscoped.noWorkflow, unscoped.noVersion]
  simp only [tokenSeries, rolled, ↓reduceIte, tokenSeriesRollup, days]
  rw [bucketSeries_sum_onAxis f unscoped.positive _ tokenPoint _ (groupBy_distinct _ _ _) TokenPoint.tokens
    TokenPoint.tokens (fun _ _ => rfl) rfl, List.filter_map, List.map_map]
  simp only [Function.comp_def, TokenPoint.tokens, sum_pair]
  have drawn := sum_groupBy_filter (fun r : MeteredDay => dayMs r.bucketDate)
    (fun bm => decide (bm ∈ (bucketAxis f).slots)) MeteredDay.tokens (daysIn zone daily f)
  refine drawn.trans ?_
  rw [daysIn, List.filter_filter]
  exact filled.sum fun k => decide (dayMs k.bucketDate ∈ (bucketAxis f).slots) &&
    inDays zone f.userID f.workspaceIDs f.start f.end' true k.bucketDate k.userID k.workspaceID

theorem modelGroupsRollup_sum {toDate : Int → UInt16} (filled : Filled toDate calls daily)
    (rolled : f.useRollup = true) :
    ((modelGroups zone calls daily f).map ModelCost.tokens).sum =
      ((calls.filter fun r => r.modelOf != [] && r.dayKept toDate zone f).map MeteredRow.tokens).sum := by
  simp only [modelGroups, rolled, ↓reduceIte, List.map_map, Function.comp_def, ModelCost.tokens, sum_pair]
  have named := sum_groupBy MeteredDay.model MeteredDay.tokens
    ((daysIn zone daily f).filter fun r => r.model != [])
  refine named.trans ?_
  rw [daysIn, List.filter_filter]
  exact filled.sum fun k => k.model != [] &&
    inDays zone f.userID f.workspaceIDs f.start f.end' true k.bucketDate k.userID k.workspaceID

/-! Where the two sums part. -/

/-- Tokens only the chart counts: those of calls that name no model. -/
def unnamedTokens (toDate : Int → UInt16) (zone : Location) (f : MetricsFilter)
    (calls : List MeteredRow) : Int × Int :=
  if f.useRollup then
    ((calls.filter fun r => r.modelOf == [] && (r.drawn toDate f && r.dayKept toDate zone f)).map
      MeteredRow.tokens).sum
  else (((callsIn calls f).filter fun r => r.modelOf == []).map MeteredRow.tokens).sum

/-- Tokens only the model costs count: those of calls that name a model on a day the
rollup keeps and the chart has no slot for. -/
def undrawnTokens (toDate : Int → UInt16) (zone : Location) (f : MetricsFilter)
    (calls : List MeteredRow) : Int × Int :=
  if f.useRollup then
    ((calls.filter fun r => !r.drawn toDate f && (r.modelOf != [] && r.dayKept toDate zone f)).map
      MeteredRow.tokens).sum
  else 0

/-- Each sum and the tokens only the other has come to the same. -/
theorem token_balance (workflowOf versionOf : List SpanRow → Str) (zone : Location)
    {toDate : Int → UInt16} (filled : Filled toDate calls daily) (unscoped : Unscoped f) (started : ∀ r ∈ calls, 0 ≤ r.startTimeMs) :
    ((tokenSeries workflowOf versionOf zone calls daily f).map TokenPoint.tokens).sum +
        undrawnTokens toDate zone f calls =
      ((modelGroups zone calls daily f).map ModelCost.tokens).sum + unnamedTokens toDate zone f calls := by
  by_cases rolled : f.useRollup = true
  · rw [tokenSeriesRollup_sum filled unscoped rolled, modelGroupsRollup_sum filled rolled]
    simp only [unnamedTokens, undrawnTokens, rolled, ↓reduceIte]
    rw [sum_filter_split (fun r : MeteredRow => r.drawn toDate f && r.dayKept toDate zone f)
        (fun r => r.modelOf != []),
      sum_filter_split (fun r : MeteredRow => r.modelOf != [] && r.dayKept toDate zone f)
        (fun r => r.drawn toDate f)]
    have both : ∀ r : MeteredRow, (r.modelOf != [] && (r.drawn toDate f && r.dayKept toDate zone f)) =
        (r.drawn toDate f && (r.modelOf != [] && r.dayKept toDate zone f)) := by
      intro r
      exact Bool.and_left_comm _ _ _
    simp only [both]
    simp only [bne, Bool.not_not]
    rw [add_assoc, add_assoc, add_comm (List.sum _) (List.sum _)]
  · have raw : f.useRollup = false := Bool.eq_false_of_not_eq_true rolled
    rw [tokenSeries_sum unscoped started raw, modelGroups_sum raw]
    simp only [unnamedTokens, undrawnTokens, raw, Bool.false_eq_true, ↓reduceIte, add_zero]
    have split := sum_filter_split (fun _ => true) (fun r : MeteredRow => r.modelOf != [])
      MeteredRow.tokens (callsIn calls f)
    simpa [bne] using split

end Sums

theorem started_of_stored {F : Type} {rt : Platform F} {toRat : F → ℚ} {spans : List (Span F)}
    (stored : ∀ row ∈ spans, ∃ p ctx resource s, storedRow rt p ctx resource s = some row) :
    ∀ r ∈ callsView toRat spans, 0 ≤ r.startTimeMs := by
  intro r member
  obtain ⟨row, inTable, rfl⟩ := List.mem_map.mp member
  obtain ⟨p, ctx, resource, s, kept⟩ := stored row (List.mem_filter.mp inTable).1
  obtain ⟨start, _, _, positive, _⟩ := storedRow_timing kept
  have column : (MeteredRow.ofSpan toRat row).startTimeMs = row.startTimeMs := rfl
  omega

/-- The token chart sums to the model costs exactly when the tokens of calls that name no
model are those of calls that name one on a day off the chart; a window read from the
spans has no such days. -/
theorem token_chart_sums_iff {F : Type} {rt : Platform F} {toRat : F → ℚ} {spans : List (Span F)}
    {workflowOf versionOf : List SpanRow → Str} {zone : Location} {toDate : Int → UInt16}
    {daily : List MeteredDay} {f : MetricsFilter} {order : List ModelCost} {limit : Int}
    (stored : ∀ row ∈ spans, ∃ p ctx resource s, storedRow rt p ctx resource s = some row)
    (filled : Filled toDate (callsView toRat spans) daily) (unscoped : Unscoped f)
    (sorted : Ordered ModelCost.cost (modelGroups zone (callsView toRat spans) daily f) order)
    (enough : ↑(modelGroups zone (callsView toRat spans) daily f).length ≤ limit) :
    (((tokenSeries workflowOf versionOf zone (callsView toRat spans) daily f).map
          TokenPoint.inputTokens).sum = ((modelCosts order limit).map ModelCost.inputTokens).sum ↔
      (unnamedTokens toDate zone f (callsView toRat spans)).1 =
        (undrawnTokens toDate zone f (callsView toRat spans)).1) ∧
    (((tokenSeries workflowOf versionOf zone (callsView toRat spans) daily f).map
          TokenPoint.outputTokens).sum = ((modelCosts order limit).map ModelCost.outputTokens).sum ↔
      (unnamedTokens toDate zone f (callsView toRat spans)).2 =
        (undrawnTokens toDate zone f (callsView toRat spans)).2) := by
  have balance := token_balance workflowOf versionOf zone filled unscoped (started_of_stored stored)
  rw [← modelCosts_sum sorted enough, TokenPoint.sum_tokens, ModelCost.sum_tokens] at balance
  obtain ⟨input, output⟩ := Prod.ext_iff.mp balance
  simp only [Prod.fst_add, Prod.snd_add] at input output
  omega

/-- What the collector stores of one batch. -/
def ingested (batch : List (OtlpSpan Int)) : List (Span Int) :=
  batch.filterMap (storedRow plainPlatform (plainProcessor true) (verifiedContext (lit "w")) [])

theorem ingested_stored (batch : List (OtlpSpan Int)) : ∀ row ∈ ingested batch,
    ∃ p ctx resource s, storedRow plainPlatform p ctx resource s = some row := by
  intro row member
  obtain ⟨s, _, stored⟩ := List.mem_filterMap.mp member
  exact ⟨_, _, _, s, stored⟩

/-- toDate on a server in UTC. -/
def utcDate (ms : Int) : UInt16 := UInt16.ofNat (ms / msPerDay).toNat

/-- The calls of one batch, and what the view makes of them. -/
def ingestedCalls (batch : List (OtlpSpan Int)) : List MeteredRow :=
  callsView (fun x : Int => (x : ℚ)) (ingested batch)

def ingestedDays (batch : List (OtlpSpan Int)) : List MeteredDay :=
  metricsDailyMV utcDate (ingestedCalls batch)

theorem ingested_filled (batch : List (OtlpSpan Int)) :
    Filled utcDate (ingestedCalls batch) (ingestedDays batch) :=
  Filled.single utcDate (ingestedCalls batch)

/-- The first 24 hours of 1970, for one workspace. -/
def firstDay : MetricsFilter := ⟨[], [lit "w"], [], [], 0, 24 * hour, -(24 * hour), hour⟩

theorem firstDay_unscoped : Unscoped firstDay where
  parsed := ⟨lit "24h", 24 * hour, _, rfl, rfl, rfl, rfl⟩
  noWorkflow := rfl
  noVersion := rfl

theorem quarter_unscoped (now : Int) : Unscoped (quarter now) :=
  ⟨(quarter_longRange now).parsed, rfl, rfl⟩

def inputOf (tokens : String) : Attributes Int := [(GenAI.attrInputTokens, .str (lit tokens))]

def calling (model tokens : String) : Attributes Int :=
  (Exporter.attrModelRequest, .str (lit model)) :: inputOf tokens

/-- Two traces two hours apart: calls of two models, and a span of neither model nor tokens. -/
def twoTraces : List (OtlpSpan Int) :=
  [plainSpan (calling "m" "5"), { plainSpan (calling "n" "7") with spanID := [3] },
    { plainSpan [] with spanID := [4] },
    { plainSpan (calling "m" "11") with
      traceID := [2]
      startTimestamp := 7200000000000
      endTimestamp := 7200001000000 }]

theorem token_chart_sums_named :
    (((tokenSeries (fun _ => []) (fun _ => []) (fun _ => 0) (ingestedCalls twoTraces)
        (ingestedDays twoTraces) firstDay).map TokenPoint.inputTokens).sum =
      ((modelCosts (modelGroups (fun _ => 0) (ingestedCalls twoTraces) (ingestedDays twoTraces) firstDay)
        2).map ModelCost.inputTokens).sum ∧
      (ingestedCalls twoTraces).length = 4) ∧
    ((tokenSeries (fun _ => []) (fun _ => []) (fun _ => 0) (ingestedCalls twoTraces)
        (ingestedDays twoTraces) (quarter (90 * 24 * hour))).map TokenPoint.inputTokens).sum =
      ((modelCosts (modelGroups (fun _ => 0) (ingestedCalls twoTraces) (ingestedDays twoTraces)
        (quarter (90 * 24 * hour))) 2).map ModelCost.inputTokens).sum ∧
      (ingestedDays twoTraces).length = 3 :=
  ⟨⟨(token_chart_sums_iff (ingested_stored twoTraces) (ingested_filled twoTraces) firstDay_unscoped
      ⟨.refl _, by decide +kernel⟩ (by decide +kernel)).1.mpr (by decide +kernel), by decide +kernel⟩,
    (token_chart_sums_iff (ingested_stored twoTraces) (ingested_filled twoTraces) (quarter_unscoped _)
      ⟨.refl _, by decide +kernel⟩ (by decide +kernel)).1.mpr (by decide +kernel), by decide +kernel⟩

/-- One call that names no model. -/
def fiveTokens : List (OtlpSpan Int) := [plainSpan (inputOf "5")]

theorem token_chart_counts_unnamed :
    (∀ row ∈ ingested fiveTokens, ∃ p ctx resource s,
      storedRow plainPlatform p ctx resource s = some row) ∧
    Filled utcDate (ingestedCalls fiveTokens) (ingestedDays fiveTokens) ∧
    (Unscoped firstDay ∧
      ((tokenSeries (fun _ => []) (fun _ => []) (fun _ => 0) (ingestedCalls fiveTokens)
        (ingestedDays fiveTokens) firstDay).map TokenPoint.inputTokens).sum = 5 ∧
      modelGroups (fun _ => 0) (ingestedCalls fiveTokens) (ingestedDays fiveTokens) firstDay = []) ∧
    Unscoped (quarter (90 * 24 * hour)) ∧
      ((tokenSeries (fun _ => []) (fun _ => []) (fun _ => 0) (ingestedCalls fiveTokens)
        (ingestedDays fiveTokens) (quarter (90 * 24 * hour))).map TokenPoint.inputTokens).sum = 5 ∧
      modelGroups (fun _ => 0) (ingestedCalls fiveTokens) (ingestedDays fiveTokens)
        (quarter (90 * 24 * hour)) = [] :=
  ⟨ingested_stored fiveTokens, ingested_filled fiveTokens,
    ⟨firstDay_unscoped, by decide +kernel, List.isEmpty_iff.mp (by decide +kernel)⟩,
    quarter_unscoped _, by decide +kernel, List.isEmpty_iff.mp (by decide +kernel)⟩

end Tracium.Query
