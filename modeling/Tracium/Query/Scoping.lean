import Tracium.Query.Rollups

/-! Every statement binds its placeholders to the arguments meant for them and filters each
of its sources to the workspace scope. -/
namespace Tracium.Query

open Go Sql

/-- The arguments are those meant for the placeholders, in textual order. -/
def Statement.Bound (q : Statement) : Prop := (holes q.sql).map q.meant.of = q.args

/-- A source carries the workspace scope. -/
def SourceWithin (workspaces : List Str) : Piece Table Column Role → Prop
  | .source _ conds => (workspaceScope workspaces).1 ⊆ conds
  | _ => True

structure Statement.Scoped (workspaces : List Str) (q : Statement) : Prop where
  bound : q.Bound
  meant : q.meant.workspaces = workspaces
  within : ∀ p ∈ q.sql, SourceWithin workspaces p

theorem Statement.scoped_iff {workspaces : List Str} {q : Statement} :
    q.Scoped workspaces ↔ (holes q.sql).map q.meant.of = q.args ∧
      q.meant.workspaces = workspaces ∧ ∀ p ∈ q.sql, SourceWithin workspaces p :=
  ⟨fun ⟨bound, meant, within⟩ => ⟨bound, meant, within⟩,
    fun ⟨bound, meant, within⟩ => ⟨bound, meant, within⟩⟩

attribute [simp] Cond.holes Piece.holes Meaning.of SourceWithin MetricsFilter.over
  MetricsFilter.overCurrent MetricsFilter.overBoth MetricsFilter.bucketArg
  MetricsFilter.overDays MetricsFilter.overCurrentDays

/-! The shared clauses. -/

theorem range_workspaces (workspaces : List Str) :
    (List.range workspaces.length).map (fun i => Value.str (workspaces.getD i [])) =
      workspaces.map .str := by
  apply List.ext_getElem
  · simp
  · intro i h _
    simp only [List.length_map, List.length_range] at h
    simp [h]

theorem workspaceScope_bound (m : Meaning) :
    (condHoles (workspaceScope m.workspaces).1).map m.of = (workspaceScope m.workspaces).2 := by
  unfold workspaceScope
  split
  next => rfl
  next w one => simp [one]
  next =>
    simp only [condHoles_cons, Cond.holes, condHoles_nil, List.append_nil, List.map_map]
    exact range_workspaces m.workspaces

theorem withUserAndScope_bound {range : Clause × List Value} {user : Str} {workspaces : List Str}
    (m : Meaning) (bounds : (condHoles range.1).map m.of = range.2) (sameUser : m.user = user)
    (same : m.workspaces = workspaces) :
    (condHoles (withUserAndScope range user workspaces).1).map m.of =
      (withUserAndScope range user workspaces).2 := by
  subst sameUser same
  by_cases anyone : m.user = []
  · simp [withUserAndScope, anyone, bounds, workspaceScope_bound]
  · simp [withUserAndScope, anyone, bounds, workspaceScope_bound]

@[simp] theorem withUserAndScope_within (range : Clause × List Value) (user : Str)
    (workspaces : List Str) :
    (workspaceScope workspaces).1 ⊆ (withUserAndScope range user workspaces).1 :=
  List.subset_append_right _ _

section Windows

variable {user : Str} {workspaces : List Str} {lo hi : Int} (m : Meaning)

theorem window_bound (lower : m.lower = .int lo) (upper : m.upper = .int hi)
    (sameUser : m.user = user) (same : m.workspaces = workspaces) :
    (condHoles (window user workspaces lo hi).1).map m.of = (window user workspaces lo hi).2 :=
  withUserAndScope_bound m (by simp [lower, upper]) sameUser same

@[simp] theorem window_within :
    (workspaceScope workspaces).1 ⊆ (window user workspaces lo hi).1 :=
  withUserAndScope_within _ user workspaces

theorem rollupWindow_bound (date : DateFormat) (inclusive : Bool)
    (lower : m.lower = .str (date lo)) (upper : m.upper = .str (date hi))
    (sameUser : m.user = user) (same : m.workspaces = workspaces) :
    (condHoles (rollupWindow date user workspaces lo hi inclusive).1).map m.of =
      (rollupWindow date user workspaces lo hi inclusive).2 :=
  withUserAndScope_bound m (by simp [lower, upper]) sameUser same

@[simp] theorem rollupWindow_within (date : DateFormat) (inclusive : Bool) :
    (workspaceScope workspaces).1 ⊆ (rollupWindow date user workspaces lo hi inclusive).1 :=
  withUserAndScope_within _ user workspaces

end Windows

/-- A joined conjunction has its parts' placeholders. -/
theorem joinAnd_holes (parts : List Text) : holes (joinAnd parts) = parts.flatMap holes := by
  fun_induction joinAnd parts with
  | case1 => rfl
  | case2 => simp
  | case3 c rest _ ih => simp [ih]

/-- A part of a joined conjunction is text or comes from one of them. -/
theorem joinAnd_within {workspaces : List Str} {parts : List Text}
    (each : ∀ t ∈ parts, ∀ p ∈ t, SourceWithin workspaces p) :
    ∀ p ∈ joinAnd parts, SourceWithin workspaces p := by
  fun_induction joinAnd parts with
  | case1 => simp
  | case2 c => exact each c (by simp)
  | case3 c rest _ ih =>
    intro p member
    rcases List.mem_append.mp member with first | later
    · exact each c (by simp) p first
    · rcases List.mem_cons.mp later with rfl | later
      · trivial
      · exact ih (fun t t_in => each t (List.mem_cons_of_mem _ t_in)) p later

section Conjunctions

variable {m : Meaning} {word : String} {conds : List (Text × Value)}

/-- Conditions that each bind their own argument bind theirs in order after a keyword. -/
theorem conjunction_bound (each : ∀ c ∈ conds, (holes c.1).map m.of = [c.2]) :
    (holes (if conds.isEmpty then ([] : Text) else .text word :: joinAnd (conds.map Prod.fst))).map m.of =
      conds.map Prod.snd := by
  have joined : (holes (joinAnd (conds.map Prod.fst))).map m.of = conds.map Prod.snd := by
    rw [joinAnd_holes]
    induction conds with
    | nil => rfl
    | cons c conds ih =>
      simp only [List.map_cons, List.flatMap_cons, List.map_append]
      rw [each c List.mem_cons_self, ih fun d d_in => each d (List.mem_cons_of_mem _ d_in)]
      rfl
  cases conds with
  | nil => rfl
  | cons c conds => simpa using joined

theorem conjunction_within {workspaces : List Str}
    (each : ∀ c ∈ conds, ∀ p ∈ c.1, SourceWithin workspaces p) :
    ∀ p ∈ (if conds.isEmpty then ([] : Text) else .text word :: joinAnd (conds.map Prod.fst)),
      SourceWithin workspaces p := by
  split
  · simp
  · intro p member
    rcases List.mem_cons.mp member with rfl | later
    · trivial
    · refine joinAnd_within (fun t t_in => ?_) p later
      obtain ⟨c, c_in, rfl⟩ := List.mem_map.mp t_in
      exact each c c_in

end Conjunctions

/-! Traces. -/

theorem having_bound (f : TraceFilter) :
    ∀ c ∈ f.having, (holes c.1).map f.meaning.of = [c.2] := by
  intro c member
  simp only [TraceFilter.having, List.mem_append] at member
  rcases member with ((model | workflow) | version) | errored
  · split at model <;> simp_all [TraceFilter.meaning]
  · split at workflow <;> simp_all [TraceFilter.meaning]
  · split at version <;> simp_all [TraceFilter.meaning]
  · split at errored <;> simp_all [TraceFilter.meaning]

theorem having_within (f : TraceFilter) (workspaces : List Str) :
    ∀ c ∈ f.having, ∀ p ∈ c.1, SourceWithin workspaces p := by
  intro c member
  simp only [TraceFilter.having, List.mem_append] at member
  rcases member with ((model | workflow) | version) | errored
  · split at model <;> simp_all
  · split at workflow <;> simp_all
  · split at version <;> simp_all
  · split at errored <;> simp_all

theorem range_bound (f : TraceFilter) : (condHoles f.range.1).map f.meaning.of = f.range.2 := by
  unfold TraceFilter.range
  split
  next => simp [TraceFilter.meaning]
  next before bounded => simp [TraceFilter.meaning, bounded]

theorem traceFilterSQL_bound (f : TraceFilter) :
    (holes (traceFilterSQL f).1).map f.meaning.of = (traceFilterSQL f).2 := by
  have where' : (condHoles (withUserAndScope f.range f.userID f.workspaceIDs).1).map f.meaning.of =
      (withUserAndScope f.range f.userID f.workspaceIDs).2 :=
    withUserAndScope_bound f.meaning (range_bound f) rfl rfl
  simp only [traceFilterSQL, holes_cons, Piece.holes, List.map_append, List.nil_append,
    conjunction_bound (having_bound f), where']

theorem traceFilterSQL_within (f : TraceFilter) :
    ∀ p ∈ (traceFilterSQL f).1, SourceWithin f.workspaceIDs p := by
  intro p member
  simp only [traceFilterSQL, List.mem_cons] at member
  rcases member with rfl | rfl | tail
  · exact withUserAndScope_within f.range f.userID f.workspaceIDs
  · trivial
  · exact conjunction_within (having_within f f.workspaceIDs) p tail

theorem listTracesTotal_scoped (f : TraceFilter) : (listTracesTotal f).Scoped f.workspaceIDs := by
  refine Statement.scoped_iff.mpr ⟨?_, rfl, ?_⟩
  · simp [listTracesTotal, traceFilterSQL_bound]
  · simpa [listTracesTotal, or_imp, forall_and] using traceFilterSQL_within f

theorem listTracesPage_scoped (f : TraceFilter) : (listTracesPage f).Scoped f.workspaceIDs := by
  refine Statement.scoped_iff.mpr ⟨?_, rfl, ?_⟩
  · have limit : f.meaning.limit = f.pageSize := rfl
    have offset : f.meaning.offset = f.offset := rfl
    simp [listTracesPage, traceFilterSQL_bound, limit, offset]
  · simpa [listTracesPage, or_imp, forall_and] using traceFilterSQL_within f

theorem traceDetailScope_bound (traceID : Str) (workspaceIDs : List Str) :
    (condHoles (traceDetailScope traceID workspaceIDs).1).map
        (Meaning.of { workspaces := workspaceIDs, trace := traceID }) =
      (traceDetailScope traceID workspaceIDs).2 := by
  simp [traceDetailScope,
    workspaceScope_bound { workspaces := workspaceIDs, trace := traceID }]

@[simp] theorem traceDetailScope_within (traceID : Str) (workspaceIDs : List Str) :
    (workspaceScope workspaceIDs).1 ⊆ (traceDetailScope traceID workspaceIDs).1 :=
  List.subset_cons_self _ _

theorem getTrace_scoped (traceID : Str) (workspaceIDs : List Str) :
    (getTraceStatement traceID workspaceIDs).Scoped workspaceIDs := by
  simp [Statement.scoped_iff, getTraceStatement, traceDetailScope_bound]

theorem getSpans_scoped (traceID : Str) (workspaceIDs : List Str) :
    (getSpansStatement traceID workspaceIDs).Scoped workspaceIDs := by
  -- The long texts are not joined: no literal of theirs matters here.
  simp [-String.reduceAppend, Statement.scoped_iff, getSpansStatement, traceDetailScope_bound]

/-! Metrics over raw spans. -/

section Metrics

variable (f : MetricsFilter) (limit : Int)

theorem traceScope_bound (m : Meaning) (workflow : m.workflow = f.workflow)
    (version : m.version = f.version) :
    (holes (traceScope f).2.1).map m.of = (traceScope f).2.2 := by
  refine conjunction_bound fun c member => ?_
  rcases List.mem_append.mp member with named | versioned
  · split at named <;> simp_all
  · split at versioned <;> simp_all

theorem traceScope_within (workspaces : List Str) :
    ∀ p ∈ (traceScope f).2.1, SourceWithin workspaces p := by
  refine conjunction_within fun c member => ?_
  rcases List.mem_append.mp member with named | versioned
  · split at named <;> simp_all
  · split at versioned <;> simp_all

theorem current_bound (m : Meaning) (lower : m.lower = .int (unixMilli f.start))
    (upper : m.upper = .int (unixMilli f.end')) (sameUser : m.user = f.userID)
    (same : m.workspaces = f.workspaceIDs) : (condHoles f.current.1).map m.of = f.current.2 :=
  window_bound m lower upper sameUser same

@[simp] theorem current_within : (workspaceScope f.workspaceIDs).1 ⊆ f.current.1 := window_within

theorem both_bound (m : Meaning) (lower : m.lower = .int (unixMilli f.prevStart))
    (upper : m.upper = .int (unixMilli f.end')) (sameUser : m.user = f.userID)
    (same : m.workspaces = f.workspaceIDs) : (condHoles f.both.1).map m.of = f.both.2 :=
  window_bound m lower upper sameUser same

@[simp] theorem both_within : (workspaceScope f.workspaceIDs).1 ⊆ f.both.1 := window_within

theorem costTotal_scoped (lo hi : Int) : (costTotalStatement f lo hi).Scoped f.workspaceIDs := by
  simp [Statement.scoped_iff, costTotalStatement, reconciledCostUnionSQL, window_bound]

theorem kpiAggregates_scoped (lo hi : Int) : (kpiAggregates f lo hi).Scoped f.workspaceIDs := by
  simp [Statement.scoped_iff, kpiAggregates, window_bound]

theorem bucketed_scoped (head middle : String) : (bucketed f head middle).Scoped f.workspaceIDs := by
  refine Statement.scoped_iff.mpr ⟨?_, rfl, ?_⟩
  · simp [bucketed, current_bound, traceScope_bound]
  · simpa [bucketed, or_imp, forall_and] using traceScope_within f f.workspaceIDs

theorem costSeriesReconciled_scoped : (costSeriesReconciled f).Scoped f.workspaceIDs := by
  simp [Statement.scoped_iff, costSeriesReconciled, reconciledCostUnionSQL, current_bound]

theorem topWorkflows_scoped : (topWorkflowsStatement f limit).Scoped f.workspaceIDs := by
  simp [Statement.scoped_iff, topWorkflowsStatement, current_bound]

theorem workflowTrends_scoped : (workflowTrends f).Scoped f.workspaceIDs := by
  simp [Statement.scoped_iff, workflowTrends, current_bound]

/-- The snapped window keeps the scope. -/
theorem listWorkflows_scoped : (listWorkflowsStatement f limit).Scoped f.workspaceIDs := by
  have same : (snapWindow f workflowsCacheGrid).workspaceIDs = f.workspaceIDs := rfl
  rw [← same]
  simp [-String.reduceAppend, Statement.scoped_iff, listWorkflowsStatement, current_bound]

theorem workflowDetail_scoped : (workflowDetailStatement f).Scoped f.workspaceIDs := by
  simp [-String.reduceAppend, Statement.scoped_iff, workflowDetailStatement, current_bound]

theorem failures_scoped : (failuresStatement f limit).Scoped f.workspaceIDs := by
  simp [Statement.scoped_iff, failuresStatement, current_bound]

theorem failuresTotal_scoped : (failuresTotal f).Scoped f.workspaceIDs := by
  simp [Statement.scoped_iff, failuresTotal, current_bound]

theorem modelCosts_scoped : (modelCostsStatement f limit).Scoped f.workspaceIDs := by
  simp [Statement.scoped_iff, modelCostsStatement, current_bound,
    List.subset_append_of_subset_left]

theorem userUsage_scoped : (userUsageStatement f limit).Scoped f.workspaceIDs := by
  simp [Statement.scoped_iff, userUsageStatement, splitAtCutoff, both_bound]

theorem userTrends_scoped : (userTrends f).Scoped f.workspaceIDs := by
  simp [Statement.scoped_iff, userTrends, current_bound]

theorem workflowUsage_scoped : (workflowUsageStatement f limit).Scoped f.workspaceIDs := by
  simp [Statement.scoped_iff, workflowUsageStatement, splitAtCutoff, both_bound]

theorem workflowVersions_scoped : (workflowVersionsStatement f limit).Scoped f.workspaceIDs := by
  simp [Statement.scoped_iff, workflowVersionsStatement, current_bound]

theorem attributeKeys_scoped : (attributeKeysStatement f limit).Scoped f.workspaceIDs := by
  simp [Statement.scoped_iff, attributeKeysStatement, current_bound]

theorem usageByAttribute_scoped (key : Str) :
    (usageByAttributeStatement f key limit).Scoped f.workspaceIDs := by
  simp [Statement.scoped_iff, usageByAttributeStatement, current_bound,
    List.subset_append_of_subset_left]

/-! Metrics over the daily rollups. -/

variable (date : DateFormat)

theorem days_bound (m : Meaning) (lower : m.lower = .str (date f.start))
    (upper : m.upper = .str (date f.end')) (sameUser : m.user = f.userID)
    (same : m.workspaces = f.workspaceIDs) :
    (condHoles (f.days date).1).map m.of = (f.days date).2 :=
  rollupWindow_bound m date true lower upper sameUser same

@[simp] theorem days_within : (workspaceScope f.workspaceIDs).1 ⊆ (f.days date).1 :=
  rollupWindow_within date true

theorem rollupScope_bound :
    (condHoles (rollupScope date f).1).map (f.overCurrentDays date).of = (rollupScope date f).2 := by
  by_cases workflow : f.workflow = [] <;> by_cases version : f.version = [] <;>
    simp [rollupScope, workflow, version, days_bound]

@[simp] theorem rollupScope_within :
    (workspaceScope f.workspaceIDs).1 ⊆ (rollupScope date f).1 := by
  by_cases workflow : f.workflow = [] <;> by_cases version : f.version = [] <;>
    simp [rollupScope, workflow, version, List.subset_append_of_subset_left]

theorem overScope_scoped (table : Table) (head tail : String) :
    (overScope date f table head tail).Scoped f.workspaceIDs := by
  refine Statement.scoped_iff.mpr ⟨?_, rfl, ?_⟩
  · simpa [overScope] using rollupScope_bound f date
  · simp [overScope]

theorem workflowDetailRollup_scoped : (workflowDetailRollupSQL date f).Scoped f.workspaceIDs := by
  refine Statement.scoped_iff.mpr ⟨?_, rfl, ?_⟩
  · simpa [workflowDetailRollupSQL] using rollupScope_bound f date
  · simp [workflowDetailRollupSQL]

theorem workflowDetailLastRun_scoped : (workflowDetailLastRun f).Scoped f.workspaceIDs := by
  simp [Statement.scoped_iff, workflowDetailLastRun, window_bound,
    List.subset_append_of_subset_left]

theorem costTotalRollup_scoped (lo hi : Int) (inclusive : Bool) :
    (costTotalRollupSQL date f lo hi inclusive).Scoped f.workspaceIDs := by
  simp [Statement.scoped_iff, costTotalRollupSQL, rollupWindow_bound]

theorem kpiWindowRollup_scoped (lo hi : Int) (inclusive : Bool) :
    (kpiWindowRollupSQL date f lo hi inclusive).Scoped f.workspaceIDs := by
  simp [Statement.scoped_iff, kpiWindowRollupSQL, rollupWindow_bound]

theorem ranked_scoped (head tail : String) (extra : Clause) (bare : condHoles extra = []) :
    (ranked date f limit head extra tail).Scoped f.workspaceIDs := by
  simp [Statement.scoped_iff, ranked, bare, days_bound, List.subset_append_of_subset_left]

theorem dailyTrends_scoped (head tail : String) :
    (dailyTrends date f head tail).Scoped f.workspaceIDs := by
  simp [Statement.scoped_iff, dailyTrends, days_bound]

theorem usageRollup_scoped (key tail : String) :
    (usageRollup date f limit key tail).Scoped f.workspaceIDs := by
  simp [Statement.scoped_iff, usageRollup, MetricsFilter.bothDays, rollupWindow_bound]

theorem fillWorkflowModels_scoped : (fillWorkflowModels date f).Scoped f.workspaceIDs := by
  simp [Statement.scoped_iff, fillWorkflowModels, days_bound, List.subset_append_of_subset_left]

theorem workflowVersionsRollup_scoped :
    (workflowVersionsRollupSQL date f limit).Scoped f.workspaceIDs := by
  simp [Statement.scoped_iff, workflowVersionsRollupSQL, days_bound,
    List.subset_append_of_subset_left]

end Metrics

end Tracium.Query
