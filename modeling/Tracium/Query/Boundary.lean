import Tracium.Query.Reads

/-! The read-side access boundary: what a caller is answered depends on the rows of their
own workspaces only. -/
namespace Tracium.Query

open Go Sql

variable {Row ρ : Type}

/-- The workspace condition with its placeholders filled in. -/
def scopeCond : List Str → Cond Column Value
  | [] => .never
  | [w] => .cmp .workspaceID .eq (.str w)
  | ws => .oneOf .workspaceID (ws.map .str)

/-- Binding by position gives every placeholder what it stands for, and filters every source
to the scope. -/
structure Statement.Delivers (scope : List Str) (q : Statement) : Prop where
  count : q.args.length = (holes q.sql).length
  args : q.args = (holes q.sql).map q.meant.of
  bound : Sql.bind q.args q.sql = some (q.sql.map (Piece.map q.meant.of))
  ids : q.meant.workspaces = scope
  filtered : ∀ table conds, .source table conds ∈ q.sql.map (Piece.map q.meant.of) →
    scopeCond scope ∈ conds

theorem workspaceScope_map (m : Meaning) :
    (workspaceScope m.workspaces).1.map (Cond.map m.of) = [scopeCond m.workspaces] := by
  rcases given : m.workspaces with _ | ⟨w, _ | ⟨w', rest⟩⟩
  · rfl
  · simp [workspaceScope, scopeCond, Cond.map, given]
  · have ids := range_workspaces m.workspaces
    rw [given] at ids
    simp only [workspaceScope, scopeCond, List.map_cons, List.map_nil, Cond.map, List.map_map]
    rw [← List.map_cons, ← List.map_cons, ← ids, ← given]
    rfl

theorem Statement.Scoped.delivers {scope : List Str} {q : Statement} (inScope : q.Scoped scope) :
    q.Delivers scope where
  count := by
    rw [← inScope.bound, List.length_map]
  args := inScope.bound.symm
  bound := by
    rw [← inScope.bound, Sql.bind_map]
  ids := inScope.meant
  filtered := by
    intro table conds member
    obtain ⟨p, p_in, same⟩ := List.mem_map.mp member
    cases p with
    | text | hole => cases same
    | source _ holed =>
      cases same
      have within : (workspaceScope scope).1 ⊆ holed := inScope.within _ p_in
      have mapped : (workspaceScope scope).1.map (Cond.map q.meant.of) = [scopeCond scope] := by
        rw [← inScope.meant, workspaceScope_map]
      have here : scopeCond scope ∈ (workspaceScope scope).1.map (Cond.map q.meant.of) := by
        simp [mapped]
      exact List.map_subset _ within here

/-- The rows of the given workspaces. -/
def Engine.Visible (e : Engine Row ρ) (workspaces : List Str) (row : Row) : Prop :=
  e.reading.get row .workspaceID ∈ workspaces.map Value.str

instance (e : Engine Row ρ) (workspaces : List Str) : DecidablePred (e.Visible workspaces) :=
  fun row => inferInstanceAs (Decidable (e.reading.get row .workspaceID ∈ workspaces.map Value.str))

/-- The stores hold the same rows of these workspaces. -/
def Engine.AgreeOn (e : Engine Row ρ) (workspaces : List Str) (store store' : Tables Row) : Prop :=
  ∀ table, (store table).filter (e.Visible workspaces) = (store' table).filter (e.Visible workspaces)

section Engine

variable (e : Engine Row ρ)

/-- The workspace condition admits the rows of the scope only. -/
theorem scopeCond_visible {scope : List Str} {row : Row}
    (passes : (scopeCond scope).test e.reading row = true) : e.Visible scope row := by
  unfold scopeCond at passes
  split at passes
  next => cases passes
  next w => simpa [Cond.test, Op.holds, Engine.Visible] using passes
  next => simpa [Cond.test, Engine.Visible] using passes

theorem Statement.Delivers.visible {scope : List Str} {q : Statement} (q_ok : q.Delivers scope)
    {table : Table} {conds : List (Cond Column Value)} {row : Row}
    (source : .source table conds ∈ q.sql.map (Piece.map q.meant.of))
    (passes : conds.all (Cond.test e.reading row) = true) : e.Visible scope row :=
  scopeCond_visible e (List.all_eq_true.mp passes _ (q_ok.filtered table conds source))

/-- Stores that agree on the scope give a scoped statement one answer. -/
theorem answer_congr {scope : List Str} {store store' : Tables Row}
    (agree : e.AgreeOn scope store store') {q : Statement} (inScope : q.Scoped scope) :
    e.answer store q = e.answer store' q := by
  have q_ok := inScope.delivers
  simp only [Engine.answer, q_ok.bound]
  refine congrArg e.eval (List.map_congr_left fun p p_in => ?_)
  refine Piece.input_congr e.reading agree p fun table conds is row passes => ?_
  subst is
  exact q_ok.visible e p_in passes

theorem Engine.AgreeOn.mono {scope workspaces : List Str} {store store' : Tables Row}
    (agree : e.AgreeOn workspaces store store') (sub : scope ⊆ workspaces) :
    e.AgreeOn scope store store' := by
  have narrow : ∀ rows : Multiset Row,
      rows.filter (e.Visible scope) = (rows.filter (e.Visible workspaces)).filter (e.Visible scope) := by
    intro rows
    rw [Multiset.filter_filter]
    refine Multiset.filter_congr fun row _ => ?_
    exact ⟨fun seen => ⟨seen, List.map_subset _ sub seen⟩, fun both => both.1⟩
  intro table
  rw [narrow, agree, ← narrow]

/-! Every read asks scoped statements only. -/

@[simp] theorem query_all {P : Statement → Prop} {q : Statement} {next : ρ → Script Statement ρ} :
    (e.query q next).All P ↔ P q ∧ ∀ a, e.failed a = false → (next a).All P := by
  refine and_congr_right fun _ => forall_congr' fun a => ?_
  cases ended : e.failed a with
  | true => simp [ended, Script.All]
  | false => simp [ended]

@[simp] theorem only_all {P : Statement → Prop} {q : Statement} : (e.only q).All P ↔ P q := by
  simp [Engine.only, Script.All]

theorem fill_all {P : Statement → Prop} {rows trends : Statement} (first : P rows)
    (second : P trends) : (e.fill rows trends).All P := by
  refine (query_all e).mpr ⟨first, fun a _ => ?_⟩
  split
  · trivial
  · exact (only_all e).mpr second

section Scripts

variable (date : DateFormat) (f : MetricsFilter) (limit : Int)

theorem listTraces_all (f : TraceFilter) : (e.listTraces f).All (Statement.Scoped f.workspaceIDs) := by
  simp [Engine.listTraces, listTracesTotal_scoped, listTracesPage_scoped]

theorem listSpans_all (traceID : Str) (scope : List Str) :
    (e.listSpans traceID scope).All (Statement.Scoped scope) :=
  (only_all e).mpr (getSpans_scoped traceID scope)

theorem getTrace_all (traceID : Str) (scope : List Str) :
    (e.getTrace traceID scope).All (Statement.Scoped scope) := by
  refine (query_all e).mpr ⟨getTrace_scoped traceID scope, fun a _ => ?_⟩
  split
  · trivial
  · exact listSpans_all e traceID scope

theorem withTools_all (lastTraceID : Str) (scope : List Str) :
    (e.withTools lastTraceID scope).All (Statement.Scoped scope) := by
  unfold Engine.withTools
  split
  · trivial
  · exact listSpans_all e lastTraceID scope

theorem overviewKPIs_all : (e.overviewKPIs date f).All (Statement.Scoped f.workspaceIDs) := by
  unfold Engine.overviewKPIs
  split
  · simp [Engine.kpiWindowRollup, kpiWindowRollup_scoped, costTotalRollup_scoped, Script.All]
  · simp [Engine.kpiWindow, kpiAggregates_scoped, costTotal_scoped, Script.All]

theorem costSeries_all : (e.costSeries date f).All (Statement.Scoped f.workspaceIDs) := by
  unfold Engine.costSeries
  split <;> rw [only_all] <;> split
  · exact overScope_scoped f date _ _ _
  · exact overScope_scoped f date _ _ _
  · exact bucketed_scoped f _ _
  · exact costSeriesReconciled_scoped f

theorem latencySeries_all : (e.latencySeries f).All (Statement.Scoped f.workspaceIDs) := by
  unfold Engine.latencySeries
  split
  · trivial
  · exact (only_all e).mpr (bucketed_scoped f _ _)

theorem errorSeries_all : (e.errorSeries date f).All (Statement.Scoped f.workspaceIDs) := by
  rw [Engine.errorSeries, only_all]
  split
  · exact overScope_scoped f date _ _ _
  · exact bucketed_scoped f _ _

theorem tokenSeries_all : (e.tokenSeries date f).All (Statement.Scoped f.workspaceIDs) := by
  rw [Engine.tokenSeries, only_all]
  split
  · exact overScope_scoped f date _ _ _
  · exact bucketed_scoped f _ _

theorem topWorkflows_all : (e.topWorkflows date f limit).All (Statement.Scoped f.workspaceIDs) := by
  unfold Engine.topWorkflows
  split
  · exact fill_all e (ranked_scoped f limit date _ _ _ rfl) (dailyTrends_scoped f date _ _)
  · exact fill_all e (topWorkflows_scoped f limit) (workflowTrends_scoped f)

theorem listWorkflows_all : (e.listWorkflows date f limit).All (Statement.Scoped f.workspaceIDs) := by
  unfold Engine.listWorkflows
  split
  · exact fill_all e (ranked_scoped f limit date _ _ _ rfl) (dailyTrends_scoped f date _ _)
  · exact (only_all e).mpr (listWorkflows_scoped f limit)

theorem workflowDetail_all : (e.workflowDetail date f).All (Statement.Scoped f.workspaceIDs) := by
  unfold Engine.workflowDetail
  split
  · refine (query_all e).mpr ⟨workflowDetailRollup_scoped f date, fun a _ => ?_⟩
    split
    · trivial
    · refine (query_all e).mpr ⟨workflowDetailLastRun_scoped f, fun last _ => ?_⟩
      exact withTools_all e _ f.workspaceIDs
  · refine (query_all e).mpr ⟨workflowDetail_scoped f, fun a _ => ?_⟩
    split
    · trivial
    · exact withTools_all e _ f.workspaceIDs

theorem failures_all : (e.failures date f limit).All (Statement.Scoped f.workspaceIDs) := by
  unfold Engine.failures
  split
  · refine (query_all e).mpr ⟨ranked_scoped f limit date _ _ _ rfl, fun _ _ => ?_⟩
    exact (only_all e).mpr (dailyTrends_scoped f date _ _)
  · refine (query_all e).mpr ⟨failures_scoped f limit, fun _ _ => ?_⟩
    exact (only_all e).mpr (failuresTotal_scoped f)

theorem modelCosts_all : (e.modelCosts date f limit).All (Statement.Scoped f.workspaceIDs) := by
  rw [Engine.modelCosts, only_all]
  split
  · exact ranked_scoped f limit date _ _ _ rfl
  · exact modelCosts_scoped f limit

theorem userUsage_all : (e.userUsage date f limit).All (Statement.Scoped f.workspaceIDs) := by
  unfold Engine.userUsage
  split
  · exact fill_all e (usageRollup_scoped f limit date _ _) (dailyTrends_scoped f date _ _)
  · exact fill_all e (userUsage_scoped f limit) (userTrends_scoped f)

theorem workflowUsage_all : (e.workflowUsage date f limit).All (Statement.Scoped f.workspaceIDs) := by
  unfold Engine.workflowUsage
  split
  · exact fill_all e (usageRollup_scoped f limit date _ _) (fillWorkflowModels_scoped f date)
  · exact (only_all e).mpr (workflowUsage_scoped f limit)

theorem workflowVersions_all :
    (e.workflowVersions date f limit).All (Statement.Scoped f.workspaceIDs) := by
  rw [Engine.workflowVersions, only_all]
  split
  · exact workflowVersionsRollup_scoped f limit date
  · exact workflowVersions_scoped f limit

end Scripts

theorem Read.script_all (date : DateFormat) (scope : List Str) (read : Read) :
    (read.script e date scope).All (Statement.Scoped scope) := by
  cases read with
  | listTraces f => exact listTraces_all e { f with workspaceIDs := scope }
  | getTrace traceID => exact getTrace_all e traceID scope
  | listSpans traceID => exact listSpans_all e traceID scope
  | overviewKPIs f => exact overviewKPIs_all e date (f.within scope)
  | costSeries f => exact costSeries_all e date (f.within scope)
  | latencySeries f => exact latencySeries_all e (f.within scope)
  | errorSeries f => exact errorSeries_all e date (f.within scope)
  | tokenSeries f => exact tokenSeries_all e date (f.within scope)
  | topWorkflows f limit => exact topWorkflows_all e date (f.within scope) limit
  | listWorkflows f limit => exact listWorkflows_all e date (f.within scope) limit
  | workflowDetail f => exact workflowDetail_all e date (f.within scope)
  | failures f limit => exact failures_all e date (f.within scope) limit
  | modelCosts f limit => exact modelCosts_all e date (f.within scope) limit
  | userUsage f limit => exact userUsage_all e date (f.within scope) limit
  | workflowUsage f limit => exact workflowUsage_all e date (f.within scope) limit
  | workflowVersions f limit => exact workflowVersions_all e date (f.within scope) limit
  | attributeKeys f limit => exact (only_all e).mpr (attributeKeys_scoped (f.within scope) limit)
  | usageByAttribute f key limit =>
    exact (only_all e).mpr (usageByAttribute_scoped (f.within scope) limit key)

/-! The boundary. -/

/-- A scope never reaches beyond the caller's workspaces. -/
theorem resolveWorkspaceScope_subset {allowedIDs : Str → Option (List Str)} {userID requested : Str}
    {allowed scope : List Str} (memberships : allowedIDs userID = some allowed)
    (resolved : resolveWorkspaceScope allowedIDs (some userID) requested = .ok scope) :
    scope ⊆ allowed := by
  simp only [resolveWorkspaceScope, memberships] at resolved
  split_ifs at resolved with anonymous all member
  · cases resolved
    exact fun _ w_in => w_in
  · cases resolved
    simpa using member

/-- A filter on no workspaces leaves no rows. -/
theorem Statement.Delivers.input_nil {q : Statement} (q_ok : q.Delivers []) {store : Tables Row}
    {p : Piece Table Column Value} (p_in : p ∈ q.sql.map (Piece.map q.meant.of)) {table : Table}
    {rows : Multiset Row} (seen : p.input e.reading store = .rows table rows) : rows = 0 := by
  cases p with
  | text | hole => cases seen
  | source table conds =>
    cases seen
    refine Multiset.filter_eq_nil.mpr fun row _ passes => ?_
    have visible : e.Visible [] row := q_ok.visible e p_in passes
    cases visible

theorem serve_congr (date : DateFormat) {allowedIDs : Str → Option (List Str)} {userID : Str}
    {allowed : List Str} (memberships : allowedIDs userID = some allowed) (requested : Str)
    (read : Read) {store store' : Tables Row} (agree : e.AgreeOn allowed store store') :
    serve e date store allowedIDs (some userID) requested read =
      serve e date store' allowedIDs (some userID) requested read := by
  unfold serve
  cases resolved : resolveWorkspaceScope allowedIDs (some userID) requested with
  | error => rfl
  | ok scope =>
    have narrow := agree.mono e (resolveWorkspaceScope_subset memberships resolved)
    exact congrArg Except.ok
      (Script.transcript_congr (fun q inScope => answer_congr e narrow inScope) _
        (read.script_all e date scope))

end Engine

/-- Two stores that agree on the rows of the caller's workspaces answer every read alike.
Every statement sent binds each placeholder to the argument meant for it and every source to
exactly the resolved workspaces, which are the caller's; a caller with none sees no row. -/
theorem reads_isolated (e : Engine Row ρ) (date : DateFormat)
    (allowedIDs : Str → Option (List Str)) (userID : Str) (allowed : List Str)
    (memberships : allowedIDs userID = some allowed) (requested : Str) (read : Read)
    (store store' : Tables Row) (agree : e.AgreeOn allowed store store') :
    serve e date store allowedIDs (some userID) requested read =
      serve e date store' allowedIDs (some userID) requested read ∧
    (∀ transcript, serve e date store allowedIDs (some userID) requested read = .ok transcript →
      ∃ scope, resolveWorkspaceScope allowedIDs (some userID) requested = .ok scope ∧
        scope ⊆ allowed ∧ ∀ asked ∈ transcript, asked.1.Delivers scope) ∧
    (allowed = [] →
      serve e date store allowedIDs (some userID) requested read =
        serve e date (fun _ => 0) allowedIDs (some userID) requested read ∧
      ∀ transcript, serve e date store allowedIDs (some userID) requested read = .ok transcript →
        ∀ asked ∈ transcript, ∀ p ∈ asked.1.sql.map (Piece.map asked.1.meant.of),
          ∀ table rows, p.input e.reading store = .rows table rows → rows = 0) := by
  have delivered : ∀ transcript,
      serve e date store allowedIDs (some userID) requested read = .ok transcript →
      ∃ scope, resolveWorkspaceScope allowedIDs (some userID) requested = .ok scope ∧
        scope ⊆ allowed ∧ ∀ asked ∈ transcript, asked.1.Delivers scope := by
    intro transcript served
    unfold serve at served
    cases resolved : resolveWorkspaceScope allowedIDs (some userID) requested with
    | error refusal =>
      rw [resolved] at served
      cases served
    | ok scope =>
      rw [resolved] at served
      cases served
      refine ⟨scope, rfl, resolveWorkspaceScope_subset memberships resolved, ?_⟩
      intro asked member
      exact (Script.asked _ (read.script_all e date scope) asked member).delivers
  refine ⟨serve_congr e date memberships requested read agree, delivered, ?_⟩
  intro none
  subst none
  refine ⟨serve_congr e date memberships requested read fun table => ?_, ?_⟩
  · simp [Engine.Visible]
  · intro transcript served asked member p p_in table rows seen
    obtain ⟨scope, _, within, delivers⟩ := delivered transcript served
    obtain rfl := List.subset_nil.mp within
    exact (delivers asked member).input_nil e p_in seen

/-! A caller of `ours` and a row that another workspace gains. -/

/-- Rows are a workspace and a start time; an answer is the number of rows that came through. -/
def counting : Engine (Str × Int) Nat where
  reading :=
    { get := fun row column => match column with
        | .workspaceID => .str row.1
        | .startTimeMs => .int row.2
        | _ => .str []
      le := fun a b => match a, b with
        | .int a, .int b => decide (a ≤ b)
        | _, _ => false
      other := fun _ _ _ => true }
  eval := fun inputs => (inputs.map fun input => match input with
    | .rows _ rows => rows.card
    | _ => 0).sum
  badArgs := 0
  failed := fun _ => false
  isEmpty := fun a => a == 0
  noCalls := fun a => a == 0
  lastTraceID := fun _ => []

def ourRows (theirs : List (Str × Int)) : Tables (Str × Int)
  | .calls => ([(lit "ours", 5), (lit "theirs", 6)] ++ theirs : List (Str × Int))
  | _ => 0

def recentTraces : TraceFilter where
  userID := []
  workspaceIDs := []
  model := lit "gpt"
  workflow := []
  version := []
  hasError := some true
  startAfter := 0
  startBefore := none
  page := 1
  pageSize := 20

theorem reads_isolated_foreignRow :
    ourRows [] ≠ ourRows [(lit "theirs", 7)] ∧
    (serve counting (fun _ => []) (ourRows []) (fun _ => some [lit "ours"]) (some (lit "u")) []
        (.listTraces recentTraces)).map (·.map Prod.snd) = .ok [1, 1] ∧
    serve counting (fun _ => []) (ourRows []) (fun _ => some [lit "ours"]) (some (lit "u")) []
        (.listTraces recentTraces) =
      serve counting (fun _ => []) (ourRows [(lit "theirs", 7)]) (fun _ => some [lit "ours"])
        (some (lit "u")) [] (.listTraces recentTraces) := by
  refine ⟨?_, rfl, ?_⟩
  · intro same
    have cards := congrArg (fun store => (store .calls).card) same
    cases cards
  · refine (reads_isolated counting (fun _ => []) (fun _ => some [lit "ours"]) (lit "u") [lit "ours"] rfl []
      (.listTraces recentTraces) _ _ fun table => ?_).1
    cases table <;> rfl

end Tracium.Query
