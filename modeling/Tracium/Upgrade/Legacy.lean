import Mathlib.Algebra.Order.Group.Multiset
import Tracium.Upgrade.Runner

/-! The upgrade of a release without workspaces. The old rollup is kept aside before the new
one is filled from it, and the workspace that gets the telemetry is recorded first, so an
attempt may die anywhere and be tried again. -/
namespace Tracium.Upgrade

open Go Scripts

variable {R G : Type} {spans : List (SpanRow R)} {rollup : Multiset (RollupRow G)} {workspace : Str}

def legacyColumns : Columns := ⟨.tenantID, .agentName, false, false⟩

/-- What a script does not touch while 009 and later are still to come. -/
structure Before009 (db : Database R G) : Prop where
  ledger : db.ledger = files.take 3
  calls : db.calls = none
  usageMetrics : db.usageMetrics = none
  preWorkflowRename : db.preWorkflowRename = none
  preVersion : db.preVersion = none

/-- As the previous release left it. -/
structure Untouched (spans : List (SpanRow R)) (rollup : Multiset (RollupRow G)) (db : Database R G) : Prop
    extends Before009 db where
  state : db.upgradeState = none
  spans : db.spans = some ⟨legacyColumns, spans⟩
  metricsDaily : db.metricsDaily = some ⟨legacyColumns, rollup⟩
  preWorkspace : db.preWorkspace = none

/-- An upgrade to the workspace has begun. -/
structure Begun (spans : List (SpanRow R)) (rollup : Multiset (RollupRow G)) (workspace : Str)
    (db : Database R G) : Prop extends Before009 db where
  named : workspace ≠ []
  state : db.upgradeState = some workspace
  spans : ∃ columns rows, db.spans = some ⟨columns, rows⟩ ∧
    List.Forall₂ (fun r r' => r' = r ∨ r' = r.assign workspace) spans rows
  rollup : db.metricsDaily = some ⟨legacyColumns, rollup⟩ ∧ db.preWorkspace = none ∨
    db.preWorkspace = some ⟨legacyColumns, rollup⟩ ∧ ∀ t ∈ db.metricsDaily, t.columns = currentColumns

def Converting (spans : List (SpanRow R)) (rollup : Multiset (RollupRow G)) (db : Database R G) : Prop :=
  Untouched spans rollup db ∨ ∃ workspace, Begun spans rollup workspace db

/-- All legacy telemetry belongs to the workspace, each row once. -/
structure Converted (spans : List (SpanRow R)) (rollup : Multiset (RollupRow G)) (workspace : Str)
    (db : Database R G) : Prop where
  named : workspace ≠ []
  state : db.upgradeState = some workspace
  spans : db.spans = some ⟨currentColumns, spans.map (SpanRow.assign workspace)⟩
  metricsDaily : db.metricsDaily = some ⟨currentColumns, rollup.map (RollupRow.ofLegacy workspace)⟩
  preWorkspace : db.preWorkspace = some ⟨legacyColumns, rollup⟩
  preWorkflowRename : db.preWorkflowRename = none
  preVersion : db.preVersion = none
  metricsDailyMV : db.metricsDailyMV = some currentColumns

/-- The settings suit the database: ingestion is paused and the workspace named is one that
exists, and the one of earlier attempts. -/
structure Suits (settings : Settings) (db : Database R G) : Prop where
  paused : settings.ingestionPaused = true
  valid : validWorkspaceID settings.workspaceID = true
  listed : db.workspaces.contains settings.workspaceID = true
  same : ∀ w ∈ db.upgradeState, w = settings.workspaceID

theorem SpanRow.assign_assign (r : SpanRow R) : (r.assign workspace).assign workspace = r.assign workspace := by
  by_cases empty : r.workspaceID = [] <;> simp [SpanRow.assign, empty]

theorem assign_partly {rows : List (SpanRow R)}
    (partly : List.Forall₂ (fun r r' => r' = r ∨ r' = r.assign workspace) spans rows) :
    rows.map (SpanRow.assign workspace) = spans.map (SpanRow.assign workspace) := by
  induction partly with
  | nil => rfl
  | cons own _ ih =>
    rw [List.map_cons, List.map_cons, ih]
    rcases own with rfl | rfl
    · rfl
    · rw [SpanRow.assign_assign]

theorem partly_trans {rows rows' : List (SpanRow R)}
    (partly : List.Forall₂ (fun r r' => r' = r ∨ r' = r.assign workspace) spans rows)
    (more : List.Forall₂ (fun r r' => r' = r ∨ r' = r.assign workspace) rows rows') :
    List.Forall₂ (fun r r' => r' = r ∨ r' = r.assign workspace) spans rows' := by
  induction partly generalizing rows' with
  | nil =>
    cases more
    exact .nil
  | cons own _ ih =>
    cases more with
    | cons next rest =>
      refine .cons ?_ (ih rest)
      rcases next with rfl | rfl
      · exact own
      · rcases own with rfl | rfl
        · exact .inr rfl
        · exact .inr (SpanRow.assign_assign _)

theorem partly_refl (rows : List (SpanRow R)) :
    List.Forall₂ (fun r r' => r' = r ∨ r' = r.assign workspace) rows rows :=
  List.forall₂_same.mpr fun _ _ => .inl rfl

theorem partly_map (rows : List (SpanRow R)) :
    List.Forall₂ (fun r r' => r' = r ∨ r' = r.assign workspace) rows (rows.map (SpanRow.assign workspace)) := by
  induction rows with
  | nil => exact .nil
  | cons r rows ih => exact .cons (.inr rfl) ih

theorem validWorkspaceID_ne {id : Str} (valid : validWorkspaceID id = true) : id ≠ [] := by
  rintro rfl
  revert valid
  decide

/-- Once the old rollup is kept aside. -/
structure Ready (spans : List (SpanRow R)) (rollup : Multiset (RollupRow G)) (workspace : Str)
    (db : Database R G) : Prop extends Before009 db where
  named : workspace ≠ []
  state : db.upgradeState = some workspace
  spans : db.spans = some ⟨currentColumns, spans.map (SpanRow.assign workspace)⟩
  preWorkspace : db.preWorkspace = some ⟨legacyColumns, rollup⟩
  metricsDaily : ∀ t ∈ db.metricsDaily, t.columns = currentColumns
  metricsDailyMV : db.metricsDailyMV = none

theorem rebuildLegacy_meets {A : Prop} : Meets (Ready spans rollup workspace (R := R) (G := G))
    (rebuildLegacy workspace) (fun db => Converted spans rollup workspace db ∧ Before009 db)
    (Begun spans rollup workspace) A := by
  refine .forEach fun db ready => .look ?_
  obtain ⟨_, metricsDaily, _, _, _, _, _, _, _, _, workspaces⟩ := db
  obtain ⟨⟨rfl, rfl, rfl, rfl, rfl⟩, named, rfl, rfl, rfl, current, rfl⟩ := ready
  have begun (t : Option (Rollup G)) (fits : ∀ r ∈ t, r.columns = currentColumns) (view : Option Columns) :
      Begun spans rollup workspace (⟨some ⟨currentColumns, spans.map (SpanRow.assign workspace)⟩, t,
        some ⟨legacyColumns, rollup⟩, none, none, view, none, none, files.take 3, some workspace,
        workspaces⟩ : Database R G) :=
    ⟨⟨rfl, rfl, rfl, rfl, rfl⟩, named, rfl, ⟨_, _, rfl, partly_map spans⟩, .inr ⟨rfl, fits⟩⟩
  obtain ⟨rows, created⟩ : ∃ rows, metricsDaily.getD ⟨currentColumns, 0⟩ = ⟨currentColumns, rows⟩ := by
    cases metricsDaily with
    | none => exact ⟨0, rfl⟩
    | some t => exact ⟨t.rows, by rw [Option.getD_some, ← current t rfl]⟩
  have built (rows : Multiset (RollupRow G)) : ∀ r ∈ some (⟨currentColumns, rows⟩ : Rollup G),
      r.columns = currentColumns := by
    rintro _ ⟨⟩
    rfl
  have create : (fun db : Database R G =>
      some { db with metricsDaily := some (db.metricsDaily.getD ⟨currentColumns, 0⟩) })
      ⟨some ⟨currentColumns, spans.map (SpanRow.assign workspace)⟩, metricsDaily,
        some ⟨legacyColumns, rollup⟩, none, none, none, none, none, files.take 3, some workspace,
        workspaces⟩ = some ⟨some ⟨currentColumns, spans.map (SpanRow.assign workspace)⟩,
        some ⟨currentColumns, rows⟩, some ⟨legacyColumns, rollup⟩, none, none, none, none, none,
        files.take 3, some workspace, workspaces⟩ := by
    simp only [created]
  refine .atomic create (begun _ current none) ?_
  refine .atomic rfl (begun _ (built rows) none) ?_
  refine .stmt rfl (begun _ (built 0) none) ?_ ?_
  · rintro _ ⟨_, _, part, ⟨⟩, ⟨⟩, -, rfl⟩
    exact begun _ (built (0 + part)) none
  refine .atomic rfl (begun _ (built _) none) (.done ?_ ?_)
  · rintro _ rfl
    have copied := congrArg (fun rows => some (Rollup.mk currentColumns rows))
      (zero_add (rollup.map (RollupRow.ofLegacy workspace)))
    exact ⟨⟨named, rfl, rfl, copied, rfl, rfl, rfl, rfl⟩, ⟨rfl, rfl, rfl, rfl, rfl⟩⟩
  · rintro _ rfl
    exact begun _ (built _) _

/-- Once every span is assigned. -/
structure Assigned (spans : List (SpanRow R)) (rollup : Multiset (RollupRow G)) (workspace : Str)
    (db : Database R G) : Prop where
  begun : Begun spans rollup workspace db
  assigned : db.spans = some ⟨currentColumns, spans.map (SpanRow.assign workspace)⟩
  metricsDailyMV : db.metricsDailyMV = none

theorem swapLegacy_meets {A : Prop} : Meets (Assigned spans rollup workspace (R := R) (G := G))
    (swapLegacy workspace) (fun db => Converted spans rollup workspace db ∧ Before009 db)
    (Begun spans rollup workspace) A := by
  refine .forEach fun db assigned => .look ?_
  have begun := assigned.begun
  rcases begun.rollup with ⟨old, unkept⟩ | ⟨kept, current⟩
  · have legacy : (db.metricsDaily.any fun t => decide (t.columns.owner = .tenantID)) = true := by
      rw [old]
      rfl
    have renamed : (if db.metricsDaily.isSome && (db.retained .preWorkspace).isNone then
        some ({ db with metricsDaily := none }.keep db.metricsDaily .preWorkspace) else none) =
        some { db with metricsDaily := none, preWorkspace := some ⟨legacyColumns, rollup⟩ } := by
      simp only [Database.retained, Database.keep, old, unkept, Option.isSome_some, Option.isNone_none,
        Bool.and_self, if_true]
    rw [if_pos legacy]
    refine .atomic renamed begun (rebuildLegacy_meets.start ?_)
    exact ⟨⟨begun.ledger, begun.calls, begun.usageMetrics, begun.preWorkflowRename,
      begun.preVersion⟩, begun.named, begun.state, assigned.assigned, rfl, by rintro _ ⟨⟩,
      assigned.metricsDailyMV⟩
  · have swapped : ¬ (db.metricsDaily.any fun t => decide (t.columns.owner = .tenantID)) = true := by
      cases table : db.metricsDaily with
      | none => simp
      | some t => simp [current t table, currentColumns]
    rw [if_neg swapped]
    refine rebuildLegacy_meets.start ?_
    exact ⟨begun.toBefore009, begun.named, begun.state, assigned.assigned, kept, current,
      assigned.metricsDailyMV⟩

theorem convert_meets {A : Prop} : Meets (Begun spans rollup workspace (R := R) (G := G))
    (convert workspace) (fun db => Converted spans rollup workspace db ∧ Before009 db)
    (Begun spans rollup workspace) A := by
  refine .forEach fun db begun => ?_
  obtain ⟨_, metricsDaily, preWorkspace, _, _, view, _, _, _, _, workspaces⟩ := db
  obtain ⟨⟨rfl, rfl, rfl, rfl, rfl⟩, named, rfl, ⟨columns, rows, rfl, partly⟩, kept⟩ := begun
  -- until the old rollup is renamed only the spans and the view change
  have begun (columns : Columns) (rows : List (SpanRow R)) (view : Option Columns)
      (partly : List.Forall₂ (fun r r' => r' = r ∨ r' = r.assign workspace) spans rows) :
      Begun spans rollup workspace (⟨some ⟨columns, rows⟩, metricsDaily, preWorkspace, none, none, view,
        none, none, files.take 3, some workspace, workspaces⟩ : Database R G) :=
    ⟨⟨rfl, rfl, rfl, rfl, rfl⟩, named, rfl, ⟨_, _, rfl, partly⟩, kept⟩
  refine .atomic rfl (begun _ _ _ partly) ?_
  refine .atomic rfl (begun _ _ _ partly) ?_
  refine .atomic rfl (begun _ _ _ partly) ?_
  refine .atomic rfl (begun _ _ _ partly) ?_
  refine .atomic rfl (begun _ _ _ partly) ?_
  refine .stmt rfl (begun _ _ _ partly) ?_ ?_
  · rintro _ ⟨_, rows', ⟨⟩, more, rfl⟩
    exact begun _ _ _ (partly_trans partly more)
  refine swapLegacy_meets.start ?_
  exact ⟨begun _ _ _ (partly_trans partly (partly_map rows)),
    congrArg (fun rows => some (Spans.mk currentColumns rows)) (assign_partly partly), rfl⟩

/-- What the script reads of either state. -/
theorem Converting.upgrading {db : Database R G} (converting : Converting spans rollup db) :
    ¬ (!(db.spans.any fun t => decide (t.columns.owner = .tenantID)) &&
      decide (db.upgradeState.getD [] = [])) = true := by
  rcases converting with untouched | ⟨workspace, begun⟩
  · simp [untouched.spans, legacyColumns]
  · simp [begun.state, begun.named]

theorem Converting.agrees {db : Database R G} (converting : Converting spans rollup db) {requested : Str}
    (same : ¬ (db.upgradeState.getD [] ≠ [] ∧ db.upgradeState.getD [] ≠ requested)) :
    ∀ earlier ∈ db.upgradeState, earlier = requested := by
  rcases converting with untouched | ⟨workspace, begun⟩
  · rw [untouched.state]
    rintro _ ⟨⟩
  · rw [begun.state] at same ⊢
    rintro _ ⟨⟩
    by_contra other
    exact same ⟨begun.named, other⟩

theorem Converting.recorded {db : Database R G} (converting : Converting spans rollup db) {requested : Str}
    (named : requested ≠ [])
    (agrees : ∀ earlier ∈ db.upgradeState, earlier = requested) :
    Begun spans rollup requested { db with upgradeState := some (db.upgradeState.getD requested) } := by
  rcases converting with untouched | ⟨workspace, begun⟩
  · obtain ⟨⟨_, _, _, _, _⟩, state, hspans, hmetrics, hkept⟩ := untouched
    exact ⟨⟨‹_›, ‹_›, ‹_›, ‹_›, ‹_›⟩, named, by rw [state]; rfl, ⟨_, _, hspans, partly_refl spans⟩,
      .inl ⟨hmetrics, hkept⟩⟩
  · obtain rfl : workspace = requested := agrees workspace begun.state
    obtain ⟨⟨_, _, _, _, _⟩, _, state, hspans, hrollup⟩ := begun
    exact ⟨⟨‹_›, ‹_›, ‹_›, ‹_›, ‹_›⟩, named, by rw [state]; rfl, hspans, hrollup⟩

theorem workspaceUpgrade_meets {settings : Settings} {db : Database R G}
    (converting : Converting spans rollup db) :
    Meets (· = db) (workspaceUpgrade settings)
      (fun db' => (Converted spans rollup settings.workspaceID db' ∧ Before009 db') ∧
        ∀ earlier ∈ db.upgradeState, earlier = settings.workspaceID)
      (Converting spans rollup) (¬ Suits settings db) := by
  have crash : ∀ db', db' = db → Converting spans rollup db' := fun _ same => same ▸ converting
  refine .look ?_
  dsimp only
  rw [if_neg converting.upgrading]
  split
  next running => exact .exit (fun suits => by simp [suits.paused] at running) crash
  split
  next invalid => exact .exit (fun suits => by simp [suits.valid] at invalid) crash
  next valid =>
  split
  next other => exact .exit (fun suits => other.2 <| by
    cases state : db.upgradeState with
    | none => simp [state] at other
    | some w => exact suits.same w state) crash
  next same =>
  split
  next unknown => exact .exit (fun suits => by rw [suits.listed] at unknown; cases unknown) crash
  have named : settings.workspaceID ≠ [] := validWorkspaceID_ne (by simpa using valid)
  have agrees := converting.agrees same
  refine .atomic rfl converting (convert_meets.start (converting.recorded named agrees) |>.mono ?_ ?_)
  · exact fun _ holds => ⟨holds, agrees⟩
  · exact fun _ begun => .inr ⟨_, begun⟩

end Tracium.Upgrade
