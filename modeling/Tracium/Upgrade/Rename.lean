import Tracium.Upgrade.Attempts

/-! The upgrade of a release that called the workflow an agent, by 011_rename_agent_to_workflow.sh.
Unlike its siblings the script looks for the old column only: once it has renamed the rollup it
finds nothing to do, so an attempt that dies before the view is back is not made up for. -/
namespace Tracium.Upgrade

open Go Scripts

variable {R G : Type} {rows : List (SpanRow R)} {rollup : Multiset (RollupRow G)}

def agentColumns : Columns := ⟨.userID, .agentName, true, false⟩

/-- The rollup is still under its name; of the spans' columns any number are converted. -/
structure Unrenamed (rows : List (SpanRow R)) (rollup : Multiset (RollupRow G)) (db : Database R G) : Prop where
  ledger : db.ledger = files.take 10
  spans : ∃ name version, db.spans = some ⟨⟨.userID, name, true, version⟩, rows⟩
  metricsDaily : db.metricsDaily = some ⟨agentColumns, rollup⟩
  preWorkflowRename : db.preWorkflowRename = none
  preVersion : db.preVersion = none

/-- No column is left to rename; the rollup and its view are as given. -/
structure Current (rows : List (SpanRow R)) (rollup : Multiset (RollupRow G)) (table : Option (Rollup G))
    (view : Option Columns) (done : List File) (db : Database R G) : Prop where
  spans : db.spans = some ⟨currentColumns, rows⟩
  metricsDaily : db.metricsDaily = table
  columns : ∀ t ∈ table, t.columns = currentColumns
  preWorkflowRename : db.preWorkflowRename = some ⟨agentColumns, rollup⟩
  preVersion : db.preVersion = none
  metricsDailyMV : db.metricsDailyMV = view
  ledger : db.ledger = done

/-- The renamed rollup with every state of the old one. -/
def renamedRollup (rollup : Multiset (RollupRow G)) : Rollup G :=
  ⟨currentColumns, rollup.map RollupRow.unversioned⟩

/-- Before the view is back, or after. -/
def Served (rollup : Multiset (RollupRow G)) (table : Option (Rollup G)) (view : Option Columns) : Prop :=
  view = none ∨ table = some (renamedRollup rollup) ∧ view = some currentColumns

def Renaming (rows : List (SpanRow R)) (rollup : Multiset (RollupRow G)) (db : Database R G) : Prop :=
  Unrenamed rows rollup db ∨ ∃ table view, Served rollup table view ∧
    Recorded (files.take 10) (Current rows rollup table view) db

theorem current_keeps {settings : Settings} {table : Option (Rollup G)} {view : Option Columns} {file : File}
    {done : List File} {A : Prop} (later : file ∉ files.take 10) :
    Meets (Current rows rollup table view done (R := R)) (script settings file)
      (Current rows rollup table view done) (Current rows rollup table view done) A := by
  refine .forEach fun db current => ?_
  obtain ⟨_, _, preWorkspace, _, _, _, calls, usageMetrics, ledger, state, workspaces⟩ := db
  obtain ⟨rfl, rfl, columns, rfl, rfl, rfl, rfl⟩ := current
  rename_i table view
  have keeps (calls usageMetrics : Option Columns) : Current rows rollup table view ledger
      (⟨some ⟨currentColumns, rows⟩, table, preWorkspace, some ⟨agentColumns, rollup⟩, none, view, calls,
        usageMetrics, ledger, state, workspaces⟩ : Database R G) := ⟨rfl, rfl, columns, rfl, rfl, rfl, rfl⟩
  cases file with
  | renameAgentToWorkflow =>
    have nothing : (table.any fun t => decide (t.columns.name = .agentName)) = false := by
      cases table with
      | none => rfl
      | some t => simp [columns t rfl, currentColumns]
    refine .look ?_
    dsimp only
    rw [nothing]
    exact .here (keeps _ _) (keeps _ _)
  | createRejectedSpans => exact .here (keeps _ _) (keeps _ _)
  | rejectedSpansTTL => exact .here (keeps _ _) (keeps _ _)
  | workflowVersion =>
    have versioned : (table.any fun t => !t.columns.workflowVersion) = false := by
      cases table with
      | none => rfl
      | some t => simp [columns t rfl, currentColumns]
    refine .atomic rfl (keeps _ _) (.look ?_)
    dsimp only
    rw [versioned]
    refine .look (.look ?_)
    dsimp only
    split
    · exact .here (keeps _ _) (keeps _ _)
    · exact .atomic rfl (keeps _ _) (.atomic rfl (keeps _ _) (.atomic rfl (keeps _ _)
        (.atomic rfl (keeps _ _) (.here (keeps _ _) (keeps _ _)))))
  | _ => exact absurd (by decide) later

theorem Current.record {table : Option (Rollup G)} {view : Option Columns} {done : List File}
    {db : Database R G} (current : Current rows rollup table view done db) (file : File) :
    Current rows rollup table view (done ++ [file]) { db with ledger := db.ledger ++ [file] } where
  spans := current.spans
  metricsDaily := current.metricsDaily
  columns := current.columns
  preWorkflowRename := current.preWorkflowRename
  preVersion := current.preVersion
  metricsDailyMV := current.metricsDailyMV
  ledger := congrArg (· ++ [file]) current.ledger

theorem Current.changed {table : Option (Rollup G)} {view : Option Columns} {done : List File}
    {db : Database R G} (current : Current rows rollup table view done db) (workspaces : List Str) :
    Current rows rollup table view done { db with workspaces := workspaces } :=
  ⟨current.spans, current.metricsDaily, current.columns, current.preWorkflowRename, current.preVersion,
    current.metricsDailyMV, current.ledger⟩

theorem current_keptBy (settings : Settings) {table : Option (Rollup G)} {view : Option Columns} :
    KeptBy settings (files.take 10) (Current rows rollup table view (R := R)) where
  ledger := (·.ledger)
  each := current_keeps
  record := fun file current => current.record file

theorem Current.progress {table : Option (Rollup G)} {view : Option Columns} {db : Database R G}
    (current : Current rows rollup table view (files.take 10) db) (served : Served rollup table view) :
    Renaming rows rollup db :=
  .inr ⟨table, view, served, files.take 10, files.drop 10, rfl, fun _ listed => listed, current⟩

section Swap

variable {preWorkspace : Option (Rollup G)} {calls usageMetrics : Option Columns} {state : Option Str}
  {workspaces : List Str}

theorem rebuildRenamed_meets {version : Bool} {A : Prop} :
    Meets (· = (⟨some ⟨⟨.userID, .workflowName, true, version⟩, rows⟩, some ⟨agentColumns, rollup⟩, preWorkspace,
        none, none, none, calls, usageMetrics, files.take 10, state, workspaces⟩ : Database R G))
      (rebuildRenamed true)
      (Current rows rollup (some (renamedRollup rollup)) (some currentColumns) (files.take 10))
      (Renaming rows rollup) A := by
  have before (version : Bool) : Renaming rows rollup (⟨some ⟨⟨.userID, .workflowName, true, version⟩, rows⟩,
      some ⟨agentColumns, rollup⟩, preWorkspace, none, none, none, calls, usageMetrics, files.take 10, state,
      workspaces⟩ : Database R G) := .inl ⟨rfl, ⟨_, _, rfl⟩, rfl, rfl, rfl⟩
  have swapped (table : Option (Rollup G)) (columns : ∀ t ∈ table, t.columns = currentColumns) :
      Renaming rows rollup (⟨some ⟨currentColumns, rows⟩, table, preWorkspace, some ⟨agentColumns, rollup⟩,
        none, none, calls, usageMetrics, files.take 10, state, workspaces⟩ : Database R G) :=
    Current.progress ⟨rfl, rfl, columns, rfl, rfl, rfl, rfl⟩ (.inl rfl)
  have built (rows : Multiset (RollupRow G)) : ∀ t ∈ some (⟨currentColumns, rows⟩ : Rollup G),
      t.columns = currentColumns := by
    rintro _ ⟨⟩
    rfl
  refine .atomic rfl (before version) ?_
  refine .atomic rfl (before true) ?_
  refine .atomic rfl (swapped none (by rintro _ ⟨⟩)) ?_
  refine .atomic rfl (swapped _ (built 0)) ?_
  refine .stmt rfl (swapped _ (built 0)) ?_ ?_
  · rintro _ ⟨_, _, part, ⟨⟩, ⟨⟩, -, rfl⟩
    exact swapped _ (built (0 + part))
  refine .atomic rfl (swapped _ (built _)) ?_
  have copied := congrArg (fun rows => some (Rollup.mk currentColumns rows))
    (zero_add (rollup.map RollupRow.unversioned))
  have done (calls usageMetrics : Option Columns) : Current rows rollup (some (renamedRollup rollup))
      (some currentColumns) (files.take 10) (⟨some ⟨currentColumns, rows⟩,
        some ⟨currentColumns, 0 + rollup.map RollupRow.unversioned⟩, preWorkspace, some ⟨agentColumns, rollup⟩,
        none, some currentColumns, calls, usageMetrics, files.take 10, state, workspaces⟩ : Database R G) :=
    ⟨rfl, copied, built _, rfl, rfl, rfl, rfl⟩
  have served (calls usageMetrics : Option Columns) := (done calls usageMetrics).progress (.inr ⟨rfl, rfl⟩)
  exact .atomic rfl (served _ _) (.atomic rfl (served _ _) (.atomic rfl (served _ _) (.atomic rfl (served _ _)
    (.here (done _ _) (served _ _)))))

theorem renameAgentToWorkflow_meets {A : Prop} :
    Meets (Unrenamed rows rollup (R := R)) renameAgentToWorkflow
      (Current rows rollup (some (renamedRollup rollup)) (some currentColumns) (files.take 10))
      (Renaming rows rollup) A := by
  refine .forEach fun db unrenamed => .look ?_
  obtain ⟨_, _, preWorkspace, _, _, view, calls, usageMetrics, _, state, workspaces⟩ := db
  obtain ⟨rfl, ⟨name, version, rfl⟩, rfl, rfl, rfl⟩ := unrenamed
  have before (name : NameColumn) (view : Option Columns) : Renaming rows rollup
      (⟨some ⟨⟨.userID, name, true, version⟩, rows⟩, some ⟨agentColumns, rollup⟩, preWorkspace, none, none, view,
        calls, usageMetrics, files.take 10, state, workspaces⟩ : Database R G) :=
    .inl ⟨rfl, ⟨_, _, rfl⟩, rfl, rfl, rfl⟩
  change Meets _ (if !decide (name = .agentName) && !true then .done
    else renameColumns (decide (name = .agentName)) true) _ _ _
  rw [if_neg (by simp)]
  refine .atomic rfl (before name view) ?_
  cases name with
  | agentName => exact .atomic rfl (before _ none) rebuildRenamed_meets
  | workflowName => exact rebuildRenamed_meets

end Swap

/-- Only the kill between the renaming of the rollup and the creation of its view counts. -/
def Stranded (db : Database R G) : Prop := db.preWorkflowRename.isSome = true ∧ db.metricsDailyMV = none

theorem Recorded.changed {early : List File} {I : List File → Database R G → Prop} {db : Database R G}
    (recorded : Recorded early I db) (workspaces : List Str)
    (keeps : ∀ done, I done db → I done { db with workspaces := workspaces }) :
    Recorded early I { db with workspaces := workspaces } :=
  let ⟨done, rest, all, covered, holds⟩ := recorded
  ⟨done, rest, all, covered, keeps done holds⟩

theorem Renaming.changed {db db' : Database R G} (progress : Renaming rows rollup db)
    (change : WorkspacesChange db db') : Renaming rows rollup db' := by
  obtain ⟨workspaces, rfl⟩ := change
  rcases progress with unrenamed | ⟨table, view, served, recorded⟩
  · exact .inl ⟨unrenamed.ledger, unrenamed.spans, unrenamed.metricsDaily, unrenamed.preWorkflowRename,
      unrenamed.preVersion⟩
  · exact .inr ⟨table, view, served, recorded.changed workspaces fun _ current => current.changed workspaces⟩

/-- The runner from a database whose rollup is still to be renamed. -/
theorem unrenamed_meets {settings : Settings} {db : Database R G} (unrenamed : Unrenamed rows rollup db) :
    Meets (· = db) (runMigrations settings)
      (Current rows rollup (some (renamedRollup rollup)) (some currentColumns) files)
      (Renaming rows rollup) False := by
  have fresh : .renameAgentToWorkflow ∉ db.ledger := unrenamed.ledger ▸ by decide
  refine files_skip (files.take 10) (files.drop 10) (fun file listed => unrenamed.ledger ▸ listed) (.look ?_)
  rw [if_neg fresh]
  refine .andThen (renameAgentToWorkflow_meets.start unrenamed) (.forEach fun db' current => ?_)
  have served : Served rollup (some (renamedRollup rollup)) (some currentColumns) := .inr ⟨rfl, rfl⟩
  refine .atomic (if_neg (current.ledger ▸ by decide)) (current.progress served) ?_
  have split : files.take 11 ++ files.drop 11 = files := rfl
  have later := ((current_keptBy settings).runFiles (files.drop 11) split (by decide)).start
    (current.record .renameAgentToWorkflow)
  exact later.mono (fun _ holds => holds) fun _ recorded => .inr ⟨_, _, served, recorded⟩

theorem Renaming.killed {settings : Settings} {db db' : Database R G} (progress : Renaming rows rollup db)
    (stopped : Killed (runMigrations settings) db db') : Renaming rows rollup db' := by
  rcases progress with unrenamed | ⟨table, view, served, recorded⟩
  · exact (unrenamed_meets unrenamed).killed db db' rfl stopped
  · exact .inr ⟨table, view, served, ((current_keptBy settings).runMigrations recorded).killed db db' rfl stopped⟩

/-- Of the spans no row changes, whatever became of their columns. -/
theorem Renaming.spans_kept {db : Database R G} (progress : Renaming rows rollup db) :
    ∃ columns, db.spans = some ⟨columns, rows⟩ := by
  rcases progress with unrenamed | ⟨_, _, _, _, _, _, _, found⟩
  · obtain ⟨name, version, spans⟩ := unrenamed.spans
    exact ⟨_, spans⟩
  · exact ⟨_, found.spans⟩

theorem Renaming.retained {db : Database R G} (progress : Renaming rows rollup db) :
    db.metricsDaily = some ⟨agentColumns, rollup⟩ ∨ db.preWorkflowRename = some ⟨agentColumns, rollup⟩ := by
  rcases progress with unrenamed | ⟨_, _, _, _, _, _, _, found⟩
  · exact .inl unrenamed.metricsDaily
  · exact .inr found.preWorkflowRename

/-- No attempt after the fatal one touches the rollup, nor gives it a view, wherever it stops. -/
theorem Renaming.stranded {db later : Database R G} (progress : Renaming rows rollup db)
    (stranded : Stranded db) (attempted : Attempted runMigrations WorkspacesChange db later) :
    Stranded later ∧ later.metricsDaily = db.metricsDaily := by
  rcases progress with unrenamed | ⟨table, view, -, recorded⟩
  · rw [Stranded, unrenamed.preWorkflowRename] at stranded
    cases stranded.1
  · have still : Recorded (files.take 10) (Current rows rollup table view) later :=
      attempted.holds recorded
        (fun settings d d' held stopped => ((current_keptBy settings).runMigrations held).killed d d' rfl stopped)
        (by
          rintro d _ held ⟨workspaces, rfl⟩
          exact held.changed workspaces fun _ current => current.changed workspaces)
    obtain ⟨_, _, _, _, was⟩ := recorded
    obtain ⟨_, _, _, _, found⟩ := still
    refine ⟨⟨?_, ?_⟩, ?_⟩
    · rw [found.preWorkflowRename]
      rfl
    · rw [found.metricsDailyMV, ← was.metricsDailyMV]
      exact stranded.2
    · rw [found.metricsDaily, was.metricsDaily]

/-- From the release before the renaming, after attempts killed anywhere, the old rollup and the
rows of the spans are still there and the next attempt always reports the schema applied. It has
carried the rollup over, unless an earlier one died between renaming it and creating the view:
then no later attempt, wherever it stops, ever fills the rollup again. -/
theorem rename_resumes_unless_stranded {start db : Database R G} (released : Unrenamed rows rollup start)
    (attempted : Attempted runMigrations WorkspacesChange start db) (settings : Settings) :
    (db.metricsDaily = some ⟨agentColumns, rollup⟩ ∨ db.preWorkflowRename = some ⟨agentColumns, rollup⟩) ∧
    (∃ columns, db.spans = some ⟨columns, rows⟩) ∧
    (Stranded db → ∀ later, Attempted runMigrations WorkspacesChange db later →
      Stranded later ∧ later.metricsDaily = db.metricsDaily) ∧
    ∃ db', (runMigrations settings).run db = some db' ∧ db'.ledger = files ∧
      db'.preWorkflowRename = some ⟨agentColumns, rollup⟩ ∧ db'.spans = some ⟨currentColumns, rows⟩ ∧
      (Stranded db → Stranded db' ∧ db'.metricsDaily = db.metricsDaily) ∧
      (¬ Stranded db → db'.metricsDaily = some (renamedRollup rollup) ∧
        db'.metricsDailyMV = some currentColumns) := by
  have progress : Renaming rows rollup db := attempted.holds (.inl released)
    (fun _ _ _ progress => progress.killed) fun _ _ progress => progress.changed
  have stays : Stranded db → ∀ later, Attempted runMigrations WorkspacesChange db later →
      Stranded later ∧ later.metricsDaily = db.metricsDaily :=
    fun stranded _ attempted => progress.stranded stranded attempted
  refine ⟨progress.retained, progress.spans_kept, stays, ?_⟩
  rcases progress with unrenamed | ⟨table, view, served, recorded⟩
  · obtain ⟨db', ran, current⟩ := (unrenamed_meets unrenamed).runs
    exact ⟨db', ran, current.ledger, current.preWorkflowRename, current.spans,
      fun stranded => stays stranded db' (.attempt settings .start (killed_run ran)),
      fun _ => ⟨current.metricsDaily, current.metricsDailyMV⟩⟩
  · obtain ⟨db', ran, current⟩ := ((current_keptBy settings).runMigrations recorded).runs
    obtain ⟨_, _, _, _, found⟩ := recorded
    refine ⟨db', ran, current.ledger, current.preWorkflowRename, current.spans,
      fun stranded => stays stranded db' (.attempt settings .start (killed_run ran)), fun free => ?_⟩
    rcases served with rfl | ⟨rfl, rfl⟩
    · exact absurd ⟨found.preWorkflowRename ▸ rfl, found.metricsDailyMV⟩ free
    · exact ⟨current.metricsDaily, current.metricsDailyMV⟩

def agentRelease : Database Unit Nat where
  spans := some ⟨⟨.userID, .agentName, true, false⟩, [⟨[117], [102], [119], [], ()⟩]⟩
  metricsDaily := some ⟨agentColumns, {⟨20000, [117], [119], [102], [], [109], 3⟩}⟩
  preWorkspace := none
  preWorkflowRename := none
  preVersion := none
  metricsDailyMV := some agentColumns
  calls := some agentColumns
  usageMetrics := some agentColumns
  ledger := files.take 10
  upgradeState := none
  workspaces := [[119]]

/-- Stopped before the copy: the new rollup stays empty and has no view. -/
theorem rename_resumes_unless_stranded_copy :
    ∃ db', (runMigrations ⟨false, []⟩).run ((runMigrations ⟨false, []⟩).stopped 5 agentRelease) = some db' ∧
      db'.ledger = files ∧ Stranded db' ∧ db'.metricsDaily = some ⟨currentColumns, 0⟩ := by
  have released : Unrenamed [⟨[117], [102], [119], [], ()⟩] {⟨20000, [117], [119], [102], [], [109], 3⟩}
      agentRelease := ⟨rfl, ⟨_, _, rfl⟩, rfl, rfl, rfl⟩
  obtain ⟨_, _, _, db', ran, recorded, _, _, stranded, _⟩ := rename_resumes_unless_stranded released
    (.attempt ⟨false, []⟩ .start (killed_stopped _ 5 _)) ⟨false, []⟩
  obtain ⟨stays, table⟩ := stranded ⟨rfl, rfl⟩
  exact ⟨db', ran, recorded, stays, table⟩

end Tracium.Upgrade
