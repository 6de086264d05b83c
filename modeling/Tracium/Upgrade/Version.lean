import Tracium.Upgrade.Attempts

/-! The upgrade of a release without workflow versions, by 014_workflow_version.sh. The kept
rollup without a view tells the script to go on with a copy that did not get through; the read
views it looks at only through one of the two. -/
namespace Tracium.Upgrade

open Go Scripts

variable {R G : Type} {rows : List (SpanRow R)} {rollup : Multiset (RollupRow G)}

def unversionedColumns : Columns := ⟨.userID, .workflowName, true, false⟩

/-- The rollup is still under its name. -/
structure Unversioned (rows : List (SpanRow R)) (rollup : Multiset (RollupRow G)) (db : Database R G) : Prop where
  ledger : db.ledger = files.take 13
  spans : ∃ version, db.spans = some ⟨⟨.userID, .workflowName, true, version⟩, rows⟩
  metricsDaily : db.metricsDaily = some ⟨unversionedColumns, rollup⟩
  preVersion : db.preVersion = none

/-- The rollup is kept aside and its copy has no view yet. -/
structure Swapped (rows : List (SpanRow R)) (rollup : Multiset (RollupRow G)) (db : Database R G) : Prop where
  ledger : db.ledger = files.take 13
  spans : db.spans = some ⟨currentColumns, rows⟩
  metricsDaily : ∀ t ∈ db.metricsDaily, t.columns = currentColumns
  preVersion : db.preVersion = some ⟨unversionedColumns, rollup⟩
  metricsDailyMV : db.metricsDailyMV = none

/-- Every state of the old rollup is in the new one. -/
structure Carried (rows : List (SpanRow R)) (rollup : Multiset (RollupRow G)) (db : Database R G) : Prop where
  spans : db.spans = some ⟨currentColumns, rows⟩
  metricsDaily : db.metricsDaily = some ⟨currentColumns, rollup.map RollupRow.unversioned⟩
  preVersion : db.preVersion = some ⟨unversionedColumns, rollup⟩
  metricsDailyMV : db.metricsDailyMV = some currentColumns

def Versioned (view : Option Columns) : Prop := view.any (·.workflowVersion) = true

/-- The view the script looks at is new and the other is not. -/
def Split (calls usageMetrics : Option Columns) : Prop := Versioned calls ∧ ¬ Versioned usageMetrics

theorem versioned_iff_of_calls {calls usageMetrics : Option Columns} (versioned : Versioned calls) :
    Versioned usageMetrics ↔ ¬ Split calls usageMetrics := by
  simp [Split, versioned]

/-- After a run from views as given. -/
structure Refreshed (rows : List (SpanRow R)) (rollup : Multiset (RollupRow G))
    (calls usageMetrics : Option Columns) (done : List File) (db : Database R G) : Prop extends Carried rows rollup db where
  ledger : db.ledger = done
  seen : Versioned db.calls
  unseen : Versioned db.usageMetrics ↔ ¬ Split calls usageMetrics

def Versioning (rows : List (SpanRow R)) (rollup : Multiset (RollupRow G)) (db : Database R G) : Prop :=
  Unversioned rows rollup db ∨ Swapped rows rollup db ∨ (Carried rows rollup db ∧ db.ledger = files.take 13) ∨
    (Carried rows rollup db ∧ db.ledger = files ∧ Versioned db.calls)

theorem Carried.versioning {db : Database R G} (carried : Carried rows rollup db)
    (ledger : db.ledger = files.take 13) : Versioning rows rollup db := .inr (.inr (.inl ⟨carried, ledger⟩))

section Script

variable {preWorkspace preWorkflowRename : Option (Rollup G)} {calls usageMetrics : Option Columns}
  {state : Option Str} {workspaces : List Str} {A : Prop}

theorem refreshViews_meets :
    Meets (· = (⟨some ⟨currentColumns, rows⟩, some ⟨currentColumns, rollup.map RollupRow.unversioned⟩,
        preWorkspace, preWorkflowRename, some ⟨unversionedColumns, rollup⟩, some currentColumns, calls,
        usageMetrics, files.take 13, state, workspaces⟩ : Database R G))
      refreshViews (Refreshed rows rollup calls usageMetrics (files.take 13)) (Versioning rows rollup) A := by
  have carried (calls usageMetrics : Option Columns) : Carried rows rollup (⟨some ⟨currentColumns, rows⟩,
      some ⟨currentColumns, rollup.map RollupRow.unversioned⟩, preWorkspace, preWorkflowRename,
      some ⟨unversionedColumns, rollup⟩, some currentColumns, calls, usageMetrics, files.take 13, state,
      workspaces⟩ : Database R G) := ⟨rfl, rfl, rfl, rfl⟩
  have crash (calls usageMetrics : Option Columns) := (carried calls usageMetrics).versioning rfl
  refine .look ?_
  dsimp only
  split
  next versioned => exact .here ⟨carried _ _, rfl, versioned, versioned_iff_of_calls versioned⟩ (crash _ _)
  next old =>
  have fresh : Versioned (some currentColumns) ↔ ¬ Split calls usageMetrics :=
    ⟨fun _ split => old split.1, fun _ => rfl⟩
  exact .atomic rfl (crash _ _) (.atomic rfl (crash _ _) (.atomic rfl (crash _ _) (.atomic rfl (crash _ _)
    (.here ⟨carried _ _, rfl, rfl, fresh⟩ (crash _ _)))))

theorem resumeCopy_meets {table : Option (Rollup G)} (columns : ∀ t ∈ table, t.columns = currentColumns) :
    Meets (· = (⟨some ⟨currentColumns, rows⟩, table, preWorkspace, preWorkflowRename,
        some ⟨unversionedColumns, rollup⟩, none, calls, usageMetrics, files.take 13, state, workspaces⟩ :
        Database R G))
      (resumeCopy refreshViews) (Refreshed rows rollup calls usageMetrics (files.take 13))
      (Versioning rows rollup) A := by
  have swapped (table : Option (Rollup G)) (columns : ∀ t ∈ table, t.columns = currentColumns) :
      Versioning rows rollup (⟨some ⟨currentColumns, rows⟩, table, preWorkspace, preWorkflowRename,
        some ⟨unversionedColumns, rollup⟩, none, calls, usageMetrics, files.take 13, state, workspaces⟩ :
        Database R G) := .inr (.inl ⟨rfl, rfl, columns, rfl, rfl⟩)
  have built (rows : Multiset (RollupRow G)) : ∀ t ∈ some (⟨currentColumns, rows⟩ : Rollup G),
      t.columns = currentColumns := by
    rintro _ ⟨⟩
    rfl
  obtain ⟨found, created⟩ : ∃ found, table.getD ⟨currentColumns, 0⟩ = ⟨currentColumns, found⟩ := by
    cases table with
    | none => exact ⟨0, rfl⟩
    | some t => exact ⟨t.rows, by rw [Option.getD_some, ← columns t rfl]⟩
  refine .look ?_
  rw [if_pos (show (_ && _) = true from rfl)]
  refine .atomic rfl (swapped _ columns) ?_
  rw [created]
  refine .atomic rfl (swapped _ (built found)) ?_
  refine .stmt rfl (swapped _ (built 0)) ?_ ?_
  · rintro _ ⟨_, _, part, ⟨⟩, ⟨⟩, -, rfl⟩
    exact swapped _ (built (0 + part))
  refine .atomic rfl (swapped _ (built _)) ?_
  rw [zero_add]
  exact refreshViews_meets

theorem unversioned_meets {version : Bool} {view : Option Columns} :
    Meets (· = (⟨some ⟨⟨.userID, .workflowName, true, version⟩, rows⟩, some ⟨unversionedColumns, rollup⟩,
        preWorkspace, preWorkflowRename, none, view, calls, usageMetrics, files.take 13, state, workspaces⟩ :
        Database R G))
      workflowVersion (Refreshed rows rollup calls usageMetrics (files.take 13)) (Versioning rows rollup) A := by
  have before (version : Bool) (view : Option Columns) : Versioning rows rollup
      (⟨some ⟨⟨.userID, .workflowName, true, version⟩, rows⟩, some ⟨unversionedColumns, rollup⟩, preWorkspace,
        preWorkflowRename, none, view, calls, usageMetrics, files.take 13, state, workspaces⟩ : Database R G) :=
    .inl ⟨rfl, ⟨_, rfl⟩, rfl, rfl⟩
  refine .atomic rfl (before version view) (.look ?_)
  rw [if_pos (show Option.any _ _ = true from rfl)]
  refine .atomic rfl (before true view) ?_
  exact .atomic rfl (before true none) (resumeCopy_meets (by rintro _ ⟨⟩))

theorem swapped_meets {table : Option (Rollup G)} (columns : ∀ t ∈ table, t.columns = currentColumns) :
    Meets (· = (⟨some ⟨currentColumns, rows⟩, table, preWorkspace, preWorkflowRename,
        some ⟨unversionedColumns, rollup⟩, none, calls, usageMetrics, files.take 13, state, workspaces⟩ :
        Database R G))
      workflowVersion (Refreshed rows rollup calls usageMetrics (files.take 13)) (Versioning rows rollup) A := by
  have versioned : ¬ (table.any fun t => !t.columns.workflowVersion) = true := by
    cases table with
    | none => simp
    | some t => simp [columns t rfl, currentColumns]
  refine .atomic rfl (.inr (.inl ⟨rfl, rfl, columns, rfl, rfl⟩)) (.look ?_)
  rw [if_neg versioned]
  exact resumeCopy_meets columns

theorem carried_meets :
    Meets (· = (⟨some ⟨currentColumns, rows⟩, some ⟨currentColumns, rollup.map RollupRow.unversioned⟩,
        preWorkspace, preWorkflowRename, some ⟨unversionedColumns, rollup⟩, some currentColumns, calls,
        usageMetrics, files.take 13, state, workspaces⟩ : Database R G))
      workflowVersion (Refreshed rows rollup calls usageMetrics (files.take 13)) (Versioning rows rollup) A :=
  .atomic rfl (Carried.versioning ⟨rfl, rfl, rfl, rfl⟩ rfl) (.look (.look refreshViews_meets))

end Script

theorem workflowVersion_meets {db : Database R G} {A : Prop} (progress : Versioning rows rollup db)
    (ledger : db.ledger = files.take 13) :
    Meets (· = db) workflowVersion (Refreshed rows rollup db.calls db.usageMetrics (files.take 13))
      (Versioning rows rollup) A := by
  obtain ⟨_, _, preWorkspace, preWorkflowRename, _, _, calls, usageMetrics, _, state, workspaces⟩ := db
  rcases progress with unversioned | swapped | ⟨carried, _⟩ | ⟨_, recorded, _⟩
  · obtain ⟨rfl, ⟨version, rfl⟩, rfl, rfl⟩ := unversioned
    exact unversioned_meets
  · obtain ⟨rfl, rfl, columns, rfl, rfl⟩ := swapped
    exact swapped_meets columns
  · obtain ⟨rfl, rfl, rfl, rfl⟩ := carried
    subst ledger
    exact carried_meets
  · rw [recorded] at ledger
    cases ledger

theorem Refreshed.record {calls usageMetrics : Option Columns} {done : List File} {db : Database R G}
    (refreshed : Refreshed rows rollup calls usageMetrics done db) (file : File) :
    Refreshed rows rollup calls usageMetrics (done ++ [file]) { db with ledger := db.ledger ++ [file] } where
  toCarried := ⟨refreshed.spans, refreshed.metricsDaily, refreshed.preVersion, refreshed.metricsDailyMV⟩
  ledger := congrArg (· ++ [file]) refreshed.ledger
  seen := refreshed.seen
  unseen := refreshed.unseen

theorem versioning_meets {settings : Settings} {db : Database R G} (progress : Versioning rows rollup db) :
    Meets (· = db) (runMigrations settings) (Refreshed rows rollup db.calls db.usageMetrics files)
      (Versioning rows rollup) False := by
  by_cases ledger : db.ledger = files.take 13
  · have fresh : .workflowVersion ∉ db.ledger := ledger ▸ by decide
    refine files_skip (files.take 13) (files.drop 13) (fun file listed => ledger ▸ listed) (.look ?_)
    rw [if_neg fresh]
    refine .andThen (workflowVersion_meets progress ledger) (.forEach fun db' refreshed => ?_)
    have crash := refreshed.toCarried.versioning refreshed.ledger
    refine .atomic (if_neg (refreshed.ledger ▸ by decide)) crash ?_
    have recorded := refreshed.record .workflowVersion
    exact .here recorded (.inr (.inr (.inr ⟨recorded.toCarried, recorded.ledger, recorded.seen⟩)))
  · rcases progress with unversioned | swapped | ⟨_, early⟩ | ⟨carried, recorded, versioned⟩
    · exact absurd unversioned.ledger ledger
    · exact absurd swapped.ledger ledger
    · exact absurd early ledger
    · refine files_skip files [] (fun file listed => recorded ▸ listed) (.here ?_ ?_)
      · exact ⟨carried, recorded, versioned, versioned_iff_of_calls versioned⟩
      · exact .inr (.inr (.inr ⟨carried, recorded, versioned⟩))

theorem Versioning.changed {db db' : Database R G} (progress : Versioning rows rollup db)
    (change : WorkspacesChange db db') : Versioning rows rollup db' := by
  obtain ⟨workspaces, rfl⟩ := change
  have same (carried : Carried rows rollup db) : Carried rows rollup { db with workspaces := workspaces } :=
    ⟨carried.spans, carried.metricsDaily, carried.preVersion, carried.metricsDailyMV⟩
  rcases progress with unversioned | swapped | ⟨carried, early⟩ | ⟨carried, recorded, versioned⟩
  · exact .inl ⟨unversioned.ledger, unversioned.spans, unversioned.metricsDaily, unversioned.preVersion⟩
  · exact .inr (.inl ⟨swapped.ledger, swapped.spans, swapped.metricsDaily, swapped.preVersion,
      swapped.metricsDailyMV⟩)
  · exact .inr (.inr (.inl ⟨same carried, early⟩))
  · exact .inr (.inr (.inr ⟨same carried, recorded, versioned⟩))

theorem Versioning.retained {db : Database R G} (progress : Versioning rows rollup db) :
    db.metricsDaily = some ⟨unversionedColumns, rollup⟩ ∨ db.preVersion = some ⟨unversionedColumns, rollup⟩ := by
  rcases progress with unversioned | swapped | ⟨carried, _⟩ | ⟨carried, _⟩
  · exact .inl unversioned.metricsDaily
  · exact .inr swapped.preVersion
  · exact .inr carried.preVersion
  · exact .inr carried.preVersion

/-- From the release before the versions, after attempts killed anywhere, the next one carries
the rollup over however far they came, and creates both read views anew unless they had got
the first of them only. -/
theorem version_resumes_unless_split {start db : Database R G} (released : Unversioned rows rollup start)
    (attempted : Attempted runMigrations WorkspacesChange start db) (settings : Settings) :
    (db.metricsDaily = some ⟨unversionedColumns, rollup⟩ ∨ db.preVersion = some ⟨unversionedColumns, rollup⟩) ∧
    ∃ db', (runMigrations settings).run db = some db' ∧
      Refreshed rows rollup db.calls db.usageMetrics files db' := by
  have progress : Versioning rows rollup db := attempted.holds (.inl released)
    (fun _ d d' progress stopped => (versioning_meets progress).killed d d' rfl stopped)
    fun _ _ progress => progress.changed
  exact ⟨progress.retained, (versioning_meets progress).runs⟩

def versionlessRelease : Database Unit Nat where
  spans := some ⟨unversionedColumns, [⟨[117], [102], [119], [], ()⟩]⟩
  metricsDaily := some ⟨unversionedColumns, {⟨20000, [117], [119], [102], [], [109], 3⟩}⟩
  preWorkspace := none
  preWorkflowRename := none
  preVersion := none
  metricsDailyMV := some unversionedColumns
  calls := some unversionedColumns
  usageMetrics := some unversionedColumns
  ledger := files.take 13
  upgradeState := none
  workspaces := [[119]]

/-- Stopped before the copy, which the next attempt makes up for. -/
theorem version_resumes_unless_split_copy :
    ∃ db', (runMigrations ⟨false, []⟩).run ((runMigrations ⟨false, []⟩).stopped 5 versionlessRelease) = some db' ∧
      Carried [⟨[117], [102], [119], [], ()⟩] {⟨20000, [117], [119], [102], [], [109], 3⟩} db' ∧
      Versioned db'.usageMetrics := by
  have released : Unversioned [⟨[117], [102], [119], [], ()⟩] {⟨20000, [117], [119], [102], [], [109], 3⟩}
      versionlessRelease := ⟨rfl, ⟨_, rfl⟩, rfl, rfl⟩
  obtain ⟨_, db', ran, refreshed⟩ := version_resumes_unless_split released
    (.attempt ⟨false, []⟩ .start (killed_stopped _ 5 _)) ⟨false, []⟩
  exact ⟨db', ran, refreshed.toCarried, refreshed.unseen.mpr fun split => Bool.noConfusion split.1⟩

end Tracium.Upgrade
