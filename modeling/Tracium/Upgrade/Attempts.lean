import Tracium.Upgrade.Legacy

/-! Attempts at the upgrade: the runner from either side of 004_workspace_upgrade.sh, and what
any attempts leave, however each of them ended. -/
namespace Tracium.Upgrade

open Go Scripts

variable {R G : Type} {spans : List (SpanRow R)} {rollup : Multiset (RollupRow G)} {workspace : Str}

/-- The legacy telemetry is converted and the files in `done` are recorded. -/
structure Upgraded (spans : List (SpanRow R)) (rollup : Multiset (RollupRow G)) (workspace : Str)
    (done : List File) (db : Database R G) : Prop extends Converted spans rollup workspace db where
  ledger : db.ledger = done
  calls : ∀ columns ∈ db.calls, columns = currentColumns
  usageMetrics : ∀ columns ∈ db.usageMetrics, columns = currentColumns

theorem fits_none : ∀ columns ∈ (none : Option Columns), columns = currentColumns := by
  rintro _ ⟨⟩

theorem fits_some : ∀ columns ∈ some currentColumns, columns = currentColumns := by
  rintro _ ⟨⟩
  rfl

theorem fits_getD {view : Option Columns} (fits : ∀ columns ∈ view, columns = currentColumns) :
    ∀ columns ∈ some (view.getD currentColumns), columns = currentColumns := by
  cases view with
  | none => exact fits_some
  | some columns =>
    rintro _ ⟨⟩
    exact fits columns rfl

/-- The other files find nothing to convert. -/
theorem upgraded_keeps {settings : Settings} {file : File} {done : List File} {A : Prop}
    (other : file ≠ .workspaceUpgrade) :
    Meets (Upgraded spans rollup workspace done (R := R) (G := G)) (script settings file)
      (Upgraded spans rollup workspace done) (Upgraded spans rollup workspace done) A := by
  refine .forEach fun db upgraded => ?_
  obtain ⟨_, _, _, _, _, _, calls, usageMetrics, ledger, _, workspaces⟩ := db
  obtain ⟨⟨named, rfl, rfl, rfl, rfl, rfl, rfl, rfl⟩, rfl, hcalls, husage⟩ := upgraded
  have keeps (calls usageMetrics : Option Columns) (hcalls : ∀ columns ∈ calls, columns = currentColumns)
      (husage : ∀ columns ∈ usageMetrics, columns = currentColumns) :
      Upgraded spans rollup workspace ledger (⟨some ⟨currentColumns, spans.map (SpanRow.assign workspace)⟩,
        some ⟨currentColumns, rollup.map (RollupRow.ofLegacy workspace)⟩, some ⟨legacyColumns, rollup⟩,
        none, none, some currentColumns, calls, usageMetrics, ledger, some workspace, workspaces⟩ :
        Database R G) :=
    ⟨⟨named, rfl, rfl, rfl, rfl, rfl, rfl, rfl⟩, rfl, hcalls, husage⟩
  have same := keeps calls usageMetrics hcalls husage
  cases file with
  | workspaceUpgrade => exact absurd rfl other
  | createSpans => exact .atomic rfl same (.here same same)
  | createMetricsDaily => exact .atomic rfl same (.here same same)
  | createMetricsDailyMV => exact .atomic rfl same (.here same same)
  | createCallsView =>
    have created := keeps _ usageMetrics (fits_getD hcalls) husage
    exact .atomic rfl same (.here created created)
  | createUsageMetricsView =>
    have created := keeps calls _ hcalls (fits_getD husage)
    exact .atomic rfl same (.here created created)
  | renameAgentToWorkflow => exact .look (.here same same)
  | workflowVersion =>
    refine .atomic rfl same (.look (.look (.look ?_)))
    dsimp only
    split
    · exact .here same same
    · have recreated := keeps _ _ fits_some fits_some
      exact .atomic rfl same (.atomic rfl (keeps _ _ fits_none husage) (.atomic rfl (keeps _ _ fits_some husage)
        (.atomic rfl (keeps _ _ fits_some fits_none) (.here recreated recreated))))
  | _ => exact .here same same

/-- The files in `early` are recorded, the later ones in order. -/
def Recorded (early : List File) (I : List File → Database R G → Prop) (db : Database R G) : Prop :=
  ∃ done rest, done ++ rest = files ∧ early ⊆ done ∧ I done db

theorem files_skip {settings : Settings} (done rest : List File) {db : Database R G}
    {Q C : Database R G → Prop} {A : Prop} (recorded : ∀ file ∈ done, file ∈ db.ledger)
    (meets : Meets (· = db) (runFiles settings rest) Q C A) :
    Meets (· = db) (runFiles settings (done ++ rest)) Q C A := by
  induction done with
  | nil => exact meets
  | cons file done ih =>
    refine .look ?_
    rw [if_pos (recorded file List.mem_cons_self)]
    exact ih fun file listed => recorded file (List.mem_cons_of_mem _ listed)

theorem files_fresh {done rest : List File} {file : File} (all : done ++ file :: rest = files) : file ∉ done := by
  have nodup : (done ++ file :: rest).Nodup := all ▸ by decide
  exact fun listed => (List.nodup_append.mp nodup).2.2 file listed file List.mem_cons_self rfl

/-- The files not in `early` keep what holds with the ledger as it is, and the ledger may grow. -/
structure KeptBy (settings : Settings) (early : List File) (I : List File → Database R G → Prop) : Prop where
  ledger : ∀ {done db}, I done db → db.ledger = done
  each : ∀ {done file}, file ∉ early → Meets (I done) (script settings file) (I done) (I done) False
  record : ∀ {done db} (file), I done db → I (done ++ [file]) { db with ledger := db.ledger ++ [file] }

/-- What each of the later files keeps holds when the runner is through, and wherever it stops. -/
theorem KeptBy.runFiles {settings : Settings} {early : List File} {I : List File → Database R G → Prop}
    (kept : KeptBy settings early I) (rest : List File) {done : List File} (all : done ++ rest = files)
    (covered : early ⊆ done) : Meets (I done) (runFiles settings rest) (I files) (Recorded early I) False := by
  induction rest generalizing done with
  | nil =>
    rw [List.append_nil] at all
    subst all
    exact .done (fun _ holds => holds) fun _ holds => ⟨_, [], List.append_nil _, covered, holds⟩
  | cons file rest ih =>
    have fresh := files_fresh all
    have crash : ∀ db : Database R G, I done db → Recorded early I db := fun _ holds => ⟨_, _, all, covered, holds⟩
    have unrecorded : ∀ db : Database R G, I done db → file ∉ db.ledger :=
      fun _ holds => kept.ledger holds ▸ fresh
    have later : file ∉ early := fun listed => fresh (covered listed)
    refine .forEach fun db holds => .look ?_
    rw [if_neg (unrecorded db holds)]
    refine .andThen (((kept.each later).start holds).mono (fun _ holds => holds) crash) ?_
    refine .forEach fun db holds => .atomic (if_neg (unrecorded db holds)) (crash db holds) ?_
    have all' : (done ++ [file]) ++ rest = files := (List.append_assoc done [file] rest).trans all
    exact (ih all' (List.subset_append_of_subset_left _ covered)).start (kept.record file holds)

/-- An attempt after the early files are recorded. -/
theorem KeptBy.runMigrations {settings : Settings} {early : List File} {I : List File → Database R G → Prop}
    (kept : KeptBy settings early I) {db : Database R G} (recorded : Recorded early I db) :
    Meets (· = db) (runMigrations settings) (I files) (Recorded early I) False := by
  obtain ⟨done, rest, all, covered, holds⟩ := recorded
  have listed : ∀ file ∈ done, file ∈ db.ledger := by
    rw [kept.ledger holds]
    exact fun _ listed => listed
  have meets := files_skip done rest listed ((kept.runFiles rest all covered).start holds)
  rw [all] at meets
  exact meets

theorem Upgraded.record {done : List File} {file : File} {db : Database R G}
    (upgraded : Upgraded spans rollup workspace done db) :
    Upgraded spans rollup workspace (done ++ [file]) { db with ledger := db.ledger ++ [file] } where
  toConverted := ⟨upgraded.named, upgraded.state, upgraded.spans, upgraded.metricsDaily, upgraded.preWorkspace,
    upgraded.preWorkflowRename, upgraded.preVersion, upgraded.metricsDailyMV⟩
  ledger := congrArg (· ++ [file]) upgraded.ledger
  calls := upgraded.calls
  usageMetrics := upgraded.usageMetrics

/-- 004_workspace_upgrade.sh is recorded. -/
def Settled (spans : List (SpanRow R)) (rollup : Multiset (RollupRow G)) (db : Database R G) : Prop :=
  ∃ workspace, Recorded [.workspaceUpgrade] (Upgraded spans rollup workspace) db

theorem upgraded_keptBy (settings : Settings) :
    KeptBy settings [.workspaceUpgrade] (Upgraded spans rollup workspace (R := R) (G := G)) where
  ledger := (·.ledger)
  each := fun other => upgraded_keeps fun same => other (List.mem_singleton.mpr same)
  record := fun _ upgraded => upgraded.record

theorem Converting.before009 {db : Database R G} (converting : Converting spans rollup db) : Before009 db :=
  converting.elim (·.toBefore009) fun ⟨_, begun⟩ => begun.toBefore009

/-- Killed before the ledger names the script. -/
theorem Converted.converting {db : Database R G} (converted : Converted spans rollup workspace db)
    (before : Before009 db) : Converting spans rollup db := by
  refine .inr ⟨workspace, before, converted.named, converted.state,
    ⟨_, _, converted.spans, partly_map spans⟩, .inr ⟨converted.preWorkspace, ?_⟩⟩
  rw [converted.metricsDaily]
  rintro _ ⟨⟩
  rfl

theorem Converted.upgraded {db : Database R G} (converted : Converted spans rollup workspace db)
    (before : Before009 db) :
    Upgraded spans rollup workspace (files.take 4) { db with ledger := db.ledger ++ [.workspaceUpgrade] } where
  toConverted := ⟨converted.named, converted.state, converted.spans, converted.metricsDaily,
    converted.preWorkspace, converted.preWorkflowRename, converted.preVersion, converted.metricsDailyMV⟩
  ledger := congrArg (· ++ [File.workspaceUpgrade]) before.ledger
  calls := before.calls ▸ fits_none
  usageMetrics := before.usageMetrics ▸ fits_none

/-- The upgrade is under way, or done. -/
def InProgress (spans : List (SpanRow R)) (rollup : Multiset (RollupRow G)) (db : Database R G) : Prop :=
  Converting spans rollup db ∨ Settled spans rollup db

theorem runMigrations_meets {settings : Settings} {db : Database R G} (progress : InProgress spans rollup db) :
    Meets (· = db) (runMigrations settings)
      (fun db' => ∃ workspace, (∀ earlier ∈ db.upgradeState, earlier = workspace) ∧
        Upgraded spans rollup workspace files db')
      (InProgress spans rollup) (¬ Suits settings db ∧ .workspaceUpgrade ∉ db.ledger) := by
  rcases progress with converting | ⟨workspace, recorded⟩
  · have ledger := converting.before009.ledger
    have fresh : .workspaceUpgrade ∉ db.ledger := ledger ▸ by decide
    refine files_skip (files.take 3) (files.drop 3) (fun file listed => ledger ▸ listed) (.look ?_)
    rw [if_neg fresh]
    have upgrade : Meets (· = db) (workspaceUpgrade settings) _ (InProgress spans rollup) _ :=
      (workspaceUpgrade_meets converting).mono (fun _ holds => holds) fun _ => .inl
    refine .andThen (upgrade.because fun unsuited => ⟨unsuited, fresh⟩) (.forEach fun db' holds => ?_)
    obtain ⟨⟨converted, before⟩, agrees⟩ := holds
    refine .atomic (if_neg (before.ledger ▸ by decide)) (.inl (converted.converting before)) ?_
    have split : files.take 4 ++ files.drop 4 = files := rfl
    have later := ((upgraded_keptBy settings).runFiles (files.drop 4) split (by decide)).start
      (converted.upgraded before)
    exact (later.mono (fun _ upgraded => ⟨_, agrees, upgraded⟩) fun _ recorded => .inr ⟨_, recorded⟩).because
      False.elim
  · have meets := (upgraded_keptBy settings).runMigrations recorded
    obtain ⟨_, _, _, _, upgraded⟩ := recorded
    have agrees : ∀ earlier ∈ db.upgradeState, earlier = workspace := by
      rw [upgraded.state]
      rintro _ ⟨⟩
      rfl
    exact (meets.mono (fun _ upgraded => ⟨workspace, agrees, upgraded⟩) fun _ recorded =>
      .inr ⟨workspace, recorded⟩).because False.elim

/-- The attempts share nothing but the database; meanwhile workspaces come and go. -/
def WorkspacesChange (db db' : Database R G) : Prop :=
  ∃ workspaces, db' = { db with workspaces := workspaces }

theorem InProgress.changed {db db' : Database R G} (progress : InProgress spans rollup db)
    (change : WorkspacesChange db db') : InProgress spans rollup db' := by
  obtain ⟨workspaces, rfl⟩ := change
  rcases progress with (untouched | ⟨workspace, begun⟩) | ⟨workspace, done, rest, all, listed, upgraded⟩
  · obtain ⟨⟨_, _, _, _, _⟩, _, _, _, _⟩ := untouched
    exact .inl (.inl ⟨⟨‹_›, ‹_›, ‹_›, ‹_›, ‹_›⟩, ‹_›, ‹_›, ‹_›, ‹_›⟩)
  · obtain ⟨⟨_, _, _, _, _⟩, _, _, spans, rollup⟩ := begun
    exact .inl (.inr ⟨workspace, ⟨‹_›, ‹_›, ‹_›, ‹_›, ‹_›⟩, ‹_›, ‹_›, spans, rollup⟩)
  · obtain ⟨⟨_, _, _, _, _, _, _, _⟩, _, _, _⟩ := upgraded
    exact .inr ⟨workspace, done, rest, all, listed, ⟨‹_›, ‹_›, ‹_›, ‹_›, ‹_›, ‹_›, ‹_›, ‹_›⟩, ‹_›, ‹_›, ‹_›⟩

/-- The old rollup exists under one name or the other, and of the spans only the workspace
column has changed, to the one workspace recorded. -/
structure Intact (spans : List (SpanRow R)) (rollup : Multiset (RollupRow G)) (db : Database R G) : Prop where
  rollup : db.metricsDaily = some ⟨legacyColumns, rollup⟩ ∨ db.preWorkspace = some ⟨legacyColumns, rollup⟩
  spans : ∃ columns rows, db.spans = some ⟨columns, rows⟩ ∧
    List.Forall₂ (fun r r' => r' = r ∨ ∃ workspace ∈ db.upgradeState, r' = r.assign workspace) spans rows

theorem partly_recorded {rows : List (SpanRow R)} {state : Option Str} (recorded : state = some workspace)
    (partly : List.Forall₂ (fun r r' => r' = r ∨ r' = r.assign workspace) spans rows) :
    List.Forall₂ (fun r r' => r' = r ∨ ∃ workspace ∈ state, r' = r.assign workspace) spans rows :=
  partly.imp fun _ _ own => own.imp id fun assigned => ⟨workspace, recorded, assigned⟩

theorem InProgress.intact {db : Database R G} (progress : InProgress spans rollup db) :
    Intact spans rollup db := by
  rcases progress with (untouched | ⟨workspace, begun⟩) | ⟨workspace, done, rest, all, listed, upgraded⟩
  · exact ⟨.inl untouched.metricsDaily, _, _, untouched.spans, List.forall₂_same.mpr fun _ _ => .inl rfl⟩
  · obtain ⟨columns, rows, table, partly⟩ := begun.spans
    exact ⟨begun.rollup.imp (·.1) (·.1), columns, rows, table, partly_recorded begun.state partly⟩
  · exact ⟨.inr upgraded.preWorkspace, _, _, upgraded.spans, partly_recorded upgraded.state (partly_map spans)⟩

/-- From the release without workspaces, attempts that may each be killed anywhere never lose
a legacy row nor give one to a second workspace, and the next one that runs through has given
each to the recorded workspace exactly once. -/
theorem upgrade_resumes {start db : Database R G} (legacy : Untouched spans rollup start)
    (attempted : Attempted runMigrations WorkspacesChange start db) :
    Intact spans rollup db ∧ ∀ settings,
      (Suits settings db ∨ .workspaceUpgrade ∈ db.ledger → ((runMigrations settings).run db).isSome) ∧
      ∀ db', (runMigrations settings).run db = some db' →
        ∃ workspace, (∀ earlier ∈ db.upgradeState, earlier = workspace) ∧
          Upgraded spans rollup workspace files db' := by
  have progress : InProgress spans rollup db := attempted.holds (.inl (.inl legacy))
    (fun _ d d' progress => (runMigrations_meets progress).killed d d' rfl) fun _ _ progress => progress.changed
  refine ⟨progress.intact, fun settings => ⟨fun suited => ?_, fun db' =>
    (runMigrations_meets progress).completes db db' rfl⟩⟩
  rw [Option.isSome_iff_ne_none]
  intro aborted
  obtain ⟨unsuited, unrecorded⟩ := (runMigrations_meets progress).aborts db rfl aborted
  exact suited.elim unsuited unrecorded

def legacyRelease : Database Unit Nat where
  spans := some ⟨legacyColumns, [⟨[117], [102], [], [], ()⟩]⟩
  metricsDaily := some ⟨legacyColumns, {⟨20000, [117], [], [102], [], [109], 3⟩}⟩
  preWorkspace := none
  preWorkflowRename := none
  preVersion := none
  metricsDailyMV := some legacyColumns
  calls := none
  usageMetrics := none
  ledger := files.take 3
  upgradeState := none
  workspaces := [[119]]

/-- Stopped between the renaming of the old rollup and the copy. -/
theorem upgrade_resumes_killed :
    Intact [⟨[117], [102], [], [], ()⟩] {⟨20000, [117], [], [102], [], [109], 3⟩}
        ((runMigrations ⟨true, [119]⟩).stopped 9 legacyRelease) ∧
      ((runMigrations ⟨true, [119]⟩).run ((runMigrations ⟨true, [119]⟩).stopped 9 legacyRelease)).isSome := by
  have legacy : Untouched [⟨[117], [102], [], [], ()⟩] {⟨20000, [117], [], [102], [], [109], 3⟩} legacyRelease :=
    ⟨⟨rfl, rfl, rfl, rfl, rfl⟩, rfl, rfl, rfl, rfl⟩
  have resumes := upgrade_resumes legacy
    (.attempt ⟨true, [119]⟩ .start (killed_stopped _ 9 _))
  exact ⟨resumes.1, (resumes.2 ⟨true, [119]⟩).1 (.inl ⟨rfl, by decide, by decide, by decide⟩)⟩

end Tracium.Upgrade
