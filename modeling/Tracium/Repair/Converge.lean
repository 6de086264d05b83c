import Tracium.Repair.Runner

/-! Repairing converges. A day is deleted and inserted by separate statements, any of
which may fail; what a successful run leaves depends on the spans and the other days
only, so it does not matter from which half-done state it set out. -/
namespace Tracium.Repair

open Go GroupBy Fallible

variable {U : Type} {sv : Server U}

section Dated

/-! A table of dated rows, day by day. -/

variable {R : Type} (day : R → Day)

def onDay (d : Day) (t : Multiset R) : Multiset R := t.filter (day · = d)

theorem onDay_clear_same (d : Day) (t : Multiset R) :
    onDay day d (t.filter (day · ≠ d)) = 0 := by
  rw [onDay, Multiset.filter_eq_nil]
  exact fun row member => (Multiset.mem_filter.mp member).2

theorem onDay_clear_other {d d' : Day} (apart : d' ≠ d) (t : Multiset R) :
    onDay day d' (t.filter (day · ≠ d)) = onDay day d' t := by
  rw [onDay, onDay, Multiset.filter_filter]
  apply Multiset.filter_congr
  rintro row -
  exact ⟨fun both => both.1, fun on => ⟨on, on ▸ apart⟩⟩

theorem onDay_add_other {d d' : Day} (apart : d' ≠ d) (t : Multiset R) {rows : List R}
    (dated : ∀ row ∈ rows, day row = d) : onDay day d' (t + rows) = onDay day d' t := by
  have none : onDay day d' (rows : Multiset R) = 0 := by
    rw [onDay, Multiset.filter_eq_nil]
    exact fun row member on => apart (on.symm.trans (dated row (Multiset.mem_coe.mp member)))
  rw [onDay, Multiset.filter_add, ← onDay, ← onDay, none, Multiset.add_zero]

/-- A cleared day into which rows of that day are inserted holds exactly these rows. -/
theorem onDay_replaced (d : Day) (t : Multiset R) {rows : List R}
    (dated : ∀ row ∈ rows, day row = d) :
    onDay day d (t.filter (day · ≠ d) + rows) = (rows : Multiset R) := by
  have all : onDay day d (rows : Multiset R) = rows := by
    rw [onDay, Multiset.filter_eq_self]
    exact fun row member => dated row (Multiset.mem_coe.mp member)
  rw [onDay, Multiset.filter_add, ← onDay, ← onDay, onDay_clear_same, all, Multiset.zero_add]

/-- A table is the sum of its days. -/
theorem ext_onDay {t t' : Multiset R} (same : ∀ d, onDay day d t' = onDay day d t) : t' = t := by
  classical
  ext row
  have counted := congrArg (Multiset.count row) (same (day row))
  simpa [onDay, Multiset.count_filter] using counted

end Dated

/-- dayPredicate selects exactly the rows of its bucket_date. -/
def Server.Agrees (sv : Server U) : Prop :=
  ∀ d ms, sv.dayStart d ≤ ms ∧ ms < sv.dayEnd d ↔ sv.toDate ms = d

/-- One day of a rollup is what the view makes of the day's current rows. -/
def Holds (sv : Server U) (rp : Rollup) (d : Day) (db : Database U) : Prop :=
  match rp with
  | .metricsDaily => onDay (·.bucketDate) d db.daily = metricsDailySelect sv
      (db.spans.filter fun r => r.source = .span ∧ sv.toDate r.startTimeMs = d)
  | .metricsDailyCost => onDay (·.bucketDate) d db.dailyCost = metricsDailyCostSelect sv
      (db.spans.filter fun r => sv.toDate r.startTimeMs = d)

/-- One day of a rollup is the same in both. -/
def SameDay (rp : Rollup) (d : Day) (db db' : Database U) : Prop :=
  match rp with
  | .metricsDaily => onDay (·.bucketDate) d db'.daily = onDay (·.bucketDate) d db.daily
  | .metricsDailyCost => onDay (·.bucketDate) d db'.dailyCost = onDay (·.bucketDate) d db.dailyCost

/-- The spans are left alone, and so is every day outside `touched`. -/
structure Frame (touched : Day → Prop) (db db' : Database U) : Prop where
  spans : db'.spans = db.spans
  days : ∀ rp d, ¬touched d → SameDay rp d db db'

theorem SameDay.refl (rp : Rollup) (d : Day) (db : Database U) : SameDay rp d db db := by
  cases rp <;> rfl

theorem SameDay.trans {rp : Rollup} {d : Day} {a b c : Database U} (first : SameDay rp d a b)
    (second : SameDay rp d b c) : SameDay rp d a c := by
  cases rp <;> exact Eq.trans second first

theorem SameDay.holds {rp : Rollup} {d : Day} {db db' : Database U} (same : SameDay rp d db db')
    (spans : db'.spans = db.spans) (holds : Holds sv rp d db) : Holds sv rp d db' := by
  cases rp with
  | metricsDaily =>
    simp only [Holds, spans]
    exact Eq.trans same holds
  | metricsDailyCost =>
    simp only [Holds, spans]
    exact Eq.trans same holds

theorem Frame.refl (touched : Day → Prop) (db : Database U) : Frame touched db db :=
  ⟨rfl, fun rp d _ => SameDay.refl rp d db⟩

theorem Frame.trans {touched : Day → Prop} (a b c : Database U) (first : Frame touched a b)
    (second : Frame touched b c) : Frame touched a c :=
  ⟨second.spans.trans first.spans,
    fun rp d apart => (first.days rp d apart).trans (second.days rp d apart)⟩

theorem Frame.mono {touched touched' : Day → Prop} {db db' : Database U}
    (frame : Frame touched db db') (wider : ∀ d, touched d → touched' d) : Frame touched' db db' :=
  ⟨frame.spans, fun rp d apart => frame.days rp d fun inside => apart (wider d inside)⟩

/-- Two databases with the same spans and the same days are the same. -/
theorem Database.ext_days {db db' : Database U} (spans : db'.spans = db.spans)
    (days : ∀ rp d, SameDay rp d db db') : db' = db := by
  obtain ⟨rows, daily, cost⟩ := db
  obtain ⟨rows', daily', cost'⟩ := db'
  obtain rfl : rows' = rows := spans
  have dailySame : daily' = daily := ext_onDay _ (days .metricsDaily)
  have costSame : cost' = cost := ext_onDay _ (days .metricsDailyCost)
  rw [dailySame, costSame]

/-! The two statements. -/

theorem deleteDay_frame (rp : Rollup) (d : Day) (db : Database U) :
    Frame (· = d) db (deleteDay rp d db) := by
  refine ⟨by cases rp <;> rfl, fun rp' d' apart => ?_⟩
  cases rp <;> cases rp'
  case metricsDaily.metricsDaily => exact onDay_clear_other _ apart _
  case metricsDailyCost.metricsDailyCost => exact onDay_clear_other _ apart _
  all_goals rfl

theorem metricsDailySelect_dated {rows : List SpanRow} {d : Day}
    (dated : ∀ r ∈ rows, sv.toDate r.startTimeMs = d) :
    ∀ row ∈ metricsDailySelect sv rows, row.bucketDate = d := by
  intro row member
  obtain ⟨g, grouped, rfl⟩ := List.mem_map.mp member
  obtain ⟨r, inRows, key⟩ := groupBy_key_mem grouped
  exact (congrArg DailyKey.bucketDate key).symm.trans (dated r inRows)

theorem metricsDailyCostSelect_dated {rows : List SpanRow} {d : Day}
    (dated : ∀ r ∈ rows, sv.toDate r.startTimeMs = d) :
    ∀ row ∈ metricsDailyCostSelect sv rows, row.bucketDate = d := by
  intro row member
  obtain ⟨g, grouped, rfl⟩ := List.mem_map.mp member
  obtain ⟨r, inRows, key⟩ := groupBy_key_mem grouped
  exact (congrArg DailyCostKey.bucketDate key).symm.trans (dated r inRows)

section Agreeing

variable (agrees : sv.Agrees)

include agrees

theorem dayPredicate_iff (d : Day) (r : SpanRow) :
    sv.dayPredicate d r = true ↔ sv.toDate r.startTimeMs = d := by
  rw [← agrees d r.startTimeMs, Server.dayPredicate, Bool.and_eq_true, decide_eq_true_eq,
    decide_eq_true_eq]

/-- The rows of the rebuild are the day's rows. -/
theorem dayRows_dated (db : Database U) (rp : Rollup) (d : Day) :
    ∀ r ∈ db.dayRows sv rp d, sv.toDate r.startTimeMs = d := by
  intro r member
  have kept := (List.mem_filter.mp member).2
  rw [Bool.and_eq_true] at kept
  exact (dayPredicate_iff agrees d r).mp kept.2

theorem dayRows_eq (db : Database U) (rp : Rollup) (d : Day) :
    db.dayRows sv rp d =
      db.spans.filter fun r => rp.reads r = true ∧ sv.toDate r.startTimeMs = d := by
  rw [Database.dayRows]
  congr 1
  funext r
  simp only [← dayPredicate_iff agrees d r, Bool.decide_and, Bool.decide_eq_true]

theorem rebuildInsert_frame (rp : Rollup) (d : Day) (db : Database U) :
    Frame (· = d) db (rebuildInsert sv rp d db) := by
  refine ⟨by cases rp <;> rfl, fun rp' d' apart => ?_⟩
  cases rp <;> cases rp'
  case metricsDaily.metricsDaily =>
    exact onDay_add_other _ apart _ (metricsDailySelect_dated (dayRows_dated agrees db _ d))
  case metricsDailyCost.metricsDailyCost =>
    exact onDay_add_other _ apart _ (metricsDailyCostSelect_dated (dayRows_dated agrees db _ d))
  all_goals rfl

/-- Deleting a day and inserting it again makes it what the view makes of its rows. -/
theorem rebuildInsert_deleteDay (rp : Rollup) (d : Day) (db : Database U) :
    Holds sv rp d (rebuildInsert sv rp d (deleteDay rp d db)) := by
  have dated := dayRows_dated agrees (deleteDay rp d db) rp d
  have rows := dayRows_eq agrees (deleteDay rp d db) rp d
  cases rp with
  | metricsDaily =>
    have replaced := onDay_replaced (·.bucketDate) d db.daily (metricsDailySelect_dated dated)
    simp only [Rollup.reads, beq_iff_eq] at rows
    apply replaced.trans
    rw [rows]
    rfl
  | metricsDailyCost =>
    have replaced := onDay_replaced (·.bucketDate) d db.dailyCost
      (metricsDailyCostSelect_dated dated)
    simp only [Rollup.reads, true_and] at rows
    apply replaced.trans
    rw [rows]
    rfl

end Agreeing

/-! The runner. -/

/-- The day is rebuilt whenever it is not refused. -/
def Due (sv : Server U) (o : Options) (db : Database U) (d : Day) : Prop :=
  db.statsRows sv d ≠ [] ∨ o.allowEmpty = true

theorem stats_congr {db db' : Database U} (spans : db'.spans = db.spans) (d : Day) (now : Int) :
    db'.stats sv d now = db.stats sv d now := by
  simp only [Database.stats, Database.statsRows, spans]

theorem Due.congr {o : Options} {db db' : Database U} (spans : db'.spans = db.spans) (d : Day) :
    Due sv o db' d ↔ Due sv o db d := by
  simp only [Due, Database.statsRows, spans]

theorem rawSpans_eq_zero_iff {db : Database U} {d : Day} {now : Int} :
    (db.stats sv d now).rawSpans = 0 ↔ db.statsRows sv d = [] := List.length_eq_zero_iff

theorem classify_rebuild_due {o : Options} {db : Database U} {d : Day} {now : Int}
    (rebuilt : (classify sv d (db.stats sv d now) o).1 = .rebuild) : Due sv o db d := by
  simp only [classify_action, rawSpans_eq_zero_iff] at rebuilt
  split at rebuilt
  · split at rebuilt
    · exact .inr (by assumption)
    · cases rebuilt
  · exact .inl (by assumption)

theorem classify_skip_not_due {o : Options} {db : Database U} {d : Day} {now : Int}
    (skipped : (classify sv d (db.stats sv d now) o).1 = .skipEmpty) : ¬Due sv o db d := by
  simp only [classify_action, rawSpans_eq_zero_iff] at skipped
  split at skipped
  · rename_i empty
    split at skipped
    · cases skipped
    · rename_i strict
      rintro (spans | allowed)
      · exact spans empty
      · exact strict allowed
  · split at skipped
    · cases skipped
    · split at skipped <;> cases skipped

section Run

variable (env : Env)

theorem exec_db (change : Database U → Database U) (s : Session U) :
    (exec env change s).1.db = s.db ∨ (exec env change s).1.db = change s.db := by
  rcases replied : env.reply s.statement with _ | ⟨_ | _, err⟩
  all_goals simp [exec, replied]

theorem exec_ok {env : Env} {change : Database U → Database U} {s : Session U}
    (ok : (exec env change s).2 = none) : (exec env change s).1.db = change s.db := by
  rcases replied : env.reply s.statement with _ | ⟨applied, err⟩
  all_goals simp [exec, replied] at ok ⊢

theorem query_db (s : Session U) : (query env s).1.db = s.db := by
  rcases exec_db env id s with same | same <;> exact same

/-- A command leaves the spans and the days outside `touched` alone, also when it fails. -/
def Keeps (touched : Database U → Day → Prop) (c : Command (Session U) Str) : Prop :=
  ∀ s, Frame (touched s.db) s.db (c s).1.db

theorem query_keeps (touched : Database U → Day → Prop) : Keeps touched (query env) := by
  intro s
  rw [query_db]
  exact Frame.refl _ _

theorem exec_keeps {touched : Database U → Day → Prop} {change : Database U → Database U}
    (frame : ∀ db, Frame (touched db) db (change db)) : Keeps touched (exec env change) := by
  intro s
  rcases exec_db env change s with same | changed
  · rw [same]
    exact Frame.refl _ _
  · rw [changed]
    exact frame s.db

/-- `touched` depends on the spans only, which no command changes. -/
theorem keeps_trans {touched : Database U → Day → Prop}
    (bySpans : ∀ db db' : Database U, db'.spans = db.spans → touched db' = touched db)
    (a b c : Session U) (first : Frame (touched a.db) a.db b.db)
    (second : Frame (touched b.db) b.db c.db) : Frame (touched a.db) a.db c.db := by
  rw [bySpans a.db b.db first.spans] at second
  exact Frame.trans _ _ _ first second

theorem rebuildRollup_ok {env : Env} {r : Runner} (wet : r.dryRun = false) {d : Day} {rp : Rollup}
    {s : Session U} (ok : (rebuildRollup sv env r d rp s).2 = none) :
    (rebuildRollup sv env r d rp s).1.db = rebuildInsert sv rp d (deleteDay rp d s.db) := by
  simp only [rebuildRollup, wet, Bool.false_eq_true, ↓reduceIte] at ok ⊢
  obtain ⟨deleted, inserted, last⟩ := andThen_ok ok
  rw [last, ← exec_ok (mapError_ok deleted)]
  exact exec_ok (mapError_ok inserted)

section Sequencing

variable {touched : Database U → Day → Prop}
  (bySpans : ∀ db db' : Database U, db'.spans = db.spans → touched db' = touched db)

include bySpans

theorem Keeps.andThen {first second : Command (Session U) Str} (firstKeeps : Keeps touched first)
    (secondKeeps : Keeps touched second) : Keeps touched (andThen first second) :=
  andThen_kept (keeps_trans bySpans) firstKeeps secondKeeps

theorem Keeps.forEach {α : Type} {body : α → Command (Session U) Str} {elements : List α}
    (keeps : ∀ a ∈ elements, Keeps touched (body a)) : Keeps touched (forEach body elements) :=
  forEach_kept (keeps_trans bySpans) (fun s => Frame.refl _ s.db) keeps

end Sequencing

/-- The drift check only reads. -/
theorem checkView_keeps (touched : Database U → Day → Prop)
    (bySpans : ∀ db db' : Database U, db'.spans = db.spans → touched db' = touched db)
    (rp : Rollup) : Keeps touched (checkView sv env rp) := by
  have read (wrap : Str → Str) : Keeps touched (mapError wrap (query env)) :=
    query_keeps env touched
  rw [checkView]
  apply Keeps.andThen bySpans (read _)
  split
  · exact fun s => Frame.refl _ s.db
  · apply Keeps.andThen bySpans (read _)
    apply Keeps.andThen bySpans (read _)
    split <;> exact fun s => Frame.refl _ s.db

/-- No day but this one. -/
def only (d : Day) (_ : Database U) (d' : Day) : Prop := d' = d

theorem only_bySpans (d : Day) (db db' : Database U) (_ : db'.spans = db.spans) :
    only d db' = only d db := rfl

section Rebuild

variable (agrees : sv.Agrees)

include agrees

theorem rebuildRollup_keeps (r : Runner) (d : Day) (rp : Rollup) :
    Keeps (only d) (rebuildRollup sv env r d rp) := by
  rw [rebuildRollup]
  split
  · exact fun s => Frame.refl _ s.db
  · apply Keeps.andThen (only_bySpans d)
    · exact exec_keeps env fun db => deleteDay_frame rp d db
    · exact exec_keeps env fun db => rebuildInsert_frame agrees rp d db

theorem rebuildRollup_holds {env : Env} {r : Runner} (wet : r.dryRun = false) {d : Day} {rp : Rollup}
    {s : Session U} (ok : (rebuildRollup sv env r d rp s).2 = none) :
    Holds sv rp d (rebuildRollup sv env r d rp s).1.db := by
  rw [rebuildRollup_ok wet ok]
  exact rebuildInsert_deleteDay agrees rp d s.db

/-- Rebuilding one rollup keeps what the other one holds. -/
theorem rebuildRollup_stable {env : Env} {r : Runner} (wet : r.dryRun = false) {d : Day} {rp rp' : Rollup}
    {s : Session U} (holds : Holds sv rp d s.db)
    (ok : (rebuildRollup sv env r d rp' s).2 = none) :
    Holds sv rp d (rebuildRollup sv env r d rp' s).1.db := by
  by_cases same : rp' = rp
  · subst same
    exact rebuildRollup_holds agrees wet ok
  · rw [rebuildRollup_ok wet ok]
    cases rp <;> cases rp'
    case metricsDaily.metricsDailyCost => exact holds
    case metricsDailyCost.metricsDaily => exact holds
    all_goals exact absurd rfl same

/-- repairDay touches its own day only, and only if that is due. -/
theorem repairDay_keeps (r : Runner) (d : Day) :
    Keeps (fun db d' => d' = d ∧ Due sv r.opts db d') (repairDay sv env r d) := by
  intro s
  have asked := query_db env s
  rcases queried : query env s with ⟨s', _ | err⟩
  · have same : s'.db = s.db := by simpa only [queried] using asked
    rcases decided : classify sv d (s.db.stats sv d (env.now s.statement)) r.opts with ⟨action, reason⟩
    cases action with
    | rebuild =>
      have due : Due sv r.opts s.db d := classify_rebuild_due (congrArg Prod.fst decided)
      have frame : Frame (only d s'.db) s'.db (forEach (rebuildRollup sv env r d) rollups s').1.db :=
        Keeps.forEach (only_bySpans d) (fun rp _ => rebuildRollup_keeps env agrees r d rp) s'
      rw [same] at frame
      simp only [repairDay, queried, decided]
      exact frame.mono fun d' this => ⟨this, this ▸ due⟩
    | skipEmpty | refuseOpen | refuseTimezone =>
      simp only [repairDay, queried, decided, same]
      exact Frame.refl _ _
  · have same : s'.db = s.db := by simpa only [queried] using asked
    simp only [repairDay, queried, same]
    exact Frame.refl _ _

/-- A due day that is repaired without error holds the view's aggregate in both rollups. -/
theorem repairDay_holds {env : Env} {r : Runner} (wet : r.dryRun = false) {d : Day} {s : Session U}
    (ok : (repairDay sv env r d s).2 = none) (due : Due sv r.opts s.db d) :
    ∀ rp ∈ rollups, Holds sv rp d (repairDay sv env r d s).1.db := by
  rcases queried : query env s with ⟨s', _ | err⟩
  · rcases decided : classify sv d (s.db.stats sv d (env.now s.statement)) r.opts with ⟨action, reason⟩
    cases action with
    | rebuild =>
      simp only [repairDay, queried, decided] at ok ⊢
      exact forEach_ok (Q := fun rp s => Holds sv rp d s.db)
        (fun rp s ok => rebuildRollup_holds agrees wet ok)
        (fun rp rp' s holds ok => rebuildRollup_stable agrees wet holds ok) ok
    | skipEmpty => exact absurd due (classify_skip_not_due (congrArg Prod.fst decided))
    | refuseOpen | refuseTimezone => simp [repairDay, queried, decided] at ok
  · simp [repairDay, queried] at ok

omit agrees in
/-- A due day is repaired without error only when it was classified so. -/
theorem repairDay_classified {env : Env} {r : Runner} {d : Day} {s : Session U}
    (ok : (repairDay sv env r d s).2 = none) (due : Due sv r.opts s.db d) :
    ∃ now, (classify sv d (s.db.stats sv d now) r.opts).1 = .rebuild := by
  refine ⟨env.now s.statement, ?_⟩
  rcases queried : query env s with ⟨s', _ | err⟩
  · rcases decided : classify sv d (s.db.stats sv d (env.now s.statement)) r.opts with ⟨action, reason⟩
    cases action with
    | rebuild => rfl
    | skipEmpty => exact absurd due (classify_skip_not_due (congrArg Prod.fst decided))
    | refuseOpen | refuseTimezone => simp [repairDay, queried, decided] at ok
  · simp [repairDay, queried] at ok

/-- The days of a run that are due. -/
def Touched (sv : Server U) (o : Options) (days : List Day) (db : Database U) (d : Day) : Prop :=
  d ∈ days ∧ Due sv o db d

omit agrees in
theorem Touched.congr (o : Options) (days : List Day) (db db' : Database U)
    (spans : db'.spans = db.spans) : Touched sv o days db' = Touched sv o days db := by
  funext d
  simp only [Touched, Due.congr spans d]

theorem run_frame (r : Runner) (days : List Day) (db : Database U) :
    Frame (Touched sv r.opts days db) db (run sv env r days db).1 := by
  have days_kept : Keeps (Touched sv r.opts days) (forEach (repairDay sv env r) days) := by
    apply Keeps.forEach (Touched.congr r.opts days)
    intro d member s
    exact (repairDay_keeps env agrees r d s).mono fun d' inside => ⟨inside.1 ▸ member, inside.2⟩
  have checked : Keeps (Touched sv r.opts days) (preflight sv env) :=
    Keeps.forEach (Touched.congr r.opts days) fun rp _ =>
      checkView_keeps env _ (Touched.congr r.opts days) rp
  exact Keeps.andThen (Touched.congr r.opts days) checked days_kept ⟨db, 0⟩

/-- What a repair establishes of a due day and later repairs keep holds of every due day
when the run is over. -/
theorem run_each {env : Env} {r : Runner} {P : Day → Database U → Prop}
    (established : ∀ d s, (repairDay sv env r d s).2 = none → Due sv r.opts s.db d →
      P d (repairDay sv env r d s).1.db)
    (stable : ∀ d e s, d ≠ e → P d s.db → P d (repairDay sv env r e s).1.db)
    {days : List Day} {db db' : Database U} (ran : run sv env r days db = (db', none)) {d : Day}
    (touched : Touched sv r.opts days db d) : P d db' := by
  obtain ⟨member, due⟩ := touched
  have frame := run_frame env agrees r days db
  rw [ran] at frame
  simp only [run, Prod.mk.injEq] at ran
  obtain ⟨rfl, ok⟩ := ran
  obtain ⟨-, repaired, last⟩ := andThen_ok ok
  have dueLast := (Due.congr frame.spans d).mpr due
  rw [last] at dueLast ⊢
  -- Every later day either is this one again or leaves it alone.
  have each : ∀ d ∈ days, Due sv r.opts _ d → P d _ :=
    forEach_ok (Q := fun d (s : Session U) => Due sv r.opts s.db d → P d s.db) ?_ ?_ repaired
  · exact each d member dueLast
  · intro d s ok due
    have spans := (repairDay_keeps env agrees r d s).spans
    exact established d s ok ((Due.congr spans d).mp due)
  · intro d e s holds ok due
    have dueBefore := (Due.congr (repairDay_keeps env agrees r e s).spans d).mp due
    by_cases same : d = e
    · subst same
      exact established d s ok dueBefore
    · exact stable d e s same (holds dueBefore)

theorem run_holds {env : Env} {r : Runner} (wet : r.dryRun = false) {days : List Day} {db db' : Database U}
    (ran : run sv env r days db = (db', none)) {d : Day} (touched : Touched sv r.opts days db d)
    (rp : Rollup) : Holds sv rp d db' := by
  have listed : rp ∈ rollups := by cases rp <;> decide
  have each : ∀ rp ∈ rollups, Holds sv rp d db' := by
    apply run_each agrees (P := fun d db => ∀ rp ∈ rollups, Holds sv rp d db) ?_ ?_ ran touched
    · intro d s ok due
      exact repairDay_holds agrees wet ok due
    · intro d e s apart holds rp listed
      have kept := repairDay_keeps env agrees r e s
      exact (kept.days rp d fun inside => apart inside.1).holds kept.spans (holds rp listed)
  exact each rp listed

theorem run_classified {env : Env} {r : Runner} {days : List Day} {db db' : Database U}
    (ran : run sv env r days db = (db', none)) {d : Day} (touched : Touched sv r.opts days db d) :
    ∃ now, (classify sv d (db.stats sv d now) r.opts).1 = .rebuild := by
  have frame := run_frame env agrees r days db
  rw [ran] at frame
  simp only [← stats_congr frame.spans d]
  apply run_each agrees
    (P := fun d db => ∃ now, (classify sv d (db.stats sv d now) r.opts).1 = .rebuild) ?_ ?_ ran touched
  · intro d s ok due
    simp only [stats_congr (repairDay_keeps env agrees r d s).spans d]
    exact repairDay_classified ok due
  · intro d e s _ classified
    simp only [stats_congr (repairDay_keeps env agrees r e s).spans d]
    exact classified

end Rebuild

end Run

/-- The database a repair of these days leads to: the due days as the views have them,
everything else as it was. -/
structure Restored (sv : Server U) (o : Options) (days : List Day) (db db' : Database U) : Prop where
  spans : db'.spans = db.spans
  rebuilt : ∀ rp d now, d ∈ days → (classify sv d (db.stats sv d now) o).1 = .rebuild →
    Holds sv rp d db'
  unchanged : ∀ rp d, (d ∈ days → ∀ now, (classify sv d (db.stats sv d now) o).1 ≠ .rebuild) →
    SameDay rp d db db'

/-- Runs over the same days from one database that all end well end alike. -/
theorem holds_unique {rp : Rollup} {d : Day} {db db' : Database U} (spans : db'.spans = db.spans)
    (holds : Holds sv rp d db) (holds' : Holds sv rp d db') : SameDay rp d db db' := by
  cases rp with
  | metricsDaily =>
    simp only [Holds, spans] at holds holds'
    exact holds'.trans holds.symm
  | metricsDailyCost =>
    simp only [Holds, spans] at holds holds'
    exact holds'.trans holds.symm

/-- Whatever the attempts before it left half done, a run that returns nil leads to the
same database: the classified days are what the views make of the current rows in both
rollups, every other day is unchanged, and a further run changes nothing. -/
theorem run_restores_and_converges (agrees : sv.Agrees) (r : Runner) (wet : r.dryRun = false)
    (days : List Day) (db : Database U) {env : Env} {db' : Database U}
    (ran : run sv env r days db = (db', none)) :
    Restored sv r.opts days db db' ∧
      (∀ again db'', run sv again r days db' = (db'', none) → db'' = db') ∧
      ∀ (attempts : List Env) last db'',
        run sv last r days (attempts.foldl (fun db env => (run sv env r days db).1) db) =
          (db'', none) → db'' = db' := by
  have frame := run_frame env agrees r days db
  rw [ran] at frame
  have converges : ∀ (middle : Database U), Frame (Touched sv r.opts days db) db middle →
      ∀ last db'', run sv last r days middle = (db'', none) → db'' = db' := by
    intro middle reached last db'' finished
    have lastFrame := run_frame last agrees r days middle
    rw [finished, Touched.congr r.opts days db middle reached.spans] at lastFrame
    have spans : db''.spans = db'.spans :=
      (lastFrame.spans.trans reached.spans).trans frame.spans.symm
    apply Database.ext_days spans
    intro rp d
    by_cases touched : Touched sv r.opts days db d
    · have holds := run_holds agrees wet ran touched rp
      rw [← Touched.congr r.opts days db middle reached.spans] at touched
      exact holds_unique spans holds (run_holds agrees wet finished touched rp)
    · have there := (reached.days rp d touched).trans (lastFrame.days rp d touched)
      have here := frame.days rp d touched
      cases rp <;> exact Eq.trans there (Eq.symm here)
  refine ⟨⟨frame.spans, ?_, ?_⟩, converges db' frame, ?_⟩
  · intro rp d now member rebuilt
    exact run_holds agrees wet ran ⟨member, classify_rebuild_due rebuilt⟩ rp
  · intro rp d never
    apply frame.days
    intro touched
    obtain ⟨now, rebuilt⟩ := run_classified agrees ran touched
    exact never touched.1 now rebuilt
  · intro attempts
    apply converges
    -- An attempt, failed or not, touches due days only.
    suffices ∀ middle, Frame (Touched sv r.opts days db) db middle →
        Frame (Touched sv r.opts days db) db
          (attempts.foldl (fun db env => (run sv env r days db).1) middle) from
      this db (Frame.refl _ _)
    induction attempts with
    | nil => exact fun middle reached => reached
    | cons attempt rest ih =>
      intro middle reached
      have next := run_frame attempt agrees r days middle
      rw [Touched.congr r.opts days db middle reached.spans] at next
      exact ih _ (Frame.trans _ _ _ reached next)

/-! A repair after an interrupted one. -/

/-- A server in UTC whose distinct counts are the lists of ids. -/
def utcServer : Server (List Str) where
  toDate := fun ms => ms / 86400000
  dayStart := fun d => d * 86400000
  dayEnd := fun d => (d + 1) * 86400000
  dateString := itoa
  asSelect := fun view => lit "view " ++ view
  explain := fun _ => [lit "SELECT 1"]
  uniqState := id

theorem utcServer_agrees : utcServer.Agrees := by
  intro (d : Int) ms
  change d * 86400000 ≤ ms ∧ ms < (d + 1) * 86400000 ↔ ms / 86400000 = d
  omega

/-- Every statement succeeds, at one time. -/
def calm : Env := ⟨fun _ => .ok, fun _ => 2000000⟩

/-- The connection is lost at the insert into metrics_daily. -/
def lost : Env := ⟨fun k => if k = 8 then .failed false (lit "broken pipe") else .ok, fun _ => 2000000⟩

def repairer : Runner := ⟨⟨300, false, false⟩, false⟩

/-- One span and one metric row of day 20, and rollups that hold something else. -/
def damaged : Database (List Str) where
  spans := [⟨1728000000, 1728000, .span, [], lit "w", [], [], lit "m", [], 2, 10, 20, lit "t", [], []⟩,
    ⟨1728000500, 1728001, .metric, [], lit "w", [], [], [], [], 3, 0, 0, [], [], []⟩]
  daily := {⟨⟨20, [], lit "w", [], [], lit "m"⟩, 1000000, 10, 20, 1, [lit "t"], []⟩}
  dailyCost := {⟨⟨20, [], lit "w"⟩, 1000000, 3⟩, ⟨⟨19, [], lit "w"⟩, 7, 0⟩}

theorem damaged_repaired :
    (run utcServer lost repairer [20] damaged).2 =
        some (lit "rebuild tracium.metrics_daily for 20: broken pipe") ∧
      (run utcServer calm repairer [20] damaged).2 = none ∧
      Holds utcServer .metricsDaily 20 (run utcServer calm repairer [20] damaged).1 ∧
      SameDay .metricsDailyCost 19 damaged (run utcServer calm repairer [20] damaged).1 ∧
      (run utcServer calm repairer [20] (run utcServer lost repairer [20] damaged).1).1 =
        (run utcServer calm repairer [20] damaged).1 := by
  have interrupted : (run utcServer lost repairer [20] damaged).2 =
      some (lit "rebuild tracium.metrics_daily for 20: broken pipe") := by decide +kernel
  have finished : (run utcServer calm repairer [20] damaged).2 = none := by decide +kernel
  have retried : (run utcServer calm repairer [20]
      (run utcServer lost repairer [20] damaged).1).2 = none := by decide +kernel
  have open_ : (classify utcServer 20 (damaged.stats utcServer 20 2000000) repairer.opts).1 =
      .rebuild := by decide +kernel
  obtain ⟨restored, -, converges⟩ := run_restores_and_converges utcServer_agrees repairer rfl [20]
    damaged (Prod.ext rfl finished)
  refine ⟨interrupted, finished, ?_, ?_, ?_⟩
  · exact restored.rebuilt .metricsDaily 20 2000000 (List.mem_singleton.mpr rfl) open_
  · exact restored.unchanged .metricsDailyCost 19 fun member => by simp at member
  · exact converges [lost] calm _ (Prod.ext rfl retried)

end Tracium.Repair
