import Mathlib.Tactic.Tauto
import Tracium.Repair.Converge

/-! The quiescence guard. Its statistics count span rows only, while metrics_daily_cost
is rebuilt from metric rows as well. -/
namespace Tracium.Repair

open Go Fallible

variable {U : Type} {sv : Server U}

/-- The rows that contribute to a rollup of this day. -/
def Database.contributes (sv : Server U) (db : Database U) (d : Day) (r : SpanRow) : Prop :=
  ∃ rp ∈ rollups, r ∈ db.dayRows sv rp d

/-- Received at least this long before the stats were read. -/
def SpanRow.Settled (o : Options) (now : Int) (r : SpanRow) : Prop :=
  o.quiesceSeconds ≤ now - r.receivedAt

instance (o : Options) (now : Int) (r : SpanRow) : Decidable (r.Settled o now) :=
  inferInstanceAs (Decidable (_ ≤ _))

theorem contributes_iff {db : Database U} {d : Day} {r : SpanRow} :
    db.contributes sv d r ↔ r ∈ db.spans ∧ sv.dayPredicate d r = true := by
  simp [Database.contributes, rollups, Database.dayRows, Rollup.reads]
  tauto

theorem mem_statsRows {db : Database U} {d : Day} {r : SpanRow} :
    r ∈ db.statsRows sv d ↔ r ∈ db.spans ∧ r.source = .span ∧ sv.dayPredicate d r = true := by
  simp [Database.statsRows]

/-! What the statistics say about the rows. -/

section Stats

variable {db : Database U} {d : Day} (some_ : db.statsRows sv d ≠ [])

include some_

theorem stats_oneDay_iff (now : Int) :
    ((db.stats sv d now).distinctDays = 1 ∧ (db.stats sv d now).minDay = d ∧
        (db.stats sv d now).maxDay = d) ↔
      ∀ r ∈ db.statsRows sv d, sv.toDate r.startTimeMs = d := by
  have nonempty : ((db.statsRows sv d).map fun r => sv.toDate r.startTimeMs) ≠ [] := by
    simpa using some_
  have all : (∀ r ∈ db.statsRows sv d, sv.toDate r.startTimeMs = d) ↔
      ∀ e ∈ (db.statsRows sv d).map fun r => sv.toDate r.startTimeMs, e = d := by simp
  simp only [Database.stats, all]
  generalize ((db.statsRows sv d).map fun r => sv.toDate r.startTimeMs) = days at nonempty
  obtain ⟨low, lowest⟩ := Option.ne_none_iff_exists'.mp (mt List.min?_eq_none_iff.mp nonempty)
  obtain ⟨high, highest⟩ := Option.ne_none_iff_exists'.mp (mt List.max?_eq_none_iff.mp nonempty)
  obtain ⟨lowIn, lowLe⟩ := List.min?_eq_some_iff.mp lowest
  obtain ⟨highIn, leHigh⟩ := List.max?_eq_some_iff.mp highest
  rw [lowest, highest, Option.getD_some, Option.getD_some]
  constructor
  · rintro ⟨-, rfl, same⟩ e member
    exact le_antisymm ((leHigh e member).trans_eq same) (lowLe e member)
  · intro same
    refine ⟨?_, same low lowIn, same high highIn⟩
    have repeated : days = List.replicate days.length d := List.eq_replicate_of_mem same
    have several : days.length ≠ 0 := mt List.length_eq_zero_iff.mp nonempty
    rw [repeated, List.replicate_dedup several]
    rfl

theorem stats_settled_iff (o : Options) (now : Int) :
    ¬(db.stats sv d now).ageSeconds < o.quiesceSeconds ↔
      ∀ r ∈ db.statsRows sv d, r.Settled o now := by
  have nonempty : (db.statsRows sv d).map SpanRow.receivedAt ≠ [] := by simpa using some_
  obtain ⟨newest, found⟩ := Option.ne_none_iff_exists'.mp (mt List.max?_eq_none_iff.mp nonempty)
  obtain ⟨member, newer⟩ := List.max?_eq_some_iff.mp found
  obtain ⟨latest, inRows, rfl⟩ := List.mem_map.mp member
  simp only [Database.stats, found, Option.getD_some, SpanRow.Settled]
  constructor
  · intro quiet r inside
    have older := newer r.receivedAt (List.mem_map_of_mem inside)
    omega
  · intro settled
    have last := settled latest inRows
    omega

end Stats

/-- When a day is rebuilt without force, row by row. -/
theorem classify_rebuild_iff {db : Database U} {d : Day} {o : Options} (unforced : o.force = false)
    (now : Int) :
    (classify sv d (db.stats sv d now) o).1 = .rebuild ↔
      (db.statsRows sv d = [] ∧ o.allowEmpty = true) ∨
      (db.statsRows sv d ≠ [] ∧ ∀ r ∈ db.statsRows sv d,
        sv.toDate r.startTimeMs = d ∧ r.Settled o now) := by
  have counted : (db.stats sv d now).rawSpans = 0 ↔ db.statsRows sv d = [] :=
    List.length_eq_zero_iff
  by_cases empty : db.statsRows sv d = []
  · simp [classify_action, counted.mpr empty, empty]
  · have oneDay := stats_oneDay_iff empty now
    have settled := stats_settled_iff empty o now
    simp only [classify_action, mt counted.mp empty, empty, unforced, ↓reduceIte, and_true,
      false_and, false_or, not_false_eq_true, true_and, ne_eq, forall_and, ← oneDay, ← settled]
    split
    · rename_i mixed
      simp only [reduceCtorEq, false_iff]
      tauto
    · rename_i single
      split
      · rename_i young
        simp [young]
      · rename_i old
        simp only [true_iff]
        tauto

/-! Whether the guard covers every row. -/

/-- repairDay goes on to the statement after its stats. -/
def Proceeds (sv : Server U) (env : Env) (r : Runner) (d : Day) (s : Session U) : Prop :=
  s.statement + 1 < (repairDay sv env r d s).1.statement

theorem exec_statement (env : Env) (change : Database U → Database U) (s : Session U) :
    (exec env change s).1.statement = s.statement + 1 := by
  rw [exec]
  split <;> rfl

theorem rebuildRollup_advances (env : Env) {r : Runner} (wet : r.dryRun = false) (d : Day)
    (rp : Rollup) (s : Session U) :
    s.statement < (rebuildRollup sv env r d rp s).1.statement := by
  have first := exec_statement env (deleteDay rp d) s
  simp only [rebuildRollup, wet, Bool.false_eq_true, ↓reduceIte]
  rcases deleted : exec env (deleteDay rp d) s with ⟨s', _ | err⟩
  · have second := exec_statement env (rebuildInsert sv rp d) s'
    simp only [andThen, mapError, deleted, Option.map_none] at first ⊢
    omega
  · simp only [andThen, mapError, deleted, Option.map_some] at first ⊢
    omega

theorem rebuild_advances (env : Env) {r : Runner} (wet : r.dryRun = false) (d : Day)
    (s : Session U) :
    s.statement < (forEach (rebuildRollup sv env r d) rollups s).1.statement := by
  have later (s : Session U) :
      s.statement ≤ (forEach (rebuildRollup sv env r d) [.metricsDailyCost] s).1.statement :=
    forEach_kept (R := fun s s' : Session U => s.statement ≤ s'.statement)
      (fun _ _ _ => Nat.le_trans) (fun _ => Nat.le_refl _)
      (fun rp _ s => (rebuildRollup_advances env wet d rp s).le) s
  have first : s.statement < (rebuildRollup sv env r d .metricsDaily s).1.statement :=
    rebuildRollup_advances env wet d .metricsDaily s
  rcases ran : rebuildRollup sv env r d .metricsDaily s with ⟨s', _ | err⟩
  · have rest := later s'
    simp only [rollups, forEach, andThen, ran] at first rest ⊢
    omega
  · simpa only [rollups, forEach, andThen, ran] using first

/-- It does so exactly when the stats were read and the day was classified Rebuild. -/
theorem proceeds_iff (env : Env) {r : Runner} (wet : r.dryRun = false) (d : Day) (s : Session U) :
    Proceeds sv env r d s ↔ env.reply s.statement = .ok ∧
      (classify sv d (s.db.stats sv d (env.now s.statement)) r.opts).1 = .rebuild := by
  rcases replied : env.reply s.statement with _ | ⟨applied, err⟩
  · have queried : query env s = (⟨s.db, s.statement + 1⟩, none) := by
      simp [query, exec, replied]
    rcases decided : classify sv d (s.db.stats sv d (env.now s.statement)) r.opts with ⟨action, reason⟩
    cases action with
    | rebuild =>
      have advanced : s.statement + 1 < (forEach (rebuildRollup sv env r d) rollups
          ⟨s.db, s.statement + 1⟩).1.statement := rebuild_advances env wet d ⟨s.db, s.statement + 1⟩
      simpa [Proceeds, repairDay, queried, decided] using advanced
    | skipEmpty | refuseOpen | refuseTimezone => simp [Proceeds, repairDay, queried, decided]
  · simp [Proceeds, repairDay, query, exec, replied]

/-- A rebuild leaves the guard's promise intact on a day exactly when its metric rows have
settled too, or a span row keeps the day from being rebuilt: a young one, or one of
another bucket_date, or none at all without --allow-empty. -/
theorem repairDay_guarded_iff (r : Runner) (wet : r.dryRun = false)
    (unforced : r.opts.force = false) (d : Day) (s : Session U) (now : Int) :
    (∀ env, env.now s.statement = now → Proceeds sv env r d s →
        ∀ row, s.db.contributes sv d row → row.Settled r.opts now) ↔
      (∀ row ∈ s.db.spans, sv.dayPredicate d row = true → row.source = .metric →
        row.Settled r.opts now) ∨
      (∃ row ∈ s.db.spans, sv.dayPredicate d row = true ∧ row.source = .span ∧
        (¬row.Settled r.opts now ∨ sv.toDate row.startTimeMs ≠ d)) ∨
      ((∀ row ∈ s.db.spans, sv.dayPredicate d row = true → row.source = .metric) ∧
        r.opts.allowEmpty = false) := by
  have empty_iff : s.db.statsRows sv d = [] ↔
      ∀ row ∈ s.db.spans, sv.dayPredicate d row = true → row.source = .metric := by
    simp only [List.eq_nil_iff_forall_not_mem, mem_statsRows]
    refine forall_congr' fun row => ⟨fun absent inside today => ?_, fun metric found => ?_⟩
    · cases kind : row.source with
      | span => exact absurd ⟨inside, kind, today⟩ absent
      | metric => rfl
    · have := metric found.1 found.2.2
      rw [found.2.1] at this
      cases this
  have rebuilt_iff : (classify sv d (s.db.stats sv d now) r.opts).1 = .rebuild ↔ _ :=
    classify_rebuild_iff unforced now
  constructor
  · intro guarded
    by_cases rebuilt : (classify sv d (s.db.stats sv d now) r.opts).1 = .rebuild
    · left
      intro row inside today _
      apply guarded ⟨fun _ => .ok, fun _ => now⟩ rfl
      · exact (proceeds_iff _ wet d s).mpr ⟨rfl, rebuilt⟩
      · exact contributes_iff.mpr ⟨inside, today⟩
    · right
      rw [rebuilt_iff, not_or] at rebuilt
      obtain ⟨noEmpty, refused⟩ := rebuilt
      by_cases empty : s.db.statsRows sv d = []
      · right
        exact ⟨empty_iff.mp empty, Bool.eq_false_iff.mpr fun allowed => noEmpty ⟨empty, allowed⟩⟩
      · left
        push Not at refused
        obtain ⟨row, inside, broken⟩ := refused empty
        obtain ⟨stored, span, today⟩ := mem_statsRows.mp inside
        refine ⟨row, stored, today, span, ?_⟩
        by_cases dated : sv.toDate row.startTimeMs = d
        · exact .inl (broken dated)
        · exact .inr dated
  · rintro condition env rfl proceeds row contributing
    obtain ⟨-, rebuilt⟩ := (proceeds_iff env wet d s).mp proceeds
    obtain ⟨stored, today⟩ := contributes_iff.mp contributing
    rw [rebuilt_iff] at rebuilt
    rcases condition with settled | ⟨other, inside, otherToday, span, broken⟩ | ⟨metric, strict⟩
    · cases kind : row.source with
      | metric => exact settled row stored today kind
      | span =>
        have inRows := mem_statsRows.mpr ⟨stored, kind, today⟩
        rcases rebuilt with ⟨empty, -⟩ | ⟨-, all⟩
        · rw [empty] at inRows
          cases inRows
        · exact (all row inRows).2
    · have inRows := mem_statsRows.mpr ⟨inside, span, otherToday⟩
      rcases rebuilt with ⟨empty, -⟩ | ⟨-, all⟩
      · rw [empty] at inRows
        cases inRows
      · rcases broken with young | elsewhere
        · exact absurd (all other inRows).2 young
        · exact absurd (all other inRows).1 elsewhere
    · rcases rebuilt with ⟨-, allowed⟩ | ⟨some_, -⟩
      · rw [strict] at allowed
        cases allowed
      · exact absurd (empty_iff.mpr metric) some_

/-- The day of `damaged`, with a metric row that arrived ten seconds ago. -/
def metered : Database (List Str) :=
  { damaged with spans := damaged.spans ++
      [⟨1728000900, 1999990, .metric, [], lit "w", [], [], [], [], 4, 0, 0, [], [], []⟩] }

theorem metered_day_rebuilt :
    repairer.opts.force = false ∧ Proceeds utcServer calm repairer 20 ⟨metered, 0⟩ ∧
      ∃ row, metered.contributes utcServer 20 row ∧
        ¬row.Settled repairer.opts (calm.now 0) := by
  refine ⟨rfl, ?_, metered.spans.getLast (by decide), ?_, by decide⟩
  · have advanced : (0 : Nat) + 1 <
        (repairDay utcServer calm repairer 20 ⟨metered, 0⟩).1.statement := by decide +kernel
    exact advanced
  · exact contributes_iff.mpr ⟨List.getLast_mem _, by decide +kernel⟩

theorem damaged_day_guarded :
    Proceeds utcServer calm repairer 20 ⟨damaged, 0⟩ ∧
      ∀ row, damaged.contributes utcServer 20 row → row.Settled repairer.opts 2000000 := by
  have proceeds : Proceeds utcServer calm repairer 20 ⟨damaged, 0⟩ := by
    have advanced : (0 : Nat) + 1 <
        (repairDay utcServer calm repairer 20 ⟨damaged, 0⟩).1.statement := by decide +kernel
    exact advanced
  refine ⟨proceeds, ?_⟩
  apply (repairDay_guarded_iff repairer rfl rfl 20 ⟨damaged, 0⟩ 2000000).mpr _ calm rfl proceeds
  left
  intro row inside _ _
  simp only [damaged, List.mem_cons, List.not_mem_nil, or_false] at inside
  rcases inside with rfl | rfl <;> decide

end Tracium.Repair
