import Tracium.Noninterference
import Tracium.Tenancy.Services

/-! Isolation of tenants from end to end: what a user reads of the spans and their rollups does
not depend on anything that was sent to workspaces they are no member of. -/
namespace Tracium.Tenancy

open Go Query
open Repair (Server)

variable {F U ρ : Type}

/-! The observer: somebody who reads the workspaces that are `mine`. -/

section Observer

variable (mine : Str → Bool)

def restrict (w : Rollup.Warehouse U) : Rollup.Warehouse U where
  spans := w.spans.filter (mine ·.workspaceID)
  daily := w.daily.filter (mine ·.workspaceID)
  dailyCost := w.dailyCost.filter (mine ·.workspaceID)
  inserted := w.inserted.filter (mine ·.workspaceID)
  horizon := w.horizon

def World.only (s : World F U) : World F U where
  system := s.system
  stored := s.stored.filter (mine ·.workspaceID)
  rollups := restrict mine s.rollups

/-- All of keys, members and verdicts; of the inserts and merges those of `mine`. -/
def view : Action F U → Option (Action F U)
  | .grant a => some (.grant a)
  | .insert picks receivedAt =>
    let own := picks.filter fun p => mine p.1.workspaceID
    if own.isEmpty then none else some (.insert own receivedAt)
  | .background (.mergeDaily part) =>
    if part.all (mine ·.workspaceID) then some (.background (.mergeDaily part)) else none
  | .background (.mergeCost part) =>
    if part.all (mine ·.workspaceID) then some (.background (.mergeCost part)) else none
  | .background a => some (.background a)

end Observer

variable {d : Deployment F U} {mine : Str → Bool} {s s' : World F U}

theorem block_filter (picks : List (Export F × Nat)) :
    d.block (picks.filter fun p => mine p.1.workspaceID) = (d.block picks).filter (mine ·.workspaceID) := by
  rw [Deployment.block, Deployment.block, List.filterMap_filter, List.filter_filterMap]
  refine List.filterMap_congr fun p _ => ?_
  cases row : d.pick p with
  | none => simp
  | some r =>
    have own : r.workspaceID = p.1.workspaceID := rows_workspaceID (List.mem_of_getElem? row)
    simp [Option.filter, own]

/-! The rollups group by workspace, so an observer's part of them is made of its own rows. -/

theorem metricsDailySelect_filter (sv : Server U) (block : List Repair.SpanRow) :
    Repair.metricsDailySelect sv (block.filter (mine ·.workspaceID)) =
      (Repair.metricsDailySelect sv block).filter (mine ·.workspaceID) := by
  unfold Repair.metricsDailySelect
  rw [List.filter_map]
  exact congrArg _ (GroupBy.groupBy_filter (Rollup.dailyKey sv) (mine ·.workspaceID) block)

theorem metricsDailyCostSelect_filter (sv : Server U) (block : List Repair.SpanRow) :
    Repair.metricsDailyCostSelect sv (block.filter (mine ·.workspaceID)) =
      (Repair.metricsDailyCostSelect sv block).filter (mine ·.workspaceID) := by
  unfold Repair.metricsDailyCostSelect
  rw [List.filter_map]
  exact congrArg _ (GroupBy.groupBy_filter (Rollup.dailyCostKey sv) (mine ·.workspaceID) block)

theorem insertBlock_restrict (mine : Str → Bool) (sv : Server U) (w : Rollup.Warehouse U) (block : List Repair.SpanRow) :
    Rollup.insertBlock sv (restrict mine w) (block.filter (mine ·.workspaceID)) =
      restrict mine (Rollup.insertBlock sv w block) := by
  have spans : (block.filter (mine ·.workspaceID)).filter (w.horizon ≤ ·.startTimeMs) =
      (block.filter (w.horizon ≤ ·.startTimeMs)).filter (mine ·.workspaceID) := List.filter_comm ..
  have daily : Repair.metricsDailySelect sv ((block.filter (mine ·.workspaceID)).filter Repair.Rollup.metricsDaily.reads) =
      (Repair.metricsDailySelect sv (block.filter Repair.Rollup.metricsDaily.reads)).filter (mine ·.workspaceID) := by
    rw [← metricsDailySelect_filter, List.filter_comm]
  have dailyCost : Repair.metricsDailyCostSelect sv
        ((block.filter (mine ·.workspaceID)).filter Repair.Rollup.metricsDailyCost.reads) =
      (Repair.metricsDailyCostSelect sv (block.filter Repair.Rollup.metricsDailyCost.reads)).filter (mine ·.workspaceID) := by
    rw [← metricsDailyCostSelect_filter, List.filter_comm]
  simp only [Rollup.insertBlock, restrict, List.filter_append, Multiset.filter_add, Multiset.filter_coe,
    daily, dailyCost, Bool.decide_eq_true]
  exact congrArg (fun new => (⟨⟨w.spans.filter (mine ·.workspaceID) ++ new, _, _⟩, _, _⟩ : Rollup.Warehouse U)) spans

/-- The rows of a merge are all kept or all left out; a merge of kept rows is one within
what is kept of the table, and no other is seen there. -/
theorem filter_merge {R : Type} [DecidableEq R] {q : R → Bool} {table : Multiset R} {first : R}
    {rest : List R} (row : R) (among : (first :: rest : List R) ≤ table) (alike : ∀ r ∈ rest, q r = q first)
    (merged : q row = q first) :
    if (first :: rest).all q then
      (first :: rest : List R) ≤ table.filter (q · = true) ∧
        (table - (first :: rest : List R) + {row}).filter (q · = true) =
          table.filter (q · = true) - (first :: rest : List R) + {row}
    else (table - (first :: rest : List R) + {row}).filter (q · = true) = table.filter (q · = true) := by
  rw [Multiset.filter_add, Multiset.filter_sub, Multiset.filter_singleton, merged]
  split
  next kept =>
    rw [List.all_eq_true] at kept
    have all : Multiset.filter (q · = true) (first :: rest : List R) = (first :: rest : List R) :=
      Multiset.filter_eq_self.mpr kept
    rw [all, if_pos (kept first List.mem_cons_self)]
    exact ⟨all ▸ Multiset.filter_le_filter _ among, rfl⟩
  next foreign =>
    have out : ¬q first = true := by
      intro kept
      refine foreign (List.all_eq_true.mpr fun r member => ?_)
      rcases List.mem_cons.mp member with rfl | later
      exacts [kept, (alike r later).trans kept]
    have none : Multiset.filter (q · = true) (first :: rest : List R) = 0 := by
      refine Multiset.filter_eq_nil.mpr fun r member => ?_
      rcases List.mem_cons.mp (Multiset.mem_coe.mp member) with rfl | later
      exacts [out, alike r later ▸ out]
    rw [none, if_neg out]
    simp

section Steps

variable [AddCommMonoid U] [DecidableEq U]

theorem insert_only (mine : Str → Bool) {picks : List (Export F × Nat)} {receivedAt : Int}
    (stepped : d.step s (.insert picks receivedAt) = some s') :
    d.step (s.only mine) (.insert (picks.filter fun p => mine p.1.workspaceID) receivedAt) =
      some (s'.only mine) := by
  simp only [Deployment.step, Option.ite_none_right_eq_some] at stepped ⊢
  obtain ⟨decided, same⟩ := stepped
  refine ⟨fun p member => decided p (List.mem_filter.mp member).1, ?_⟩
  rw [← Option.some.inj same]
  have stored : ((d.block picks).filter (mine ·.workspaceID)).filter (s.rollups.horizon ≤ ·.startTimeMs) =
      ((d.block picks).filter (s.rollups.horizon ≤ ·.startTimeMs)).filter (mine ·.workspaceID) :=
    List.filter_comm ..
  have rows : ((d.block picks).filter (mine ·.workspaceID)).map (d.spanRow receivedAt) =
      ((d.block picks).map (d.spanRow receivedAt)).filter (mine ·.workspaceID) := by
    rw [List.filter_map]
    rfl
  have rollups := insertBlock_restrict mine d.sv s.rollups
    ((d.block picks).map (d.spanRow receivedAt))
  simp only [World.only, block_filter, List.filter_append, rows, rollups]
  exact congrArg (fun new => some (⟨s.system, s.stored.filter (mine ·.workspaceID) ++ new, _⟩ : World F U)) stored

/-- An insert without the observer's rows is no insert to the observer. -/
theorem insert_nil (receivedAt : Int) : d.step s (.insert [] receivedAt) = some s := by
  simp [Deployment.step, Deployment.block, Rollup.insertBlock, Repair.metricsDailySelect,
    Repair.metricsDailyCostSelect, GroupBy.groupBy]

theorem mergeDaily_only (mine : Str → Bool) {first : Repair.DailyRow U} {rest : List (Repair.DailyRow U)} {w w' : Rollup.Warehouse U}
    (stepped : Rollup.step d.sv w (.mergeDaily (first :: rest)) = some w') :
    if (first :: rest).all (mine ·.workspaceID) then
      Rollup.step d.sv (restrict mine w) (.mergeDaily (first :: rest)) = some (restrict mine w')
    else restrict mine w' = restrict mine w := by
  simp only [Rollup.step, Option.ite_none_right_eq_some] at stepped ⊢
  obtain ⟨⟨same, among⟩, merged⟩ := stepped
  have parts := filter_merge (q := fun r : Repair.DailyRow U => mine r.workspaceID)
    (Rollup.combineDaily first.toDailyKey (first :: rest)) among
    (fun r later => congrArg (fun key => mine key.workspaceID) (same r later)) rfl
  rw [← Option.some.inj merged]
  split at parts
  next own =>
    rw [if_pos own]
    refine ⟨⟨same, parts.1⟩, ?_⟩
    simp only [restrict]
    rw [parts.2]
  next foreign =>
    rw [if_neg foreign]
    simp only [restrict]
    rw [parts]

theorem mergeCost_only (mine : Str → Bool) {first : Repair.DailyCostRow} {rest : List Repair.DailyCostRow} {w w' : Rollup.Warehouse U}
    (stepped : Rollup.step d.sv w (.mergeCost (first :: rest)) = some w') :
    if (first :: rest).all (mine ·.workspaceID) then
      Rollup.step d.sv (restrict mine w) (.mergeCost (first :: rest)) = some (restrict mine w')
    else restrict mine w' = restrict mine w := by
  simp only [Rollup.step, Option.ite_none_right_eq_some] at stepped ⊢
  obtain ⟨⟨same, among⟩, merged⟩ := stepped
  have parts := filter_merge (q := fun r : Repair.DailyCostRow => mine r.workspaceID)
    (Rollup.combineCost first.toDailyCostKey (first :: rest)) among
    (fun r later => congrArg (fun key => mine key.workspaceID) (same r later)) rfl
  rw [← Option.some.inj merged]
  split at parts
  next own =>
    rw [if_pos own]
    refine ⟨⟨same, parts.1⟩, ?_⟩
    simp only [restrict]
    rw [parts.2]
  next foreign =>
    rw [if_neg foreign]
    simp only [restrict]
    rw [parts]

/-- Each step is a step on the observer's part, or leaves that part as it was. -/
theorem observes_only (d : Deployment F U) (mine : Str → Bool) :
    Steps.Observes d.step d.step (view mine) (World.only mine) where
  shown := by
    intro s a s' b stepped shown
    cases a with
    | grant a =>
      cases shown
      obtain ⟨system, inner, rfl⟩ := Option.map_eq_some_iff.mp stepped
      exact Option.map_eq_some_iff.mpr ⟨system, inner, rfl⟩
    | insert picks receivedAt =>
      simp only [view, Option.ite_none_left_eq_some] at shown
      cases shown.2
      exact insert_only mine stepped
    | background a =>
      cases a with
      | insert block => cases stepped
      | mergeDaily part =>
        obtain ⟨w, merged, rfl⟩ := Option.map_eq_some_iff.mp stepped
        simp only [view, Option.ite_none_right_eq_some] at shown
        cases shown.2
        cases part with
        | nil => cases merged
        | cons first rest =>
          have own := mergeDaily_only mine merged
          rw [if_pos shown.1] at own
          exact Option.map_eq_some_iff.mpr ⟨_, own, rfl⟩
      | mergeCost part =>
        obtain ⟨w, merged, rfl⟩ := Option.map_eq_some_iff.mp stepped
        simp only [view, Option.ite_none_right_eq_some] at shown
        cases shown.2
        cases part with
        | nil => cases merged
        | cons first rest =>
          have own := mergeCost_only mine merged
          rw [if_pos shown.1] at own
          exact Option.map_eq_some_iff.mpr ⟨_, own, rfl⟩
      | expire before =>
        obtain rfl := Option.some.inj stepped
        cases shown
        have stored : (s.stored.filter (mine ·.workspaceID)).filter
              (max s.rollups.horizon before ≤ ·.startTimeMs) =
            (s.stored.filter (max s.rollups.horizon before ≤ ·.startTimeMs)).filter (mine ·.workspaceID) :=
          List.filter_comm ..
        have spans : (s.rollups.spans.filter (mine ·.workspaceID)).filter
              (max s.rollups.horizon before ≤ ·.startTimeMs) =
            (s.rollups.spans.filter (max s.rollups.horizon before ≤ ·.startTimeMs)).filter
              (mine ·.workspaceID) := List.filter_comm ..
        exact congrArg₂ (fun rows spans => some (⟨s.system, rows, ⟨⟨spans, _, _⟩, _, _⟩⟩ : World F U))
          stored spans
  hidden := by
    intro s a s' stepped hidden
    cases a with
    | grant a => cases hidden
    | insert picks receivedAt =>
      simp only [view, ite_eq_left_iff, reduceCtorEq, imp_false, not_not, List.isEmpty_iff] at hidden
      have none := insert_only mine stepped
      rw [hidden, insert_nil] at none
      exact (Option.some.inj none).symm
    | background a =>
      cases a with
      | insert block => cases stepped
      | mergeDaily part =>
        obtain ⟨w, merged, rfl⟩ := Option.map_eq_some_iff.mp stepped
        simp only [view, ite_eq_right_iff, reduceCtorEq, imp_false] at hidden
        cases part with
        | nil => cases merged
        | cons first rest =>
          have foreign := mergeDaily_only mine merged
          rw [if_neg hidden] at foreign
          exact congrArg (World.mk s.system (s.stored.filter (mine ·.workspaceID))) foreign
      | mergeCost part =>
        obtain ⟨w, merged, rfl⟩ := Option.map_eq_some_iff.mp stepped
        simp only [view, ite_eq_right_iff, reduceCtorEq, imp_false] at hidden
        cases part with
        | nil => cases merged
        | cons first rest =>
          have foreign := mergeCost_only mine merged
          rw [if_neg hidden] at foreign
          exact congrArg (World.mk s.system (s.stored.filter (mine ·.workspaceID))) foreign
      | expire before => cases hidden

end Steps

/-! What a reader is answered. -/

/-- The workspace column of a record is its workspace. -/
def Reads (e : Engine (Record F U) ρ) : Prop :=
  ∀ record, e.reading.get record .workspaceID = .str record.workspaceID

theorem visible_iff {e : Engine (Record F U) ρ} (reads : Reads e) {allowed : List Str} {record : Record F U} :
    e.Visible allowed record ↔ record.workspaceID ∈ allowed := by
  unfold Engine.Visible
  rw [reads, List.mem_map]
  constructor
  · rintro ⟨w, member, same⟩
    cases same
    exact member
  · exact fun member => ⟨_, member, rfl⟩

theorem tables_only {e : Engine (Record F U) ρ} (reads : Reads e) {allowed : List Str}
    (within : ∀ w ∈ allowed, mine w = true) : e.AgreeOn allowed (s.only mine).tables s.tables := by
  have part : ∀ {R : Type} (record : R → Record F U) (rows : Multiset R),
      ((rows.filter fun r => mine (record r).workspaceID = true).map record).filter (e.Visible allowed) =
        (rows.map record).filter (e.Visible allowed) := by
    intro R record rows
    rw [Multiset.filter_map, Multiset.filter_map, Multiset.filter_filter]
    refine congrArg _ (Multiset.filter_congr fun r _ => and_iff_left_of_imp fun seen => ?_)
    exact within _ ((visible_iff reads).mp seen)
  have spans : ∀ (q : Span F → Bool),
      ((((s.only mine).stored.filter q).map Record.span : List (Record F U)) : Multiset (Record F U)) =
        ((((s.stored.filter q : List (Span F)) : Multiset (Span F)).filter
          fun r => mine r.workspaceID = true).map Record.span) := by
    intro q
    rw [Multiset.filter_coe, Multiset.map_coe]
    simp only [World.only, Bool.decide_eq_true]
    rw [List.filter_comm]
  intro table
  cases table with
  | calls =>
    have own := part Record.span (s.stored.filter (sourceOf · = lit "span") : List (Span F))
    simp only [World.tables, spans]
    exact own
  | usageMetrics =>
    have own := part Record.span (s.stored.filter (sourceOf · = lit "metric") : List (Span F))
    simp only [World.tables, spans]
    exact own
  | metricsDaily => exact part Record.daily s.rollups.daily
  | metricsDailyCost => exact part Record.dailyCost s.rollups.dailyCost

/-- Whatever runs the services make, and whatever senders of other workspaces send in them:
runs that are alike in keys, members and verdicts, and in what reaches the workspaces a user
may read, answer every `Read` of that user alike. The setup checks are none: the collector
counts the spans it rejects in one bounded tally for all workspaces. -/
theorem reads_noninterfering [AddCommMonoid U] [DecidableEq U] (d : Deployment F U)
    (e : Engine (Record F U) ρ) (reads : Reads e) (date : DateFormat) (mine : Str → Bool)
    (now apiNow : Int) (actions actions' : List (Action F U)) (s s' : World F U)
    (ran : Steps.run d.step (d.world now apiNow) actions = some s)
    (ran' : Steps.run d.step (d.world now apiNow) actions' = some s')
    (alike : actions.filterMap (view mine) = actions'.filterMap (view mine)) (userID : Str)
    (within : ∀ w ∈ s.allowed userID, mine w = true) (requested : Str) (read : Read) :
    s'.system = s.system ∧
      serve e date s'.tables (fun u => some (s'.allowed u)) (some userID) requested read =
        serve e date s.tables (fun u => some (s.allowed u)) (some userID) requested read := by
  have part := (observes_only d mine).alike ran ran' alike
  have system : s'.system = s.system := by
    change (s'.only mine).system = (s.only mine).system
    rw [part]
  have allowed : s'.allowed = s.allowed := by
    funext u
    rw [World.allowed, World.allowed, system]
  refine ⟨system, ?_⟩
  rw [allowed]
  have own : ∀ w : World F U,
      serve e date (w.only mine).tables (fun u => some (s.allowed u)) (some userID) requested read =
        serve e date w.tables (fun u => some (s.allowed u)) (some userID) requested read :=
    fun w => serve_congr e date rfl requested read (tables_only reads within)
  rw [← own s', ← part, own s]

/-- An answer is the number of rows that came through. -/
def rowCounts : Engine (Record Int (Multiset Str)) Nat where
  reading :=
    { get := fun record column => match column, record with
        | .workspaceID, record => .str record.workspaceID
        | .startTimeMs, .span row => .int row.startTimeMs
        | _, _ => .str []
      le := fun a b => match a, b with
        | .int a, .int b => decide (a ≤ b)
        | _, _ => false
      other := fun _ _ _ => true }
  eval := fun inputs => (inputs.map fun input => match input with
    | .rows _ rows => rows.card
    | _ => 0).sum
  badArgs := 0
  failed := fun _ => false
  isEmpty := fun a => a == 0
  noCalls := fun a => a == 0
  lastTraceID := fun _ => []

def teamOnly (workspace : Str) : Bool := workspace == lit "team"

/-- Alice lists the traces. -/
def aliceLists (s : World Int (Multiset Str)) : Except ScopeError (List (Statement × Nat)) :=
  serve rowCounts (fun _ => []) s.tables (fun u => some (s.allowed u)) (some (lit "alice")) []
    (.listTraces recentTraces)

theorem reads_noninterfering_twoTenants : ∃ s s' : World Int (Multiset Str),
    Steps.run twoTenants.step (twoTenants.world 0 0) teamAlone = some s ∧
    Steps.run twoTenants.step (twoTenants.world 0 0) bothTenants = some s' ∧
    s.stored.length = 1 ∧ s'.stored.length = 2 ∧ (aliceLists s).map (·.map Prod.snd) = .ok [1, 1] ∧
    aliceLists s' = aliceLists s := by
  have ends : (Steps.run twoTenants.step (twoTenants.world 0 0) teamAlone).map (fun s =>
      (s.stored.length, s.allowed (lit "alice"), (aliceLists s).toOption.map (·.map Prod.snd))) =
      some (1, [lit "team"], some [1, 1]) := by
    decide +kernel
  have ends' : (Steps.run twoTenants.step (twoTenants.world 0 0) bothTenants).map
      (·.stored.length) = some 2 := by
    decide +kernel
  obtain ⟨s, ran, shown⟩ := Option.map_eq_some_iff.mp ends
  obtain ⟨s', ran', rows'⟩ := Option.map_eq_some_iff.mp ends'
  obtain ⟨rows, shown⟩ := Prod.mk.inj shown
  obtain ⟨allowed, counts⟩ := Prod.mk.inj shown
  have within : ∀ w ∈ s.allowed (lit "alice"), teamOnly w = true := by
    intro w member
    rw [allowed, List.mem_singleton] at member
    rw [member]
    rfl
  have alike : teamAlone.filterMap (view teamOnly) = bothTenants.filterMap (view teamOnly) := by
    rw [teamAlone, bothTenants, List.filterMap_append, List.filterMap_append]
    rfl
  have same := (reads_noninterfering twoTenants rowCounts (fun record => rfl) (fun _ => []) teamOnly 0 0
    _ _ s s' ran ran' alike (lit "alice") within [] (.listTraces recentTraces)).2
  refine ⟨s, s', ran, ran', rows, rows', ?_, same⟩
  cases listed : aliceLists s with
  | error refusal =>
    rw [listed] at counts
    cases counts
  | ok transcript =>
    rw [listed] at counts
    exact congrArg Except.ok (Option.some.inj counts)

end Tracium.Tenancy
