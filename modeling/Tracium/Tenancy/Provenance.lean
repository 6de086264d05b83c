import Tracium.Noninterference
import Tracium.Tenancy.Services

/-! Where the records of the tables come from: requests the collector let in, on keys that
members of the records' workspaces had minted. -/
namespace Tracium.Tenancy

open Go PartialAggregates Query

variable {F U : Type} {d : Deployment F U} {s s' : World F U}

/-- The collector let the request in. -/
def World.LetIn (s : World F U) (x : Export F) : Prop :=
  .decided x.token x.workspace x.decidedAt ∈ s.system.auth.history

/-- The rows an action inserts, each with the time of its insertion. -/
def Deployment.inserts (d : Deployment F U) : Action F U → List (Span F × Int)
  | .insert picks receivedAt => (d.block picks).map fun row => (row, receivedAt)
  | .grant _ | .background _ => []

def Deployment.inserted (d : Deployment F U) (actions : List (Action F U)) : List (Span F × Int) :=
  actions.flatMap d.inserts

section Records

variable [AddCommMonoid U]

/-- The row of metrics_daily aggregates these rows. -/
structure DailyOf (d : Deployment F U) (r : Repair.DailyRow U) (part : Multiset (Span F × Int)) : Prop where
  source : ∀ p ∈ part, sourceOf p.1 = lit "span"
  key : ∀ p ∈ part, r.toDailyKey = ⟨d.sv.toDate p.1.startTimeMs, p.1.userID, p.1.workspaceID,
    p.1.workflowName, p.1.workflowVersion,
    if p.1.modelNormalized ≠ [] then p.1.modelNormalized else p.1.model⟩
  cost : r.cost = (part.map fun p => d.cost p.1.costUSD).sum
  inputTokens : r.inputTokens ≡ (part.map fun p => p.1.inputTokens).sum [ZMOD (2 ^ 64 : ℕ)]
  outputTokens : r.outputTokens ≡ (part.map fun p => p.1.outputTokens).sum [ZMOD (2 ^ 64 : ℕ)]
  spanCount : r.spanCount = part.card
  runs : r.runs = (part.map fun p => d.sv.uniqState [p.1.traceID]).sum
  errorRuns : r.errorRuns = (part.map fun p => d.sv.uniqState
    (if p.1.errorType ≠ [] || p.1.errorMessage ≠ [] then [p.1.traceID] else [])).sum

structure DailyCostOf (d : Deployment F U) (r : Repair.DailyCostRow) (part : Multiset (Span F × Int)) : Prop where
  key : ∀ p ∈ part, r.toDailyCostKey = ⟨d.sv.toDate p.1.startTimeMs, p.1.userID, p.1.workspaceID⟩
  spanCost : r.spanCost = (part.map fun p => if sourceOf p.1 = lit "span" then d.cost p.1.costUSD else 0).sum
  metricCost : r.metricCost = (part.map fun p => if sourceOf p.1 = lit "span" then 0 else d.cost p.1.costUSD).sum

/-- The inserted rows a record of a table was made of. -/
def Record.Of (d : Deployment F U) (part : Multiset (Span F × Int)) : Record F U → Prop
  | .span row => ∃ receivedAt, part = {(row, receivedAt)}
  | .daily r => DailyOf d r part
  | .dailyCost r => DailyCostOf d r part

/-- Every row inserted is of a request that was let in, and the tables are made of them. -/
structure Sourced (d : Deployment F U) (past : List (Action F U)) (s : World F U) : Prop where
  letIn : ∀ p ∈ d.inserted past, ∃ x, s.LetIn x ∧ p.1 ∈ d.rows x
  stored : ∀ row ∈ s.stored, ∃ receivedAt, (row, receivedAt) ∈ d.inserted past
  inserted : s.rollups.inserted = (d.inserted past).map fun p => d.spanRow p.2 p.1
  maintained : Rollup.Maintained d.sv s.rollups

end Records

theorem letIn_step {a : Grant.Action} {system : Grant.System}
    (stepped : Grant.step d.auth d.hash d.timeout s.system a = some system) {x : Export F} (before : s.LetIn x) :
    World.LetIn { s with system := system } x := by
  obtain ⟨auths, ran, -⟩ := Grant.step_auth stepped
  have grown : s.system.auth.history <+: system.auth.history :=
    Steps.run_invariant_along (I := fun auth => s.system.auth.history <+: auth.history)
      (fun _ _ _ past _ one => past.trans (Auth.step_history one)) (Steps.along_always _ _) ran List.prefix_rfl
  exact grown.subset before

theorem mem_block {picks : List (Export F × Nat)} {row : Span F} (member : row ∈ d.block picks) :
    ∃ p ∈ picks, row ∈ d.rows p.1 := by
  obtain ⟨p, picked, found⟩ := List.mem_filterMap.mp member
  exact ⟨p, picked, List.mem_of_getElem? found⟩

theorem mem_inserted_insert {past : List (Action F U)} {picks : List (Export F × Nat)} {receivedAt : Int} {p : Span F × Int} :
    p ∈ d.inserted (past ++ [.insert picks receivedAt]) ↔
      p ∈ d.inserted past ∨ p.1 ∈ d.block picks ∧ p.2 = receivedAt := by
  obtain ⟨row, at_⟩ := p
  simp [Deployment.inserted, Deployment.inserts, List.flatMap_append, eq_comm]

theorem inserted_other {past : List (Action F U)} {a : Action F U} (other : d.inserts a = []) :
    d.inserted (past ++ [a]) = d.inserted past := by
  simp [Deployment.inserted, List.flatMap_append, other]

theorem dailyCostOf_carries {part : Multiset (Span F × Int)} {r : Repair.DailyCostRow}
    (carries : Carries Repair.DailyCostRow.toDailyCostKey Rollup.costMeasure (Rollup.dailyCostKey d.sv)
      Rollup.costValue r (part.map fun p => d.spanRow p.2 p.1)) : DailyCostOf d r part := by
  have column (f : ℚ × ℚ →+ ℚ) : f (Rollup.costMeasure r) =
      (part.map fun p => f (Rollup.costValue (d.spanRow p.2 p.1))).sum := by
    rw [carries.map f, Multiset.map_map]
    rfl
  refine ⟨fun p member => (carries.keyed _ (Multiset.mem_map_of_mem _ member)).symm, ?_, ?_⟩
  · refine (column (AddMonoidHom.fst ..)).trans (congrArg Multiset.sum (Multiset.map_congr rfl fun p _ => ?_))
    by_cases ofSpan : sourceOf p.1 = lit "span" <;> simp [Rollup.costValue, Deployment.spanRow, ofSpan]
  · refine (column (AddMonoidHom.snd ..)).trans (congrArg Multiset.sum (Multiset.map_congr rfl fun p _ => ?_))
    by_cases ofSpan : sourceOf p.1 = lit "span" <;> simp [Rollup.costValue, Deployment.spanRow, ofSpan]

section Sources

variable [AddCommMonoid U]

theorem Sourced.step [DecidableEq U] (mergeable : Rollup.Mergeable d.sv) {past : List (Action F U)}
    (sourced : Sourced d past s) {a : Action F U} (stepped : d.step s a = some s') :
    Sourced d (past ++ [a]) s' := by
  cases a with
  | grant a =>
    obtain ⟨system, inner, rfl⟩ := Option.map_eq_some_iff.mp stepped
    have same : d.inserted (past ++ [.grant a]) = d.inserted past := inserted_other rfl
    refine ⟨?_, same ▸ sourced.stored, same ▸ sourced.inserted, sourced.maintained⟩
    rw [same]
    exact fun p member => (sourced.letIn p member).imp fun x h => ⟨letIn_step inner h.1, h.2⟩
  | insert picks receivedAt =>
    simp only [Deployment.step, Option.ite_none_right_eq_some] at stepped
    obtain ⟨decided, same⟩ := stepped
    rw [← Option.some.inj same]
    refine ⟨fun p member => ?_, fun row member => ?_, ?_, sourced.maintained.insert mergeable _⟩
    · rcases mem_inserted_insert.mp member with old | ⟨inBlock, -⟩
      · exact sourced.letIn p old
      · obtain ⟨q, picked, own⟩ := mem_block inBlock
        exact ⟨q.1, decided q picked, own⟩
    · rcases List.mem_append.mp member with old | new
      · exact (sourced.stored row old).imp fun _ there => mem_inserted_insert.mpr (.inl there)
      · exact ⟨receivedAt, mem_inserted_insert.mpr (.inr ⟨(List.mem_filter.mp new).1, rfl⟩)⟩
    · simp [Rollup.insertBlock, sourced.inserted, Deployment.inserted, Deployment.inserts, List.flatMap_append]
  | background a =>
    have same : d.inserted (past ++ [.background a]) = d.inserted past := inserted_other rfl
    have kept {w : Rollup.Warehouse U} (merged : Rollup.step d.sv s.rollups a = some w)
        (inserted : w.inserted = s.rollups.inserted) : Sourced d (past ++ [.background a]) { s with rollups := w } :=
      ⟨same ▸ sourced.letIn, same ▸ sourced.stored, inserted.trans (same ▸ sourced.inserted),
        sourced.maintained.step mergeable merged⟩
    cases a with
    | insert block => cases stepped
    | expire before =>
      obtain rfl := Option.some.inj stepped
      have expired := kept rfl rfl
      exact ⟨expired.letIn, fun row member => expired.stored row (List.mem_filter.mp member).1, expired.inserted,
        expired.maintained⟩
    | mergeDaily part | mergeCost part =>
      obtain ⟨w, merged, rfl⟩ := Option.map_eq_some_iff.mp stepped
      refine kept merged ?_
      cases part with
      | nil => cases merged
      | cons first rest =>
        simp only [Rollup.step, Option.ite_none_right_eq_some] at merged
        exact Option.some.inj merged.2 ▸ rfl

theorem sourced_run [DecidableEq U] (mergeable : Rollup.Mergeable d.sv) {now apiNow : Int}
    {actions : List (Action F U)} (ran : Steps.run d.step (d.world now apiNow) actions = some s) :
    Sourced d actions s := by
  refine Steps.run_past (fun past a s s' _ sourced stepped => sourced.step mergeable stepped) ran
    ⟨?_, ?_, rfl, Rollup.maintained_newWarehouse⟩ <;> intro row member <;> cases member

variable {part : Multiset (Span F × Int)}

theorem dailyOf_carries {r : Repair.DailyRow U}
    (carries : Carries Repair.DailyRow.toDailyKey Rollup.dailyMeasure (Rollup.dailyKey d.sv)
      (Rollup.dailyValue d.sv) r (part.map fun p => d.spanRow p.2 p.1))
    (reads : ∀ p ∈ part, Repair.Rollup.metricsDaily.reads (d.spanRow p.2 p.1) = true) : DailyOf d r part := by
  have column {N : Type} [AddCommMonoid N] (f : Rollup.DailyMeasure U →+ N) : f (Rollup.dailyMeasure r) =
      (part.map fun p => f (Rollup.dailyValue d.sv (d.spanRow p.2 p.1))).sum := by
    rw [carries.map f, Multiset.map_map]
    rfl
  have tokens {n : Int} {of : Span F → Int}
      (same : (n : ZMod (2 ^ 64)) = (part.map fun p => (of p.1 : ZMod (2 ^ 64))).sum) :
      n ≡ (part.map fun p => of p.1).sum [ZMOD (2 ^ 64 : ℕ)] := by
    rw [← ZMod.intCast_eq_intCast_iff, same, Int.cast_multiset_sum, Multiset.map_map]
    rfl
  refine ⟨fun p member => ?_, fun p member => ?_, column (AddMonoidHom.fst ..), tokens ?_, tokens ?_, ?_, ?_, ?_⟩
  · by_contra other
    simpa [Repair.Rollup.reads, Deployment.spanRow, other] using reads p member
  · exact (carries.keyed _ (Multiset.mem_map_of_mem _ member)).symm
  · exact column ((AddMonoidHom.fst ..).comp (AddMonoidHom.snd ..))
  · exact column ((AddMonoidHom.fst ..).comp ((AddMonoidHom.snd ..).comp (AddMonoidHom.snd ..)))
  · have counted := column ((AddMonoidHom.fst ..).comp
      ((AddMonoidHom.snd ..).comp ((AddMonoidHom.snd ..).comp (AddMonoidHom.snd ..))))
    refine Eq.trans counted ?_
    change (part.map fun _ => 1).sum = part.card
    simp
  · exact column ((AddMonoidHom.fst ..).comp
      ((AddMonoidHom.snd ..).comp ((AddMonoidHom.snd ..).comp ((AddMonoidHom.snd ..).comp (AddMonoidHom.snd ..)))))
  · exact column ((AddMonoidHom.snd ..).comp
      ((AddMonoidHom.snd ..).comp ((AddMonoidHom.snd ..).comp ((AddMonoidHom.snd ..).comp (AddMonoidHom.snd ..)))))

/-- Columns of inserted rows are of rows that were inserted. -/
theorem Sourced.rows {past : List (Action F U)} (sourced : Sourced d past s) {columns : Multiset Repair.SpanRow}
    (among : columns ≤ s.rollups.inserted) :
    ∃ part : Multiset (Span F × Int), part ≤ d.inserted past ∧ part.map (fun p => d.spanRow p.2 p.1) = columns := by
  rw [sourced.inserted, ← Multiset.map_coe] at among
  obtain ⟨rest, split⟩ := Multiset.le_iff_exists_add.mp among
  obtain ⟨part, other, whole, mapped, -⟩ := exists_split_of_map_eq_add split
  exact ⟨part, whole ▸ Multiset.le_add_right .., mapped⟩

/-- Every record of a table is made of rows inserted. -/
theorem Sourced.made {past : List (Action F U)} (sourced : Sourced d past s) {table : Table} {record : Record F U}
    (member : record ∈ s.tables table) :
    ∃ part : Multiset (Span F × Int), part ≠ 0 ∧ part ≤ d.inserted past ∧ record.Of d part ∧
      ∀ p ∈ part, record.workspaceID = p.1.workspaceID := by
  have ofSpan {row : Span F} (inTable : row ∈ s.stored) : ∃ part : Multiset (Span F × Int), part ≠ 0 ∧
      part ≤ d.inserted past ∧ Record.Of d part (.span row) ∧ ∀ p ∈ part, row.workspaceID = p.1.workspaceID := by
    obtain ⟨receivedAt, there⟩ := sourced.stored row inTable
    refine ⟨{(row, receivedAt)}, Multiset.singleton_ne_zero _, Multiset.singleton_le.mpr there, ⟨receivedAt, rfl⟩,
      fun p one => ?_⟩
    rw [Multiset.mem_singleton.mp one]
  cases table with
  | calls | usageMetrics =>
    obtain ⟨row, inTable, rfl⟩ := List.mem_map.mp (Multiset.mem_coe.mp member)
    exact ofSpan (List.mem_filter.mp inTable).1
  | metricsDaily =>
    obtain ⟨r, inTable, rfl⟩ := Multiset.mem_map.mp member
    obtain ⟨columns, among, carries⟩ := sourced.maintained.daily.row inTable
    obtain ⟨part, inserted, rfl⟩ := sourced.rows (among.trans (Multiset.coe_le.mpr List.filter_sublist.subperm))
    have made := dailyOf_carries carries fun p here =>
      (List.mem_filter.mp (Multiset.mem_coe.mp (Multiset.mem_of_le among (Multiset.mem_map_of_mem _ here)))).2
    refine ⟨part, fun none => carries.some (by rw [none]; rfl), inserted, made, fun p here => ?_⟩
    exact congrArg Repair.DailyKey.workspaceID (made.key p here)
  | metricsDailyCost =>
    obtain ⟨r, inTable, rfl⟩ := Multiset.mem_map.mp member
    obtain ⟨columns, among, carries⟩ := sourced.maintained.dailyCost.row inTable
    obtain ⟨part, inserted, rfl⟩ := sourced.rows among
    have made := dailyCostOf_carries carries
    refine ⟨part, fun none => carries.some (by rw [none]; rfl), inserted, made, fun p here => ?_⟩
    exact congrArg Repair.DailyCostKey.workspaceID (made.key p here)

end Sources

/-! The API and the authenticator within the services. -/

def grantOf : Action F U → Option Grant.Action
  | .grant a => some a
  | _ => none

theorem observes_system [AddCommMonoid U] [DecidableEq U] (d : Deployment F U) :
    Steps.Observes d.step (Grant.step d.auth d.hash d.timeout) grantOf World.system where
  shown := by
    intro s a s' b stepped shown
    cases a with
    | grant a =>
      cases shown
      obtain ⟨system, inner, rfl⟩ := Option.map_eq_some_iff.mp stepped
      exact inner
    | insert | background => cases shown
  hidden := by
    intro s a s' stepped hidden
    cases a with
    | grant a => cases hidden
    | insert picks receivedAt =>
      simp only [Deployment.step, Option.ite_none_right_eq_some] at stepped
      rw [← Option.some.inj stepped.2]
    | background a =>
      cases a with
      | insert block => cases stepped
      | mergeDaily | mergeCost =>
        obtain ⟨w, -, rfl⟩ := Option.map_eq_some_iff.mp stepped
        rfl
      | expire before => exact Option.some.inj stepped ▸ rfl

/-- The request presented the token of a key that had been active in its workspace not long
before it was let in, a key that somebody who was a member of the workspace had minted there. -/
def Export.Granted (d : Deployment F U) (delay now apiNow : Int) (actions : List (Action F U)) (x : Export F) : Prop :=
  ∃ before after mid key past, actions.filterMap grantOf = before ++ after ∧
    Steps.run (Grant.step d.auth d.hash d.timeout) (Grant.newSystem d.auth now apiNow) before = some mid ∧
    mid.auth.now ≤ x.decidedAt ∧
    x.decidedAt ≤ mid.auth.now + d.timeout + delay + max d.auth.cacheTTL d.auth.maxStaleAge ∧
    key ∈ mid.api.db.keys ∧ key.active = true ∧ key.workspaceID = x.workspace ∧
    key.keyHash = d.hash (trimSpace (Grant.sentKey x.token)) ∧
    Steps.Visited (Grant.step d.auth d.hash d.timeout) (Grant.newSystem d.auth now apiNow) before past ∧
    (x.workspace, key.createdBy) ∈ past.api.db.members

/-- Every record a table holds, whatever became of it in the queue, the views and the merges,
is a row or aggregates rows that were inserted, each of a request that was let in and granted in
its workspace. -/
theorem record_granted [AddCommMonoid U] [DecidableEq U] (d : Deployment F U) (mergeable : Rollup.Mergeable d.sv)
    (delay now apiNow : Int) (actions : List (Action F U)) (s : World F U)
    (distinct : (Grant.presentedTokens (actions.filterMap grantOf)).InjOn d.hash)
    (timely : Steps.Along (Grant.step d.auth d.hash d.timeout) (fun s a => Grant.prompt delay s a = true)
      (Grant.newSystem d.auth now apiNow) (actions.filterMap grantOf))
    (ran : Steps.run d.step (d.world now apiNow) actions = some s)
    (table : Table) (record : Record F U) (member : record ∈ s.tables table) :
    ∃ part : Multiset (Span F × Int), part ≠ 0 ∧ part ≤ d.inserted actions ∧ record.Of d part ∧
      ∀ p ∈ part, ∃ x, s.LetIn x ∧ p.1 ∈ d.rows x ∧ record.workspaceID = x.workspaceID ∧
        x.Granted d delay now apiNow actions := by
  have sourced := sourced_run mergeable ran
  have granted := (observes_system d).run ran
  obtain ⟨part, some, among, made, own⟩ := sourced.made member
  refine ⟨part, some, among, made, fun p inPart => ?_⟩
  obtain ⟨x, letIn, row⟩ := sourced.letIn p (Multiset.mem_coe.mp (Multiset.mem_of_le among inPart))
  refine ⟨x, letIn, row, (own p inPart).trans (rows_workspaceID row), ?_⟩
  obtain ⟨i, decided⟩ := List.mem_iff_getElem?.mp letIn
  obtain ⟨mid, ⟨before, after, split, reached⟩, ⟨key, stored, active, hashed, ofWorkspace⟩, since, soon⟩ :=
    Grant.decided_active distinct timely granted decided
  rw [split] at timely
  obtain ⟨past, visited, minter⟩ := (Grant.sound_run (Steps.along_front timely) reached).minted.rows key stored
  rw [ofWorkspace] at minter
  exact ⟨before, after, mid, key, past, split, reached, since, soon, stored, active, ofWorkspace, hashed, visited,
    minter⟩

theorem presentedTokens_letInBoth {token : Str} (presented : token ∈ Grant.presentedTokens letInBoth) :
    token = ApiKeys.sampleToken ∨ token = rivalToken := by
  obtain ⟨g, sender, member⟩ := presented
  simp [letInBoth, letIn] at member
  rcases member with ⟨-, same, -⟩ | ⟨-, same, -⟩
  exacts [.inl same, .inr same]

/-- The rival's row of the rollup goes back to a request granted in the rival's workspace. -/
theorem record_granted_twoTenants : ∃ s, ∃ record : Record Int (Multiset Str), ∃ part p x,
    Steps.run twoTenants.step (twoTenants.world 0 0) bothTenants = some s ∧
    record ∈ s.tables .metricsDaily ∧ record.workspaceID = lit "rival" ∧ record.Of twoTenants part ∧ p ∈ part ∧
    p.1 ∈ twoTenants.rows x ∧ x.workspaceID = lit "rival" ∧ x.Granted twoTenants 0 0 0 bothTenants := by
  have ends : (Steps.run twoTenants.step (twoTenants.world 0 0) bothTenants).map
      (fun s => (s.tables .metricsDaily).map Record.workspaceID) = some {lit "rival", lit "team"} := by
    decide +kernel
  have timely : Steps.Along (Grant.step Auth.outageConfig tenantHash (5 * Auth.second))
      (fun s a => Grant.prompt 0 s a = true) (Grant.newSystem Auth.outageConfig 0 0) letInBoth := by
    decide +kernel
  have grants : bothTenants.filterMap grantOf = letInBoth := by
    rw [bothTenants, List.filterMap_append, List.filterMap_map]
    exact (List.append_nil _).trans (List.filterMap_some ..)
  obtain ⟨s, ran, shown⟩ := Option.map_eq_some_iff.mp ends
  have shownRival : lit "rival" ∈ (s.tables .metricsDaily).map Record.workspaceID := by
    rw [shown]
    exact Multiset.mem_cons_self ..
  obtain ⟨record, member, ofRival⟩ := Multiset.mem_map.mp shownRival
  have distinct : (Grant.presentedTokens letInBoth).InjOn tenantHash := by
    intro a ha b hb same
    rcases presentedTokens_letInBoth ha with rfl | rfl <;> rcases presentedTokens_letInBoth hb with rfl | rfl
    · rfl
    · exact absurd same (by decide +kernel)
    · exact absurd same (by decide +kernel)
    · rfl
  obtain ⟨part, some, -, made, sources⟩ := record_granted twoTenants Rollup.exactServer_estimates.mergeable 0 0 0 bothTenants s
    (grants ▸ distinct) (grants ▸ timely) ran .metricsDaily record member
  obtain ⟨p, inPart⟩ := Multiset.exists_mem_of_ne_zero some
  obtain ⟨x, -, row, same, granted⟩ := sources p inPart
  exact ⟨s, record, part, p, x, ran, member, ofRival, made, inPart, row, same.symm.trans ofRival, granted⟩

end Tracium.Tenancy
