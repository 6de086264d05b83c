import Tracium.Query.Headline

/-! The usage table's rows on raw spans. A row's cost comes from one statement over two
windows, which puts a trace into the window of its first span; its sparkline comes from a
second statement, which sees the current window only. -/
namespace Tracium.Query

open Go OrderedMap GroupBy

structure UserUsage where
  userID : Str
  (cost costPrev : ℚ)
  (runs runsPrev : Int)
  trend : List ℚ
  deriving DecidableEq

def traceCost (trace : List SpanRow) : ℚ := (trace.map SpanRow.costUSD).sum

section Queries

/- `any(user_id)` picks the user of some row of the trace. -/
variable (anyUser : List SpanRow → Str) (store : Store)

/-- The rows of the first statement, which are in no order and have no trends. Its clause on
user_id is read as one on the column, not on the select's alias of that name. -/
def userRows (f : MetricsFilter) : List UserUsage :=
  let cur := unixMilli f.start
  let inner := traces store (inWindow f.userID f.workspaceIDs (unixMilli f.prevStart) (unixMilli f.end'))
  (groupBy anyUser inner).map fun g =>
    { userID := g.1
      cost := ((g.2.filter fun trace => cur ≤ startedMs trace).map traceCost).sum
      costPrev := ((g.2.filter fun trace => startedMs trace < cur).map traceCost).sum
      runs := g.2.countP fun trace => cur ≤ startedMs trace
      runsPrev := g.2.countP fun trace => startedMs trace < cur
      trend := [] }

/-- The rows of the second statement, with the clause read alike. -/
def trendRows (f : MetricsFilter) : List (Str × Int × ℚ) :=
  (groupBy (fun trace => (anyUser trace, bucketOf (milliseconds f.bucket) (startedMs trace)))
    (traces store (currentWindow f))).map fun g => (g.1.1, g.1.2, (g.2.map traceCost).sum)

/-- UserUsage on the raw path, given the order in which its statement sorts. -/
def userUsage (f : MetricsFilter) (ranked : List UserUsage) (limit : Nat) : List UserUsage :=
  let users := ranked.take limit
  List.zipWith (fun u trend => { u with trend := trend }) users
    (fillTrends f 0 (users.map UserUsage.userID) (trendRows anyUser store f))

/-- `ORDER BY cost_cur DESC` over the rows. -/
structure Ranks (f : MetricsFilter) (ranked : List UserUsage) : Prop where
  perm : ranked.Perm (userRows anyUser store f)
  sorted : ranked.Pairwise fun u v => v.cost ≤ u.cost

/-- The row's trace has a row in the preceding window. -/
def startedBefore (f : MetricsFilter) (r : SpanRow) : Bool :=
  store.calls.any fun e => inWindow f.userID f.workspaceIDs (unixMilli f.prevStart) (unixMilli f.start) e &&
    e.traceID == r.traceID

/-- What the user's traces that began before the current window cost in it. -/
def straddlingCost (f : MetricsFilter) (user : Str) : ℚ :=
  ((store.calls.filter fun r => startedBefore store f r && (currentWindow f r && r.userID == user)).map
    SpanRow.costUSD).sum

end Queries

/-! Groups of traces as rows. -/

theorem sum_traces (store : Store) (keep : SpanRow → Bool) (p : List SpanRow → Bool) :
    (((traces store keep).filter p).map traceCost).sum =
      (((store.calls.filter keep).filter fun r =>
        p ((store.calls.filter keep).filter fun e => e.traceID = r.traceID)).map SpanRow.costUSD).sum := by
  rw [← sum_groupBy_filter SpanRow.traceID
    (fun k => p ((store.calls.filter keep).filter fun e => e.traceID = k)), traces, List.filter_map, List.map_map]
  have same : (groupBy SpanRow.traceID (store.calls.filter keep)).filter (p ∘ Prod.snd) =
      (groupBy SpanRow.traceID (store.calls.filter keep)).filter
        fun g => p ((store.calls.filter keep).filter fun e => e.traceID = g.1) := by
    apply List.filter_congr
    intro g grouped
    rw [Function.comp_apply, groupBy_group grouped]
  rw [same]
  rfl

theorem foldl_min_le (rest : List SpanRow) (ms : Int) :
    (rest.foldl (fun ms r => min ms r.startTimeMs) ms ≤ ms) ∧
      ∀ r ∈ rest, rest.foldl (fun ms r => min ms r.startTimeMs) ms ≤ r.startTimeMs := by
  induction rest generalizing ms with
  | nil => simp
  | cons e rest ih =>
    obtain ⟨below, each⟩ := ih (min ms e.startTimeMs)
    rw [List.foldl_cons]
    refine ⟨below.trans (Int.min_le_left ..), ?_⟩
    intro r member
    rcases List.mem_cons.mp member with rfl | later
    · exact below.trans (Int.min_le_right ..)
    · exact each r later

theorem le_startedMs_iff {trace : List SpanRow} (nonempty : trace ≠ []) {t : Int} :
    t ≤ startedMs trace ↔ ∀ r ∈ trace, t ≤ r.startTimeMs := by
  constructor
  · intro le r member
    obtain ⟨first, rest, rfl⟩ := List.exists_cons_of_ne_nil nonempty
    obtain ⟨below, each⟩ := foldl_min_le rest first.startTimeMs
    rcases List.mem_cons.mp member with rfl | later
    · exact le.trans below
    · exact le.trans (each r later)
  · intro each
    obtain ⟨r, member, started⟩ := startedMs_mem trace nonempty
    rw [started]
    exact each r member

/-! Both statements, row by row. -/

/-- One user in every trace. -/
def OneUser (store : Store) : Prop :=
  ∀ r ∈ store.calls, ∀ e ∈ store.calls, r.traceID = e.traceID → r.userID = e.userID

/-- `any` takes a value that is there. -/
def Picks (anyUser : List SpanRow → Str) : Prop :=
  ∀ trace, trace ≠ [] → ∃ r ∈ trace, anyUser trace = r.userID

section Rows

variable {anyUser : List SpanRow → Str} {store : Store} {f : MetricsFilter}
  (picks : Picks anyUser) (shared : OneUser store)

/-- The row's trace as a statement over the clause groups it. -/
def traceOfRow (store : Store) (keep : SpanRow → Bool) (r : SpanRow) : List SpanRow :=
  (store.calls.filter keep).filter fun e => e.traceID = r.traceID

theorem mem_traceOfRow {keep : SpanRow → Bool} {r e : SpanRow} :
    e ∈ traceOfRow store keep r ↔ e ∈ store.calls ∧ keep e = true ∧ e.traceID = r.traceID := by
  rw [traceOfRow, List.mem_filter, List.mem_filter, decide_eq_true_eq, and_assoc]

include picks shared

theorem anyUser_traceOfRow {keep : SpanRow → Bool} {r : SpanRow} (member : r ∈ store.calls) (kept : keep r = true) :
    anyUser (traceOfRow store keep r) = r.userID := by
  have here : r ∈ traceOfRow store keep r := mem_traceOfRow.mpr ⟨member, kept, rfl⟩
  obtain ⟨e, inTrace, same⟩ := picks _ (List.ne_nil_of_mem here)
  obtain ⟨inCalls, _, trace⟩ := mem_traceOfRow.mp inTrace
  rw [same]
  exact shared e inCalls r member trace

/-- Summing a user's traces of a window is summing the user's rows in it. -/
theorem sum_userTraces (keep : SpanRow → Bool) (user : Str) :
    (((traces store keep).filter fun trace => anyUser trace = user).map traceCost).sum =
      ((store.calls.filter fun r => keep r && r.userID == user).map SpanRow.costUSD).sum := by
  rw [sum_traces, List.filter_filter]
  apply congrArg fun rows : List SpanRow => (rows.map SpanRow.costUSD).sum
  apply List.filter_congr
  intro r member
  by_cases kept : keep r = true
  · have user_eq := anyUser_traceOfRow picks shared member kept
    rw [traceOfRow] at user_eq
    rw [user_eq, kept, Bool.and_true, Bool.true_and]
    exact Bool.eq_iff_iff.mpr (decide_eq_true_iff.trans beq_iff_eq.symm)
  · simp [kept]

end Rows

section Split

variable {anyUser : List SpanRow → Str} {store : Store} {f : MetricsFilter}

theorem inWindow_iff {user : Str} {workspaces : List Str} {lo hi : Int} {r : SpanRow} :
    inWindow user workspaces lo hi r = true ↔ (lo ≤ r.startTimeMs ∧ r.startTimeMs < hi) ∧
      ((user == [] || r.userID == user) && workspaces.contains r.workspaceID) = true := by
  rw [inWindow, Bool.and_assoc, Bool.and_eq_true, Bool.and_eq_true, decide_eq_true_iff, decide_eq_true_iff]

/-- The rows of both windows. -/
def bothWindows (f : MetricsFilter) : SpanRow → Bool :=
  inWindow f.userID f.workspaceIDs (unixMilli f.prevStart) (unixMilli f.end')

theorem startedBefore_iff {r : SpanRow} : startedBefore store f r = true ↔
    ∃ e ∈ store.calls, inWindow f.userID f.workspaceIDs (unixMilli f.prevStart) (unixMilli f.start) e = true ∧
      e.traceID = r.traceID := by
  simp only [startedBefore, List.any_eq_true, Bool.and_eq_true, beq_iff_eq]

/-- A row counts for Cost when it is of the current window and its trace has no row before it. -/
theorem counts_iff (order : f.prevStart ≤ f.start) {r : SpanRow} (member : r ∈ store.calls) :
    (bothWindows f r = true ∧ unixMilli f.start ≤ startedMs (traceOfRow store (bothWindows f) r)) ↔
      currentWindow f r = true ∧ startedBefore store f r = false := by
  have starts : unixMilli f.prevStart ≤ unixMilli f.start := by
    simp only [unixMilli]
    omega
  have here : bothWindows f r = true → traceOfRow store (bothWindows f) r ≠ [] :=
    fun both => List.ne_nil_of_mem (mem_traceOfRow.mpr ⟨member, both, rfl⟩)
  constructor
  · rintro ⟨both, since⟩
    rw [le_startedMs_iff (here both)] at since
    obtain ⟨⟨_, before⟩, visible⟩ := inWindow_iff.mp both
    have after := since r (mem_traceOfRow.mpr ⟨member, both, rfl⟩)
    refine ⟨inWindow_iff.mpr ⟨⟨after, before⟩, visible⟩, ?_⟩
    rw [← Bool.not_eq_true, startedBefore_iff]
    rintro ⟨e, inCalls, early, trace⟩
    obtain ⟨⟨low, high⟩, visible'⟩ := inWindow_iff.mp early
    have bothE : bothWindows f e = true := inWindow_iff.mpr ⟨⟨low, by omega⟩, visible'⟩
    have late := since e (mem_traceOfRow.mpr ⟨inCalls, bothE, trace⟩)
    omega
  · rintro ⟨current, fresh⟩
    obtain ⟨⟨after, before⟩, visible⟩ := inWindow_iff.mp current
    have both : bothWindows f r = true := inWindow_iff.mpr ⟨⟨by omega, before⟩, visible⟩
    refine ⟨both, ?_⟩
    rw [le_startedMs_iff (here both)]
    intro e inTrace
    obtain ⟨inCalls, bothE, trace⟩ := mem_traceOfRow.mp inTrace
    obtain ⟨⟨low, _⟩, visible'⟩ := inWindow_iff.mp bothE
    by_contra early
    have was : startedBefore store f r = true :=
      startedBefore_iff.mpr ⟨e, inCalls, inWindow_iff.mpr ⟨⟨low, by omega⟩, visible'⟩, trace⟩
    rw [fresh] at was
    cases was

variable (picks : Picks anyUser) (shared : OneUser store)

include picks shared

theorem cost_eq (order : f.prevStart ≤ f.start) {u : UserUsage} (member : u ∈ userRows anyUser store f) :
    u.cost = ((store.calls.filter fun r => !startedBefore store f r && (currentWindow f r && r.userID == u.userID)).map
      SpanRow.costUSD).sum := by
  obtain ⟨g, grouped, rfl⟩ := List.mem_map.mp member
  simp only [groupBy_group grouped, List.filter_filter]
  rw [sum_traces, List.filter_filter]
  apply congrArg fun rows : List SpanRow => (rows.map SpanRow.costUSD).sum
  apply List.filter_congr
  intro r inCalls
  have counts := counts_iff order inCalls
  rw [Bool.eq_iff_iff]
  simp only [Bool.and_eq_true, decide_eq_true_eq, Bool.not_eq_true', beq_iff_eq]
  constructor
  · rintro ⟨⟨since, user⟩, both⟩
    obtain ⟨current, fresh⟩ := counts.mp ⟨both, since⟩
    exact ⟨fresh, current, (anyUser_traceOfRow picks shared inCalls both).symm.trans user⟩
  · rintro ⟨fresh, current, user⟩
    obtain ⟨both, since⟩ := counts.mpr ⟨current, fresh⟩
    exact ⟨⟨since, (anyUser_traceOfRow picks shared inCalls both).trans user⟩, both⟩

omit picks shared in
/-- Every result of the second statement has a slot. -/
theorem trendRows_onAxis (positive : 0 < milliseconds f.bucket)
    (nonneg : ∀ r ∈ store.calls, unixMilli f.start ≤ r.startTimeMs → 0 ≤ r.startTimeMs) {e : Str × Int × ℚ}
    (member : e ∈ trendRows anyUser store f) : e.2.1 ∈ (bucketAxis f).slots := by
  obtain ⟨g, grouped, rfl⟩ := List.mem_map.mp member
  obtain ⟨trace, inTraces, key⟩ := groupBy_key_mem grouped
  -- only the rows of the window matter, and they are not before the epoch
  have window : traces ⟨store.calls.filter (currentWindow f), []⟩ (currentWindow f) =
      traces store (currentWindow f) := by
    rw [traces, traces, List.filter_filter]
    simp only [Bool.and_self]
  rw [← window] at inTraces
  let windowed : Store := ⟨store.calls.filter (currentWindow f), []⟩
  have fromEpoch : ∀ r ∈ windowed.calls ++ windowed.usageMetrics, 0 ≤ r.startTimeMs := by
    intro r inWindow
    rw [List.append_nil] at inWindow
    obtain ⟨inCalls, kept⟩ := List.mem_filter.mp inWindow
    exact nonneg r inCalls (inWindow_iff.mp kept).1.1
  have slot := trace_onAxis fromEpoch positive trace inTraces
  exact congrArg Prod.snd key ▸ slot

omit picks shared in
theorem trendRows_distinct :
    DistinctKeys ((trendRows anyUser store f).map fun e => ((e.1, e.2.1), e.2.2)) := by
  have keyed := groupBy_distinct (fun trace => (anyUser trace, bucketOf (milliseconds f.bucket) (startedMs trace)))
    (traces store (currentWindow f)) fun g => (g.2.map traceCost).sum
  rw [trendRows, List.map_map]
  exact keyed

/-- A sparkline sums to what the user's rows of the current window cost. -/
theorem trend_sum (positive : 0 < milliseconds f.bucket)
    (nonneg : ∀ r ∈ store.calls, unixMilli f.start ≤ r.startTimeMs → 0 ≤ r.startTimeMs) (name : Str) :
    (((bucketAxis f).slots.map fun bm =>
      (get ((trendRows anyUser store f).map fun e => ((e.1, e.2.1), e.2.2)) (name, bm)).getD 0)).sum =
      ((store.calls.filter fun r => currentWindow f r && r.userID == name).map SpanRow.costUSD).sum := by
  have distinct : DistinctKeys ((trendRows anyUser store f).map fun e => ((e.1, e.2.1), e.2.2)) :=
    trendRows_distinct
  have ofName := distinct_filter_name distinct name
  have axis := sum_axis (bucketAxis f).slots (slots_nodup _ positive) _ ofName (by
    intro e member
    obtain ⟨row, inRows, rfl⟩ := List.mem_map.mp member
    exact trendRows_onAxis positive nonneg (List.mem_filter.mp inRows).1)
  simp only [get_filter_name] at axis
  rw [axis, ← sum_userTraces picks shared (currentWindow f) name]
  have groups := sum_groupBy_filter (fun trace => (anyUser trace, bucketOf (milliseconds f.bucket) (startedMs trace)))
    (fun k => k.1 = name) traceCost (traces store (currentWindow f))
  rw [← groups, List.map_map, trendRows, List.filter_map, List.map_map]
  rfl

end Split

section Usage

variable {anyUser : List SpanRow → Str} {store : Store} {f : MetricsFilter} {ranked : List UserUsage}

/-- A returned row is one of the first statement with its sparkline. -/
theorem mem_userUsage (positive : 0 < milliseconds f.bucket)
    (nonneg : ∀ r ∈ store.calls, unixMilli f.start ≤ r.startTimeMs → 0 ≤ r.startTimeMs)
    (ranks : Ranks anyUser store f ranked) {limit : Nat} {u : UserUsage}
    (member : u ∈ userUsage anyUser store f ranked limit) :
    ∃ row ∈ userRows anyUser store f, u = { row with trend := (bucketAxis f).slots.map fun bm =>
      (get ((trendRows anyUser store f).map fun e => ((e.1, e.2.1), e.2.2)) (row.userID, bm)).getD 0 } := by
  have names : ((ranked.take limit).map UserUsage.userID).Nodup := by
    have all : ((userRows anyUser store f).map UserUsage.userID).Nodup := by
      have keys := groupBy_distinct anyUser (traces store (bothWindows f)) fun g => g
      rw [DistinctKeys, List.map_map] at keys
      rw [userRows, List.map_map]
      exact keys
    exact ((ranks.perm.map UserUsage.userID).nodup_iff.mpr all).sublist ((List.take_sublist ..).map _)
  have filled := fillTrends_eq f positive (0 : ℚ) _ names (trendRows anyUser store f) trendRows_distinct
    fun e inRows => trendRows_onAxis positive nonneg inRows
  rw [userUsage, filled, List.map_map, List.zipWith_map_right, List.zipWith_self] at member
  obtain ⟨row, inRanked, rfl⟩ := List.mem_map.mp member
  exact ⟨row, ranks.perm.mem_iff.mp (List.mem_of_mem_take inRanked), rfl⟩

end Usage

/-- Where every trace has one user: a returned row's sparkline sums to its cost exactly when
what the user's traces from before the window cost in it is nothing. -/
theorem userUsage_trend_iff (anyUser : List SpanRow → Str) (picks : Picks anyUser) (store : Store)
    (shared : OneUser store) (f : MetricsFilter) (order : f.prevStart ≤ f.start)
    (positive : 0 < milliseconds f.bucket)
    (nonneg : ∀ r ∈ store.calls, unixMilli f.start ≤ r.startTimeMs → 0 ≤ r.startTimeMs)
    (ranked : List UserUsage) (ranks : Ranks anyUser store f ranked) (limit : Nat) :
    ∀ u ∈ userUsage anyUser store f ranked limit, u.trend.sum = u.cost ↔ straddlingCost store f u.userID = 0 := by
  intro u member
  obtain ⟨row, inRows, rfl⟩ := mem_userUsage positive nonneg ranks member
  have cost := cost_eq picks shared order inRows
  have trend := trend_sum picks shared positive nonneg row.userID
  have split := sum_filter_split (fun r => currentWindow f r && r.userID == row.userID) (startedBefore store f)
    SpanRow.costUSD store.calls
  rw [trend, cost, split]
  exact add_eq_right

/-- The first row's user. -/
def firstUser (trace : List SpanRow) : Str := (trace.map SpanRow.userID).headD []

theorem firstUser_picks : Picks firstUser := by
  intro trace some
  obtain ⟨r, rest, rfl⟩ := List.exists_cons_of_ne_nil some
  exact ⟨r, List.mem_cons_self .., rfl⟩

/-- A run of ten seconds before the window and ten in it. -/
def straddlingRun : Store where
  calls := [⟨lit "t1", 50500, 60000, 2, lit "u", lit "w", [], []⟩, ⟨lit "t1", 70000, 70500, 3, lit "u", lit "w", [], []⟩]
  usageMetrics := []

def minuteUsage : MetricsFilter :=
  ⟨[], [lit "w"], [], [], 60500 * 1000000, 120500 * 1000000, 500 * 1000000, 7000 * 1000000⟩

theorem straddlingRun_oneUser : OneUser straddlingRun := by
  have user : ∀ r ∈ straddlingRun.calls, r.userID = lit "u" := by
    intro r member
    rcases List.mem_pair.mp member with rfl | rfl <;> rfl
  intro r member e member' _
  rw [user r member, user e member']

theorem straddlingRun_rows :
    userRows firstUser straddlingRun minuteUsage = [⟨lit "u", 0, 5, 0, 1, []⟩] := by
  decide +kernel

theorem straddlingRun_ranks : Ranks firstUser straddlingRun minuteUsage [⟨lit "u", 0, 5, 0, 1, []⟩] where
  perm := straddlingRun_rows ▸ .refl _
  sorted := List.pairwise_singleton _ _

theorem userUsage_trend_iff_straddlingRun :
    OneUser straddlingRun ∧
      ∀ u ∈ userUsage firstUser straddlingRun minuteUsage [⟨lit "u", 0, 5, 0, 1, []⟩] 50,
        u.trend.sum = u.cost ↔ straddlingCost straddlingRun minuteUsage u.userID = 0 :=
  ⟨straddlingRun_oneUser, userUsage_trend_iff firstUser firstUser_picks straddlingRun straddlingRun_oneUser
    minuteUsage (by decide) (by decide) (by decide) _ straddlingRun_ranks 50⟩

/-- Cost leaves the run to the preceding window; the sparkline shows what it cost in this one. -/
theorem straddlingRun_trend :
    OneUser straddlingRun ∧
      Ranks firstUser straddlingRun minuteUsage [⟨lit "u", 0, 5, 0, 1, []⟩] ∧
      (userUsage firstUser straddlingRun minuteUsage [⟨lit "u", 0, 5, 0, 1, []⟩] 50).map
        (fun u => (u.userID, u.cost, u.trend.sum)) = [(lit "u", 0, 3)] := by
  have trends : trendRows firstUser straddlingRun minuteUsage = [(lit "u", 70000, 3)] := by decide +kernel
  refine ⟨straddlingRun_oneUser, straddlingRun_ranks, ?_⟩
  rw [userUsage, trends]
  decide +kernel

end Tracium.Query
