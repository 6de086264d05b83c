import Tracium.Paging
import Tracium.Query.Headline
import Tracium.Query.Statements

/-! The trace listing: the spans of the window are grouped into traces, the traces that pass
the HAVING conditions are sorted by start time, and one page is cut out of them. Each page
is a query of its own; rows the sort does not tell apart come in any order. -/
namespace Tracium.Query

open Go GroupBy Paging

/-- The columns of tracium.calls the listing reads. -/
structure CallRow extends SpanRow where
  parentSpanID : Str
  name : Str
  model : Str
  workflowName : Str
  serviceName : Str
  workflowVersion : Str

structure Trace where
  traceID : Str
  name : Str
  workflowVersion : Str
  userID : Str
  workspaceID : Str
  startTimeMs : Int
  endTimeMs : Int
  durationMs : Int
  spanCount : Int
  hasError : Bool
  totalCostUSD : ℚ

/-! The aggregates of traceSelect. -/

/-- `argMinIf(value, …, cond)`: the value of a least row, '' when no row qualifies. -/
def argMinIf (less : CallRow → CallRow → Bool) (cond : CallRow → Bool) (value : CallRow → Str)
    (rows : List CallRow) : Str :=
  match rows.filter cond with
  | [] => []
  | first :: rest => value (rest.foldl (fun best r => if less r best then r else best) first)

def earlier (a b : CallRow) : Bool := a.startTimeMs < b.startTimeMs

/-- The order of `(parent_span_id != '', start_time_ms)`. -/
def rootFirst (a b : CallRow) : Bool :=
  (a.parentSpanID == [] && b.parentSpanID != []) ||
    ((a.parentSpanID == []) == (b.parentSpanID == []) && earlier a b)

/-- `coalesce(nullIf(…, ''), …, last)`. -/
def coalesce : List Str → Str → Str
  | [], last => last
  | s :: rest, last => if s = [] then coalesce rest last else s

def rootWorkflow : List CallRow → Str :=
  argMinIf earlier (fun r => r.workflowName != [] && r.parentSpanID == []) CallRow.workflowName

def anyWorkflow : List CallRow → Str := argMinIf earlier (fun r => r.workflowName != []) CallRow.workflowName

def anyService : List CallRow → Str := argMinIf earlier (fun r => r.serviceName != []) CallRow.serviceName

/-- The value of workflowExpr. -/
def workflowOf (rows : List CallRow) : Str :=
  coalesce [rootWorkflow rows, anyWorkflow rows, anyService rows]
    (argMinIf earlier (fun _ => true) CallRow.name rows)

/-- The value of versionExpr. -/
def versionOf : List CallRow → Str :=
  argMinIf rootFirst (fun r => r.workflowVersion != []) CallRow.workflowVersion

def traceNameOf (rows : List CallRow) : Str :=
  coalesce [rootWorkflow rows, anyWorkflow rows,
    argMinIf earlier (fun r => r.parentSpanID == []) CallRow.name rows, anyService rows]
    (argMinIf earlier (fun _ => true) CallRow.name rows)

/-- One row of traceSelect; `any` is the first row's value. -/
def traceOf (g : Str × List CallRow) : Trace :=
  let spans := g.2.map CallRow.toSpanRow
  { traceID := g.1
    name := traceNameOf g.2
    workflowVersion := versionOf g.2
    userID := (spans.head?.map SpanRow.userID).getD []
    workspaceID := (spans.head?.map SpanRow.workspaceID).getD []
    startTimeMs := startedMs spans
    endTimeMs := endedMs spans
    durationMs := traceDuration spans
    spanCount := spans.length
    hasError := errored spans
    totalCostUSD := (spans.map SpanRow.costUSD).sum }

/-! The filter. -/

def defaultTraceWindow : Int := 30 * 24 * 60 * 60 * 1000000000

/-- Validate. `startAfter` is what the request set, none for the zero time. -/
def TraceFilter.validate (f : TraceFilter) (startAfter : Option Int) (now : Int) : Except Str TraceFilter :=
  if f.pageSize > 200 then .error (lit "page_size must be <= 200")
  else .ok { f with
    pageSize := if f.pageSize ≤ 0 then 50 else f.pageSize
    page := if f.page ≤ 0 then 1 else f.page
    startAfter := startAfter.getD (now - defaultTraceWindow) }

/-- The WHERE clause of traceFilterSQL. -/
def TraceFilter.keeps (f : TraceFilter) (r : CallRow) : Bool :=
  unixMilli f.startAfter ≤ r.startTimeMs &&
    (f.startBefore.all fun before => r.startTimeMs < unixMilli before) &&
    (f.userID == [] || r.userID == f.userID) && f.workspaceIDs.contains r.workspaceID

/-- Its HAVING conditions. -/
def TraceFilter.admits (f : TraceFilter) (rows : List CallRow) : Bool :=
  (f.model == [] || rows.any fun r => r.model == f.model) &&
    (f.workflow == [] || workflowOf rows == f.workflow) &&
    (f.version == [] || versionOf rows == f.version) &&
    f.hasError.all fun flag => errored (rows.map CallRow.toSpanRow) == flag

/-- The traces that match the filter. -/
def matching (calls : List CallRow) (f : TraceFilter) : List Trace :=
  ((groupBy (fun r => r.traceID) (calls.filter f.keeps)).filter fun g => f.admits g.2).map traceOf

/-- The page query failed: ClickHouse takes no negative OFFSET. -/
inductive ListError
  | listTraces

/-- ListTraces, given the order in which its page query sorts the matching traces. -/
def listTraces (calls : List CallRow) (order : List Trace) (f : TraceFilter) :
    Except ListError (List Trace × Int) :=
  let total := wrap64 (matching calls f).length
  if f.offset < 0 then .error .listTraces
  else .ok ((order.drop f.offset.toNat).take f.pageSize.toNat, total)

/-- The number of pages, `ceil(total / page_size)`. -/
def pageCount (calls : List CallRow) (f : TraceFilter) : Nat :=
  ((matching calls f).length + f.pageSize.toNat - 1) / f.pageSize.toNat

/-- `ORDER BY started_ms DESC` over the matching traces. -/
def Sorts (calls : List CallRow) (f : TraceFilter) (order : List Trace) : Prop :=
  Ordered Trace.startTimeMs (matching calls f) order

/-- The listing of one filter, page by page: whatever order each query picks, the pages
hold every matching trace once, the total is their number, and the given page is empty if
it is beyond the last. -/
structure Enumerated (calls : List CallRow) (f : TraceFilter) (page : Int) : Prop where
  total : ∀ order, Sorts calls f order →
    ∃ traces, listTraces calls order { f with page := 1 } = .ok (traces, ↑(matching calls f).length)
  pages : ∀ orders : Nat → List Trace, (∀ i, Sorts calls f (orders i)) →
    ∃ pages : Nat → List Trace,
      (∀ i < pageCount calls f, ∃ total,
        listTraces calls (orders i) { f with page := i + 1 } = .ok (pages i, total)) ∧
      ((List.range (pageCount calls f)).flatMap pages).Perm (matching calls f)
  beyond : pageCount calls f < page → ∀ order, Sorts calls f order →
    ∃ total, listTraces calls order { f with page := page } = .ok ([], total)

/-- No start time is shared by traces on both sides of a page boundary, the number of
traces is an int64, and the offset of the given page, if it is beyond the last, is one
modulo 2^64 that is not before the end. -/
structure Enumerable (calls : List CallRow) (f : TraceFilter) (page : Int) : Prop where
  count : (matching calls f).length < 2 ^ 63
  untied : ∀ i, ¬ Cut Trace.startTimeMs (matching calls f) (i * f.pageSize.toNat)
  past : pageCount calls f < page →
    ↑(matching calls f).length ≤ (page - 1) * f.pageSize % 2 ^ 64 ∧
      (page - 1) * f.pageSize % 2 ^ 64 < 2 ^ 63

theorem validate_pageSize {f raw : TraceFilter} {startAfter : Option Int} {now : Int}
    (accepted : raw.validate startAfter now = .ok f) : 1 ≤ f.pageSize ∧ f.pageSize ≤ 200 := by
  rw [TraceFilter.validate] at accepted
  split at accepted
  · cases accepted
  · obtain rfl := Except.ok.inj accepted
    simp only
    split <;> omega

/-- One row per trace id. -/
theorem matching_nodup (calls : List CallRow) (f : TraceFilter) : (matching calls f).Nodup := by
  apply List.Nodup.of_map Trace.traceID
  have ids : (matching calls f).map Trace.traceID =
      ((groupBy (fun r : CallRow => r.traceID) (calls.filter f.keeps)).filter
        fun g => f.admits g.2).map Prod.fst := by
    rw [matching, List.map_map]
    rfl
  rw [ids]
  apply List.Nodup.sublist (List.filter_sublist.map Prod.fst)
  rw [groupBy_keys]
  exact List.nodup_dedup _

section Pages

variable {calls : List CallRow} {f : TraceFilter} {page : Int}

theorem lt_pageCount (positive : 0 < f.pageSize.toNat) {i : Nat} (inside : i < pageCount calls f) :
    i * f.pageSize.toNat < (matching calls f).length := by
  have most : (i + 1) * f.pageSize.toNat ≤ (matching calls f).length + f.pageSize.toNat - 1 :=
    (Nat.le_div_iff_mul_le positive).mp inside
  rw [Nat.succ_mul] at most
  omega

theorem pageCount_covers (positive : 0 < f.pageSize.toNat) :
    (matching calls f).length ≤ pageCount calls f * f.pageSize.toNat := by
  have split := Nat.div_add_mod ((matching calls f).length + f.pageSize.toNat - 1) f.pageSize.toNat
  have rest := Nat.mod_lt ((matching calls f).length + f.pageSize.toNat - 1) positive
  rw [Nat.mul_comm] at split
  rw [pageCount]
  omega

/-- Offsets that fit an int64 cut out the page. -/
theorem listTraces_page (order : List Trace) (size : 1 ≤ f.pageSize) {i : Nat}
    (fits : i * f.pageSize.toNat < 2 ^ 63) :
    listTraces calls order { f with page := i + 1 } =
      .ok (Paging.page order f.pageSize.toNat i, wrap64 (matching calls f).length) := by
  have exact_ : ((i : Int) + 1 - 1) * f.pageSize = ↑(i * f.pageSize.toNat) := by
    rw [Int.natCast_mul, Int.toNat_of_nonneg (by omega)]
    congr 1
    omega
  have offset : { f with page := (i : Int) + 1 }.offset = ↑(i * f.pageSize.toNat) := by
    rw [TraceFilter.offset, exact_, wrap64_of_range]
    simp only [InInt64, minInt64, maxInt64]
    omega
  rw [listTraces, offset, if_neg (by omega), Int.toNat_natCast]
  rfl

theorem total_iff (size : 1 ≤ f.pageSize) :
    (∀ order, Sorts calls f order →
      ∃ traces, listTraces calls order { f with page := 1 } = .ok (traces, ↑(matching calls f).length)) ↔
    (matching calls f).length < 2 ^ 63 := by
  have first : ∀ order, listTraces calls order { f with page := 1 } =
      .ok (Paging.page order f.pageSize.toNat 0, wrap64 (matching calls f).length) := by
    intro order
    exact listTraces_page order size (by omega : 0 * f.pageSize.toNat < 2 ^ 63)
  constructor
  · intro counted
    obtain ⟨order, sorted⟩ := exists_ordered Trace.startTimeMs (matching calls f)
    obtain ⟨traces, answer⟩ := counted order sorted
    rw [first order] at answer
    have same : wrap64 (matching calls f).length = (matching calls f).length :=
      (Prod.mk.inj (Except.ok.inj answer)).2
    simp only [wrap64] at same
    omega
  · intro fits order _
    have counted : wrap64 (matching calls f).length = (matching calls f).length := by
      apply wrap64_of_range
      simp only [InInt64, minInt64, maxInt64]
      omega
    exact ⟨_, by rw [first order, counted]⟩

/-- The pages are those of `Paging`, one listing each. -/
theorem pages_iff (size : 1 ≤ f.pageSize) (fits : (matching calls f).length < 2 ^ 63) :
    (∀ orders : Nat → List Trace, (∀ i, Sorts calls f (orders i)) →
      ∃ pages : Nat → List Trace,
        (∀ i < pageCount calls f, ∃ total,
          listTraces calls (orders i) { f with page := i + 1 } = .ok (pages i, total)) ∧
        ((List.range (pageCount calls f)).flatMap pages).Perm (matching calls f)) ↔
    ∀ i, ¬ Cut Trace.startTimeMs (matching calls f) (i * f.pageSize.toNat) := by
  have positive : 0 < f.pageSize.toNat := by omega
  have answer : ∀ order i, i < pageCount calls f →
      listTraces calls order { f with page := i + 1 } =
        .ok (Paging.page order f.pageSize.toNat i, wrap64 (matching calls f).length) := by
    intro order i inside
    have before := lt_pageCount positive inside
    exact listTraces_page order size (by omega)
  rw [← pages_perm_iff (matching_nodup calls f) (pageCount_covers positive)]
  constructor
  · intro listed orders each
    obtain ⟨pages, answered, complete⟩ := listed orders each
    have same : (List.range (pageCount calls f)).flatMap pages =
        (List.range (pageCount calls f)).flatMap fun i => Paging.page (orders i) f.pageSize.toNat i := by
      apply List.flatMap_congr
      intro i member
      have inside := List.mem_range.mp member
      obtain ⟨total, answered⟩ := answered i inside
      rw [answer (orders i) i inside] at answered
      exact (Prod.mk.inj (Except.ok.inj answered)).1.symm
    rwa [← same]
  · intro complete orders each
    refine ⟨fun i => Paging.page (orders i) f.pageSize.toNat i, ?_, complete orders each⟩
    intro i inside
    exact ⟨_, answer (orders i) i inside⟩

theorem page_empty_iff {order : List Trace} {offset size : Nat} (positive : 0 < size) :
    (order.drop offset).take size = [] ↔ order.length ≤ offset := by
  rw [List.take_eq_nil_iff, List.drop_eq_nil_iff]
  omega

/-- A page is empty when its offset, an int64, is a row count that reaches the end. -/
theorem empty_iff (size : 1 ≤ f.pageSize) :
    (∀ order, Sorts calls f order →
      ∃ total, listTraces calls order { f with page := page } = .ok ([], total)) ↔
    ↑(matching calls f).length ≤ (page - 1) * f.pageSize % 2 ^ 64 ∧
      (page - 1) * f.pageSize % 2 ^ 64 < 2 ^ 63 := by
  have offset : { f with page := page }.offset = wrap64 ((page - 1) * f.pageSize) := rfl
  have positive : 0 < f.pageSize.toNat := by omega
  constructor
  · intro empty
    obtain ⟨order, sorted⟩ := exists_ordered Trace.startTimeMs (matching calls f)
    obtain ⟨total, answer⟩ := empty order sorted
    have length := sorted.perm.length_eq
    rw [listTraces, offset] at answer
    by_cases negative : wrap64 ((page - 1) * f.pageSize) < 0
    · rw [if_pos negative] at answer
      cases answer
    · rw [if_neg negative] at answer
      have none := (page_empty_iff positive).mp (Prod.mk.inj (Except.ok.inj answer)).1
      simp only [wrap64] at negative none
      omega
  · rintro ⟨past, fits⟩ order sorted
    have length := sorted.perm.length_eq
    have exact_ : wrap64 ((page - 1) * f.pageSize) = (page - 1) * f.pageSize % 2 ^ 64 := by
      simp only [wrap64]
      omega
    have none : (order.drop ((page - 1) * f.pageSize % 2 ^ 64).toNat).take f.pageSize.toNat = [] := by
      rw [page_empty_iff positive]
      omega
    refine ⟨wrap64 (matching calls f).length, ?_⟩
    rw [listTraces, offset, exact_, if_neg (by omega)]
    simp only [none]
    rfl

end Pages

/-- For every filter that passes Validate and every page number: the listing is enumerated
exactly when ties stay within pages and the offset does not wrap back. -/
theorem listing_enumerated_iff (calls : List CallRow) (f raw : TraceFilter) (startAfter : Option Int) (now : Int)
    (accepted : raw.validate startAfter now = .ok f) (page : Int) :
    Enumerated calls f page ↔ Enumerable calls f page := by
  have size := (validate_pageSize accepted).1
  constructor
  · rintro ⟨total, pages, beyond⟩
    have count := (total_iff size).mp total
    exact ⟨count, (pages_iff size count).mp pages, fun last => (empty_iff size).mp (beyond last)⟩
  · rintro ⟨count, untied, past⟩
    exact ⟨(total_iff size).mpr count, (pages_iff size count).mpr untied,
      fun last => (empty_iff size).mpr (past last)⟩

/-- A trace of one call. -/
def oneCall (traceID : Str) (start : Int) : CallRow where
  traceID := traceID
  startTimeMs := start
  endTimeMs := start + 5
  costUSD := 1
  userID := lit "u"
  workspaceID := lit "w"
  errorType := []
  errorMessage := []
  parentSpanID := []
  name := lit "chat"
  model := lit "m"
  workflowName := []
  serviceName := []
  workflowVersion := []

/-- Everything in one workspace. -/
def pagesOf (pageSize : Int) : TraceFilter where
  userID := []
  workspaceIDs := [lit "w"]
  model := []
  workflow := []
  version := []
  hasError := none
  startAfter := 0
  startBefore := none
  page := 1
  pageSize := pageSize

theorem listing_enumerated_distinct :
    (pagesOf 50).validate (some 0) 0 = .ok (pagesOf 50) ∧
      Enumerated [oneCall (lit "a") 1, oneCall (lit "b") 2] (pagesOf 50) 7 := by
  have accepted : (pagesOf 50).validate (some 0) 0 = .ok (pagesOf 50) := rfl
  have two : (matching [oneCall (lit "a") 1, oneCall (lit "b") 2] (pagesOf 50)).length = 2 := by
    decide +kernel
  have size : (pagesOf 50).pageSize.toNat = 50 := rfl
  refine ⟨accepted, (listing_enumerated_iff _ _ _ _ _ accepted 7).mpr ⟨by omega, ?_, ?_⟩⟩
  · rintro i ⟨r, _, low, high⟩
    have most := high.trans_le List.countP_le_length
    rw [two] at most
    rw [size] at low most
    omega
  · intro _
    rw [two]
    decide

/-- Two traces that start together, one to a page: both pages may hold the same one. And a
page number whose offset wraps to zero shows the first page again. -/
theorem listing_repeats :
    (pagesOf 1).validate (some 0) 0 = .ok (pagesOf 1) ∧
      ¬ Enumerated [oneCall (lit "a") 1, oneCall (lit "b") 1] (pagesOf 1) 1 ∧
      (pagesOf 4).validate (some 0) 0 = .ok (pagesOf 4) ∧
      ¬ Enumerated [oneCall (lit "a") 1] (pagesOf 4) (2 ^ 62 + 1) := by
  refine ⟨rfl, ?_, rfl, ?_⟩
  · intro listed
    have size : 1 ≤ (pagesOf 1).pageSize := by decide
    have count := (total_iff size).mp listed.total
    apply (pages_iff size count).mp listed.pages 1
    refine ⟨traceOf (lit "a", [oneCall (lit "a") 1]), ?_, ?_, ?_⟩
    · exact List.mem_cons_self ..
    · decide +kernel
    · decide +kernel
  · intro listed
    have size : 1 ≤ (pagesOf 4).pageSize := by decide
    have beyond : (pageCount [oneCall (lit "a") 1] (pagesOf 4) : Int) < 2 ^ 62 + 1 := by decide +kernel
    have past := (empty_iff size).mp (listed.beyond beyond)
    have one : (matching [oneCall (lit "a") 1] (pagesOf 4)).length = 1 := by decide +kernel
    have four : (pagesOf 4).pageSize = 4 := rfl
    rw [one, four] at past
    omega

end Tracium.Query
