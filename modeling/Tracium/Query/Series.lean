import Mathlib.Data.List.Range
import Tracium.Go.Bytes
import Tracium.GroupBy

/-! The bucket axis of the metrics queries and the three ways a grouped result is laid
out on it. Times are nanoseconds since the epoch; Go's integer division truncates. -/
namespace Tracium.Query

open Go OrderedMap

/-- MetricsFilter without the anomaly fields, which only the anomaly queries read. -/
structure MetricsFilter where
  userID : Str
  workspaceIDs : List Str
  workflow : Str
  version : Str
  (start end' : Int)
  prevStart : Int
  bucket : Int

/-- Time.UnixMilli rounds down. -/
def unixMilli (t : Int) : Int := t / 1000000

/-- Duration.Milliseconds. -/
def milliseconds (d : Int) : Int := d.tdiv 1000000

def rollupThreshold : Int := 30 * 24 * 60 * 60 * 1000000000

def MetricsFilter.useRollup (f : MetricsFilter) : Bool := f.end' - f.start > rollupThreshold

/-- The contiguous grid over the window: aligned base, width and number of slots. -/
structure Axis where
  base : Int
  bucketMs : Int
  n : Nat

def bucketAxis (f : MetricsFilter) : Axis :=
  let bucketMs := milliseconds f.bucket
  let base := (unixMilli f.start).tdiv bucketMs * bucketMs
  let n := (unixMilli f.end' - base + bucketMs - 1).tdiv bucketMs
  ⟨base, bucketMs, if n < 1 then 1 else n.toNat⟩

def Axis.slot (a : Axis) (i : Nat) : Int := a.base + i * a.bucketMs

def Axis.slots (a : Axis) : List Int := (List.range a.n).map a.slot

/-- ClickHouse's `intDiv(t, w) * w`. -/
def bucketOf (bucketMs t : Int) : Int := t.tdiv bucketMs * bucketMs

variable {V P : Type}

/-- bucketSeries, given the rows its query returned; a Go map keeps the last of two rows
for one bucket. -/
def bucketSeries (f : MetricsFilter) (zero : V) (point : Int → V → P) (rows : List (Int × V)) : List P :=
  let byBucket := snapshot id rows
  (bucketAxis f).slots.map fun bm => point bm ((byBucket bm).getD zero)

/-- `int((bm - base) / bucketMs)`, when it is a slot of the axis. -/
def Axis.index (a : Axis) (bm : Int) : Option Nat :=
  let slot := (bm - a.base).tdiv a.bucketMs
  if 0 ≤ slot ∧ slot < a.n then some slot.toNat else none

/-- Write one value into its slot; a bucket outside the axis is ignored. -/
def Axis.write (a : Axis) (trend : List V) (bm : Int) (v : V) : List V :=
  match a.index bm with
  | some i => trend.set i v
  | none => trend

/-- zeroFillTrend; `counts` lists the map's entries in whatever order Go iterates. -/
def zeroFillTrend (f : MetricsFilter) (counts : List (Int × Int)) : List Int :=
  let a := bucketAxis f
  counts.foldl (fun trend e => a.write trend e.1 e.2) (List.replicate a.n 0)

/-- fillTrends on the trends of the ranked rows, whose keys are `names`: a result whose
key is not ranked is skipped, and a repeated key leads to its last row. -/
def fillTrends (f : MetricsFilter) (zero : V) (names : List Str) (results : List (Str × Int × V)) :
    List (List V) :=
  let a := bucketAxis f
  let idx := snapshot id names.zipIdx
  results.foldl (fun trends e =>
      match idx e.1 with
      | some i => trends.modify i fun trend => a.write trend e.2.1 e.2.2
      | none => trends)
    (names.map fun _ => List.replicate a.n zero)

/-! The axis holds the bucket of every instant of the window exactly once. -/

theorem slots_nodup (a : Axis) (positive : 0 < a.bucketMs) : a.slots.Nodup := by
  apply List.Nodup.map _ List.nodup_range
  intro i j same
  have scaled : (i : Int) * a.bucketMs = j * a.bucketMs := Int.add_left_cancel same
  exact Int.ofNat_inj.mp (Int.eq_of_mul_eq_mul_right (by omega) scaled)

/-- A window start before the epoch is rounded up to the grid, but no row lies between. -/
theorem base_quotient_le {bucketMs lo t : Int} (positive : 0 < bucketMs) (nonneg : 0 ≤ t)
    (after : lo ≤ t) : lo.tdiv bucketMs ≤ t.tdiv bucketMs := by
  rw [Int.tdiv_eq_ediv_of_nonneg nonneg]
  have quotient : 0 ≤ t / bucketMs := Int.ediv_nonneg nonneg (by omega)
  rcases Int.lt_or_le lo 0 with before | since
  · have rounded : 0 ≤ (-lo).tdiv bucketMs := Int.tdiv_nonneg (by omega) (by omega)
    rw [Int.neg_tdiv] at rounded
    omega
  · rw [Int.tdiv_eq_ediv_of_nonneg since]
    exact Int.ediv_le_ediv positive after

theorem bucketOf_mem_slots (f : MetricsFilter) {t : Int} (positive : 0 < milliseconds f.bucket)
    (nonneg : 0 ≤ t) (after : unixMilli f.start ≤ t) (before : t < unixMilli f.end') :
    bucketOf (milliseconds f.bucket) t ∈ (bucketAxis f).slots := by
  simp only [Axis.slots, Axis.slot, bucketAxis, bucketOf, List.mem_map, List.mem_range]
  have order := base_quotient_le positive nonneg after
  generalize milliseconds f.bucket = w at *
  have below : t.tdiv w * w ≤ t := by
    rw [Int.tdiv_eq_ediv_of_nonneg nonneg]
    exact Int.ediv_mul_le t (by omega)
  generalize (unixMilli f.start).tdiv w = q₀ at *
  generalize t.tdiv w = q at *
  have room : (q - q₀ + 1) * w ≤ unixMilli f.end' - q₀ * w + w - 1 := by
    have expand : (q - q₀ + 1) * w = q * w - q₀ * w + w := by
      rw [Int.add_mul, Int.sub_mul, Int.one_mul]
    omega
  have total : 0 ≤ (q - q₀ + 1) * w := Int.mul_nonneg (by omega) (by omega)
  have count : q - q₀ + 1 ≤ (unixMilli f.end' - q₀ * w + w - 1).tdiv w := by
    rw [Int.tdiv_eq_ediv_of_nonneg (by omega)]
    exact (Int.le_ediv_iff_mul_le positive).mpr room
  refine ⟨(q - q₀).toNat, ?_, ?_⟩
  · split <;> omega
  · rw [Int.toNat_of_nonneg (by omega), Int.sub_mul]
    omega

theorem bucketSeries_eq (f : MetricsFilter) (zero : V) (point : Int → V → P) (rows : List (Int × V))
    (distinct : DistinctKeys rows) : bucketSeries f zero point rows =
      (bucketAxis f).slots.map fun bm => point bm ((get rows bm).getD zero) := by
  simp only [bucketSeries, snapshot_of_distinct id rows distinct, Option.map_id, id_eq]

/-- A series sums to the grouped result it is made of, in any measure its zero has none of. -/
theorem bucketSeries_sum {M : Type} [AddCommMonoid M] (f : MetricsFilter) (positive : 0 < milliseconds f.bucket)
    (zero : V) (point : Int → V → P) (rows : List (Int × V)) (distinct : DistinctKeys rows)
    (onAxis : ∀ e ∈ rows, e.1 ∈ (bucketAxis f).slots) (ofPoint : P → M) (ofValue : V → M)
    (agree : ∀ bm v, ofPoint (point bm v) = ofValue v) (none : ofValue zero = 0) :
    ((bucketSeries f zero point rows).map ofPoint).sum = (rows.map fun e => ofValue e.2).sum := by
  have measured : DistinctKeys (rows.map fun e => (e.1, ofValue e.2)) := by
    have keys : (rows.map fun e => (e.1, ofValue e.2)).map Prod.fst = rows.map Prod.fst := by simp
    rw [DistinctKeys, keys]
    exact distinct
  have axis := GroupBy.sum_axis (bucketAxis f).slots (slots_nodup _ positive)
    (rows.map fun e => (e.1, ofValue e.2)) measured (by
      intro e member
      obtain ⟨row, inRows, rfl⟩ := List.mem_map.mp member
      exact onAxis row inRows)
  have slot : ∀ bm, ofPoint (point bm ((get rows bm).getD zero)) =
      (get (rows.map fun e => (e.1, ofValue e.2)) bm).getD 0 := by
    intro bm
    rw [get_map_value, agree]
    cases get rows bm with
    | none => exact none
    | some v => rfl
  rw [bucketSeries_eq f zero point rows distinct, List.map_map]
  simp only [Function.comp_def, slot, axis, List.map_map]

/-- A bucket without a slot is not drawn. -/
theorem bucketSeries_sum_onAxis {M : Type} [AddCommMonoid M] (f : MetricsFilter)
    (positive : 0 < milliseconds f.bucket) (zero : V) (point : Int → V → P) (rows : List (Int × V))
    (distinct : DistinctKeys rows) (ofPoint : P → M) (ofValue : V → M)
    (agree : ∀ bm v, ofPoint (point bm v) = ofValue v) (none : ofValue zero = 0) :
    ((bucketSeries f zero point rows).map ofPoint).sum =
      ((rows.filter fun e => e.1 ∈ (bucketAxis f).slots).map fun e => ofValue e.2).sum := by
  have distinct' : DistinctKeys (rows.filter fun e => e.1 ∈ (bucketAxis f).slots) :=
    distinct.sublist (List.filter_sublist.map _)
  have drawn : bucketSeries f zero point rows =
      bucketSeries f zero point (rows.filter fun e => e.1 ∈ (bucketAxis f).slots) := by
    rw [bucketSeries_eq f zero point rows distinct, bucketSeries_eq f zero point _ distinct']
    apply List.map_congr_left
    intro bm slot
    have same := get_removeIf (fun k => k ∉ (bucketAxis f).slots) rows bm
    simp only [removeIf, slot, not_true_eq_false, decide_false, Bool.false_eq_true, ↓reduceIte,
      decide_not, Bool.not_not] at same
    rw [same]
  rw [drawn]
  apply bucketSeries_sum f positive zero point _ distinct' _ ofPoint ofValue agree none
  intro e member
  exact of_decide_eq_true (List.mem_filter.mp member).2

/-! Filling the axis slot by slot. -/

theorem Axis.index_slot (a : Axis) (positive : 0 < a.bucketMs) (bound : i < a.n) :
    a.index (a.slot i) = some i := by
  have quotient : (a.slot i - a.base).tdiv a.bucketMs = i := by
    rw [Axis.slot, show a.base + i * a.bucketMs - a.base = i * a.bucketMs by omega,
      Int.mul_tdiv_cancel _ (by omega)]
  simp only [Axis.index, quotient]
  rw [if_pos ⟨by omega, by omega⟩, Int.toNat_natCast]

theorem Axis.write_slot (a : Axis) (positive : 0 < a.bucketMs) (bound : i < a.n) (g : Nat → V) (v : V) :
    a.write ((List.range a.n).map g) (a.slot i) v = (List.range a.n).map (Function.update g i v) := by
  rw [Axis.write, a.index_slot positive bound]
  apply List.ext_getElem
  · simp
  · intro j left right
    simp only [List.length_set, List.length_map, List.length_range] at left
    simp only [List.getElem_set, List.getElem_map, List.getElem_range, Function.update_apply]
    simp only [eq_comm]

/-- Distinct buckets land in distinct slots: nothing is dropped and nothing overwritten. -/
theorem Axis.foldl_write (a : Axis) (positive : 0 < a.bucketMs) (rows : List (Int × V))
    (distinct : DistinctKeys rows) (onAxis : ∀ e ∈ rows, e.1 ∈ a.slots) (g : Nat → V) :
    rows.foldl (fun trend e => a.write trend e.1 e.2) ((List.range a.n).map g) =
      (List.range a.n).map fun i => (get rows (a.slot i)).getD (g i) := by
  induction rows generalizing g with
  | nil => rfl
  | cons e rows ih =>
    obtain ⟨fresh, rest⟩ := List.nodup_cons.mp distinct
    obtain ⟨j, bound, key⟩ := List.mem_map.mp (onAxis e (List.mem_cons_self ..))
    rw [List.mem_range] at bound
    rw [List.foldl_cons, ← key, a.write_slot positive bound,
      ih rest fun e member => onAxis e (List.mem_cons_of_mem _ member)]
    apply List.map_congr_left
    intro i inRange
    rw [get_cons, ← key]
    by_cases same : i = j
    · subst same
      have absent : get rows (a.slot i) = none := get_eq_none (key ▸ fresh)
      simp [absent]
    · have apart : a.slot j ≠ a.slot i := by
        intro eq
        have index := congrArg a.index eq
        rw [a.index_slot positive bound, a.index_slot positive (List.mem_range.mp inRange)] at index
        exact same (Option.some.inj index).symm
      simp [apart, Function.update_of_ne same]

theorem range_map_const (n : Nat) (zero : V) :
    List.replicate n zero = (List.range n).map fun _ => zero := by
  simp

theorem zeroFillTrend_eq (f : MetricsFilter) (positive : 0 < milliseconds f.bucket)
    (counts : List (Int × Int)) (distinct : DistinctKeys counts)
    (onAxis : ∀ e ∈ counts, e.1 ∈ (bucketAxis f).slots) :
    zeroFillTrend f counts = (bucketAxis f).slots.map fun bm => (get counts bm).getD 0 := by
  rw [zeroFillTrend, range_map_const, (bucketAxis f).foldl_write positive counts distinct onAxis,
    Axis.slots, List.map_map]
  rfl

/-- The index of a ranked row by its name. -/
theorem snapshot_zipIdx_iff {names : List Str} (distinct : names.Nodup) {name : Str} {i : Nat} :
    snapshot id names.zipIdx name = some i ↔ names[i]? = some name := by
  have keys : DistinctKeys names.zipIdx := by
    rw [DistinctKeys, List.zipIdx_map_fst]
    exact distinct
  rw [snapshot_of_distinct id _ keys, Option.map_id, id_eq, get_eq_some_iff_mem keys,
    List.mem_zipIdx_iff_getElem?]

/-- One result row changes the trend of the row it names, if that is ranked. -/
theorem fillTrends_step {names : List Str} (distinct : names.Nodup) (trend : Str → List V) (name : Str)
    (write : List V → List V) :
    (match snapshot id names.zipIdx name with
      | some i => (names.map trend).modify i write
      | none => names.map trend) = names.map (Function.update trend name (write (trend name))) := by
  split
  · next i found =>
    rw [snapshot_zipIdx_iff distinct] at found
    apply List.ext_getElem?
    intro j
    rw [List.getElem?_modify, List.getElem?_map, List.getElem?_map]
    by_cases same : i = j
    · subst same
      simp [found]
    · cases other : names[j]? with
      | none => rfl
      | some name' =>
        have apart : name' ≠ name := by
          rintro rfl
          obtain ⟨bound, _⟩ := List.getElem?_eq_some_iff.mp found
          exact same ((List.getElem?_inj bound distinct).mp (found.trans other.symm))
        simp [same, Function.update_of_ne apart]
  · next missing =>
    apply List.map_congr_left
    intro name' member
    have apart : name' ≠ name := by
      rintro rfl
      obtain ⟨i, found⟩ := List.getElem?_of_mem member
      rw [(snapshot_zipIdx_iff distinct).mpr found] at missing
      cases missing
    rw [Function.update_of_ne apart]

/-- Every trend is the fold of the results that carry its row's name. -/
theorem fillTrends_foldl (a : Axis) {names : List Str} (distinct : names.Nodup)
    (results : List (Str × Int × V)) (trend : Str → List V) :
    results.foldl (fun trends e =>
      match snapshot id names.zipIdx e.1 with
      | some i => trends.modify i fun trend => a.write trend e.2.1 e.2.2
      | none => trends) (names.map trend) =
    names.map fun name => ((results.filter fun e => e.1 = name).map Prod.snd).foldl
      (fun trend e => a.write trend e.1 e.2) (trend name) := by
  induction results generalizing trend with
  | nil => rfl
  | cons e results ih =>
    rw [List.foldl_cons, fillTrends_step distinct trend e.1 fun trend => a.write trend e.2.1 e.2.2, ih]
    apply List.map_congr_left
    intro name _
    by_cases same : e.1 = name
    · subst same
      simp
    · simp [same, Function.update_of_ne (Ne.symm same)]

/-- The results of one name, keyed by bucket. -/
theorem get_filter_name (results : List (Str × Int × V)) (name : Str) (bm : Int) :
    get ((results.filter fun e => e.1 = name).map Prod.snd) bm =
      get (results.map fun e => ((e.1, e.2.1), e.2.2)) (name, bm) := by
  induction results with
  | nil => rfl
  | cons e results ih =>
    rw [List.map_cons, get_cons, ← ih]
    by_cases same : e.1 = name
    · by_cases bucket : e.2.1 = bm
      · simp [same, bucket, get_cons]
      · simp [same, bucket, get_cons]
    · simp [same]

theorem distinct_filter_name {results : List (Str × Int × V)}
    (distinct : DistinctKeys (results.map fun e => ((e.1, e.2.1), e.2.2))) (name : Str) :
    DistinctKeys ((results.filter fun e => e.1 = name).map Prod.snd) := by
  simp only [DistinctKeys, List.Nodup, List.pairwise_map] at distinct ⊢
  apply (distinct.filter _).imp_of_mem
  intro e e' member member' apart same
  have name_eq : e.1 = e'.1 := by
    have left := (List.mem_filter.mp member).2
    have right := (List.mem_filter.mp member').2
    simp only [decide_eq_true_eq] at left right
    rw [left, right]
  exact apart (Prod.ext name_eq same)

theorem fillTrends_eq (f : MetricsFilter) (positive : 0 < milliseconds f.bucket) (zero : V)
    (names : List Str) (ranked : names.Nodup) (results : List (Str × Int × V))
    (distinct : DistinctKeys (results.map fun e => ((e.1, e.2.1), e.2.2)))
    (onAxis : ∀ e ∈ results, e.2.1 ∈ (bucketAxis f).slots) :
    fillTrends f zero names results = names.map fun name => (bucketAxis f).slots.map fun bm =>
      (get (results.map fun e => ((e.1, e.2.1), e.2.2)) (name, bm)).getD zero := by
  rw [fillTrends, fillTrends_foldl (bucketAxis f) ranked]
  apply List.map_congr_left
  intro name _
  have keys := distinct_filter_name distinct name
  rw [range_map_const, (bucketAxis f).foldl_write positive _ keys, Axis.slots, List.map_map]
  · apply List.map_congr_left
    intro i _
    rw [get_filter_name]
    rfl
  · intro e member
    obtain ⟨row, inResults, rfl⟩ := List.mem_map.mp member
    exact onAxis row (List.mem_filter.mp inResults).1

end Tracium.Query
