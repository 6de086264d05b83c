import Tracium.Pipeline

/-! Stored timing. ValidateEnricher lets a span through that reports no end, and the
exporter stores the difference of the two timestamps all the same. -/
namespace Tracium

open Go OrderedMap Processor

variable {F : Type} {rt : Platform F}

/-- What every latency figure takes for granted of a row. -/
structure Span.TimingSane (row : Span F) : Prop where
  started : 0 < row.startTimeMs
  ordered : row.startTimeMs ≤ row.endTimeMs
  duration : row.durationMs = row.endTimeMs - row.startTimeMs
  nonneg : 0 ≤ row.durationMs

/-- A trace's latency: its last end less its first start. -/
def traceLatency (first : Span F) (others : List (Span F)) : Int :=
  others.foldl (fun last row => max last row.endTimeMs) first.endTimeMs -
    others.foldl (fun start row => min start row.startTimeMs) first.startTimeMs

/-- The only timestamps UnixMilli rounds to zero are those of the first millisecond. -/
theorem unixMilli_eq_zero_iff (ts : UInt64) : unixMilli ts = 0 ↔ ts.toNat < 1000000 := by
  have bound := ts.toNat_lt
  simp only [unixMilli, wrap64]
  omega

/-- A stored row carries the timestamps of the span it was read from. -/
theorem storedRow_timing {p : TraciumProcessor F} {ctx : RequestContext} {resource : Attributes F}
    {s : OtlpSpan F} {row : Span F} (stored : storedRow rt p ctx resource s = some row) :
    row.startTimeMs = unixMilli s.startTimestamp ∧ row.endTimeMs = unixMilli s.endTimestamp ∧
      row.durationMs = unixMilli s.endTimestamp - unixMilli s.startTimestamp ∧
      0 < unixMilli s.startTimestamp ∧
      (unixMilli s.endTimestamp = 0 ∨ unixMilli s.startTimestamp ≤ unixMilli s.endTimestamp) := by
  obtain ⟨_, accepted, rfl⟩ := storedRow_eq_some_iff.mp stored
  have checked := validateError_none (defaultChain_validated p.chain _ accepted)
  exact ⟨rfl, rfl, rfl, checked.started, checked.ended⟩

theorem le_lastEnd (rows : List (Span F)) (n : Int) :
    n ≤ rows.foldl (fun last row => max last row.endTimeMs) n := by
  induction rows generalizing n with
  | nil => exact Int.le_refl n
  | cons row rows ih =>
    have later := ih (max n row.endTimeMs)
    rw [List.foldl_cons]
    omega

theorem firstStart_le (rows : List (Span F)) (n : Int) :
    rows.foldl (fun start row => min start row.startTimeMs) n ≤ n := by
  induction rows generalizing n with
  | nil => exact Int.le_refl n
  | cons row rows ih =>
    have later := ih (min n row.startTimeMs)
    rw [List.foldl_cons]
    omega

/-- A latency that covers a sane row is at least that row's duration. -/
theorem traceLatency_nonneg {first : Span F} {others : List (Span F)}
    (sane : first.TimingSane) : 0 ≤ traceLatency first others := by
  have upper := le_lastEnd others first.endTimeMs
  have lower := firstStart_le others first.startTimeMs
  have ordered := sane.ordered
  unfold traceLatency
  omega

/-- An accepted span is stored with sane timing exactly when it reports an end that is
not within the first millisecond of the epoch; traces of such spans have no negative
latency. -/
theorem stored_timing_sane_iff :
    (∀ (p : TraciumProcessor F) ctx resource s row, storedRow rt p ctx resource s = some row →
      (row.TimingSane ↔ 1000000 ≤ s.endTimestamp.toNat)) ∧
    ∀ (first : Span F) others, first.TimingSane → 0 ≤ traceLatency first others := by
  refine ⟨?_, fun first others sane => traceLatency_nonneg sane⟩
  intro p ctx resource s row stored
  obtain ⟨startEq, endEq, durationEq, started, ordered⟩ := storedRow_timing stored
  have unset := unixMilli_eq_zero_iff s.endTimestamp
  constructor
  · intro sane
    have positive := sane.started
    have later := sane.ordered
    rw [startEq, endEq] at later
    by_contra early
    have none : unixMilli s.endTimestamp = 0 := unset.mpr (by omega)
    omega
  · intro reported
    have ended : unixMilli s.endTimestamp ≠ 0 := fun none => by
      have := unset.mp none
      omega
    have later : unixMilli s.startTimestamp ≤ unixMilli s.endTimestamp := by
      rcases ordered with none | later
      · exact absurd none ended
      · exact later
    exact {
      started := by rw [startEq]; exact started
      ordered := by rw [startEq, endEq]; exact later
      duration := by rw [durationEq, startEq, endEq]
      nonneg := by rw [durationEq]; omega }

/-- A span whose end was never set. -/
def unendedSpan : OtlpSpan Int :=
  { plainSpan [] with startTimestamp := 1700000000000000000, endTimestamp := 0 }

theorem stored_timing_unended :
    (storedRow plainPlatform (plainProcessor true) (verifiedContext (lit "mine")) []
      unendedSpan).map Span.durationMs = some (-1700000000000) ∧
    ¬ ∀ row, storedRow plainPlatform (plainProcessor true) (verifiedContext (lit "mine")) []
      unendedSpan = some row → row.TimingSane := by
  have negative : (storedRow plainPlatform (plainProcessor true) (verifiedContext (lit "mine")) []
      unendedSpan).map Span.durationMs = some (-1700000000000) := by
    decide +kernel
  refine ⟨negative, fun sane => ?_⟩
  obtain ⟨row, stored, duration⟩ := Option.map_eq_some_iff.mp negative
  have nonneg := (sane row stored).nonneg
  rw [duration] at nonneg
  omega

theorem plainSpan_kept : (storedRow plainPlatform (plainProcessor true)
    (verifiedContext (lit "mine")) [] (plainSpan [])).isSome = true := by
  decide +kernel

theorem stored_timing_sane_plain :
    ((storedRow plainPlatform (plainProcessor true) (verifiedContext (lit "mine")) []
      (plainSpan [])).get plainSpan_kept).TimingSane :=
  (stored_timing_sane_iff.1 (plainProcessor true) (verifiedContext (lit "mine")) [] (plainSpan []) _
    (Option.some_get plainSpan_kept).symm).mpr (by decide)

end Tracium
