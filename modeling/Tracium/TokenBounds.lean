import Tracium.Isolation

/-! Stored token counts. Usage reconciles the output count with wrapping int64
arithmetic before ValidateEnricher looks at it, and ValidateEnricher has no lower bound:
a remainder that leaves the int64 range below is stored as a negative count. -/
namespace Tracium

open Go OrderedMap Processor

variable {F : Type} {rt : Platform F}

/-- Both stored counts are within the ingest bounds. -/
def Span.CountsBounded (row : Span F) : Prop :=
  (0 ≤ row.inputTokens ∧ row.inputTokens ≤ maxTokensPerCall) ∧
    0 ≤ row.outputTokens ∧ row.outputTokens ≤ maxTokensPerCall

namespace GenAI

theorem parseInt_range (s : Str) : InInt64 (parseInt rt s) := by
  unfold parseInt
  split
  · decide
  · split
    · next parsed => exact parseInt64_range parsed
    · split
      · next f _ =>
        have low := Int64.le_toInt (rt.truncate f)
        have high := Int64.toInt_lt (rt.truncate f)
        simp only [InInt64, minInt64, maxInt64]
        omega
      · decide

theorem firstInt_range (attrs : StringMap) (keys : List Str) :
    0 ≤ firstInt rt attrs keys ∧ firstInt rt attrs keys ≤ maxInt64 := by
  induction keys with
  | nil => simp [firstInt, maxInt64]
  | cons k keys ih =>
    have bounds : InInt64 (parseInt rt (index attrs k)) := parseInt_range _
    simp only [firstInt]
    split
    · exact ⟨by omega, bounds.2⟩
    · exact ih

/-- The total the sender reports next to the single counts. -/
def reportedTotal (rt : Platform F) (attrs : StringMap) : Int :=
  firstInt rt attrs [attrTotalTokens, attrLLMTotalTokens]

/-- What the reported total leaves unexplained, in exact arithmetic. -/
def exactRemainder (rt : Platform F) (attrs : StringMap) : Int :=
  reportedTotal rt attrs - (reported rt attrs).inputTokens - (reported rt attrs).outputTokens -
    (reported rt attrs).cacheReadTokens - (reported rt attrs).cacheWriteTokens

/-- No reconciliation takes place, or its remainder fits int64 from below. -/
def RemainderFits (rt : Platform F) (attrs : StringMap) : Prop :=
  reportedTotal rt attrs = 0 ∨ (reported rt attrs).inputTokens = 0 ∨
    minInt64 ≤ exactRemainder rt attrs

/-- The four wrapping subtractions amount to one. -/
theorem wrapped_remainder (total input output cacheRead cacheWrite : Int) :
    wrap64 (wrap64 (wrap64 (wrap64 (total - input) - output) - cacheRead) - cacheWrite) =
      wrap64 (total - input - output - cacheRead - cacheWrite) := by
  rw [wrap64_sub_right (total - input), wrap64_sub_right (total - input - output), wrap64_sub_right]

theorem reconciled_eq (attrs : StringMap) : reconciled rt attrs =
    if reportedTotal rt attrs = 0 ∨ (reported rt attrs).inputTokens = 0 then reported rt attrs
    else if wrap64 (exactRemainder rt attrs) ≤ 0 then reported rt attrs
    else { reported rt attrs with
      outputTokens := wrap64 ((reported rt attrs).outputTokens + wrap64 (exactRemainder rt attrs))
      outputTokensDerived := true } := by
  simp only [reconciled, TokenUsage.reconcileOutput, wrapped_remainder]
  rfl

variable (rt)

/-- Reconciliation changes the output count only. -/
theorem reconciled_others (attrs : StringMap) :
    (reconciled rt attrs).inputTokens = (reported rt attrs).inputTokens ∧
      (reconciled rt attrs).cacheReadTokens = (reported rt attrs).cacheReadTokens ∧
      (reconciled rt attrs).cacheWriteTokens = (reported rt attrs).cacheWriteTokens := by
  rw [reconciled_eq]
  split
  · exact ⟨rfl, rfl, rfl⟩
  · split <;> exact ⟨rfl, rfl, rfl⟩

/-- Once the other counts are validated, the reconciled output is negative exactly when
the remainder underflowed. -/
theorem reconciled_output_nonneg_iff (attrs : StringMap)
    (input : (reported rt attrs).inputTokens ≤ maxTokensPerCall)
    (cacheRead : (reported rt attrs).cacheReadTokens ≤ maxTokensPerCall)
    (cacheWrite : (reported rt attrs).cacheWriteTokens ≤ maxTokensPerCall) :
    0 ≤ (reconciled rt attrs).outputTokens ↔ RemainderFits rt attrs := by
  have inputRange : 0 ≤ (reported rt attrs).inputTokens ∧ (reported rt attrs).inputTokens ≤ maxInt64 :=
    firstInt_range attrs _
  have outputRange : 0 ≤ (reported rt attrs).outputTokens ∧
      (reported rt attrs).outputTokens ≤ maxInt64 := firstInt_range attrs _
  have readRange : 0 ≤ (reported rt attrs).cacheReadTokens ∧
      (reported rt attrs).cacheReadTokens ≤ maxInt64 := firstInt_range attrs _
  have writeRange : 0 ≤ (reported rt attrs).cacheWriteTokens ∧
      (reported rt attrs).cacheWriteTokens ≤ maxInt64 := firstInt_range attrs _
  have totalRange : 0 ≤ reportedTotal rt attrs ∧ reportedTotal rt attrs ≤ maxInt64 :=
    firstInt_range attrs _
  have exact_eq : exactRemainder rt attrs = reportedTotal rt attrs -
    (reported rt attrs).inputTokens - (reported rt attrs).outputTokens -
    (reported rt attrs).cacheReadTokens - (reported rt attrs).cacheWriteTokens := rfl
  rw [reconciled_eq, RemainderFits]
  generalize reportedTotal rt attrs = total at *
  generalize exactRemainder rt attrs = remainder at *
  simp only [maxTokensPerCall, maxInt64] at *
  split
  · next unreconciled => simp only [outputRange.1, true_iff]; tauto
  · next reconciles =>
    rw [not_or] at reconciles
    have positive := wrap64_pos_iff (n := remainder) (by omega) (by simp only [maxInt64]; omega)
    split
    · next explained => simp only [outputRange.1, true_iff]; omega
    · next unexplained =>
      rw [wrap64_add_wrap64]
      have inRange : InInt64 ((reported rt attrs).outputTokens + remainder) := by
        simp only [InInt64, minInt64, maxInt64]
        omega
      rw [wrap64_of_range inRange]
      simp only [minInt64] at *
      omega

end GenAI

/-- What an accepted span stores is what was reported and reconciled. -/
theorem storedRow_counts {p : TraciumProcessor F} {ctx : RequestContext} {resource : Attributes F}
    {s : OtlpSpan F} {row : Span F} (stored : storedRow rt p ctx resource s = some row) :
    row.inputTokens = (GenAI.reconciled rt (attrMap rt s.attributes)).inputTokens ∧
      row.outputTokens = (GenAI.reconciled rt (attrMap rt s.attributes)).outputTokens := by
  obtain ⟨_, _, rfl⟩ := storedRow_eq_some_iff.mp stored
  have same : GenAI.reconciled rt (attrMap rt (enrichedSpan rt p s _).attributes) = _ :=
    reconciled_enriched p s (chainResult rt p ctx resource s).1
  have input := congrArg GenAI.TokenUsage.inputTokens same
  have output := congrArg GenAI.TokenUsage.outputTokens same
  exact ⟨input, output⟩

/-- An accepted span passed the upper bounds, on the reconciled counts. -/
theorem storedRow_validated {p : TraciumProcessor F} {ctx : RequestContext}
    {resource : Attributes F} {s : OtlpSpan F} {row : Span F}
    (stored : storedRow rt p ctx resource s = some row) :
    (GenAI.reconciled rt (attrMap rt s.attributes)).inputTokens ≤ maxTokensPerCall ∧
      (GenAI.reconciled rt (attrMap rt s.attributes)).outputTokens ≤ maxTokensPerCall ∧
      (GenAI.reconciled rt (attrMap rt s.attributes)).cacheReadTokens ≤ maxTokensPerCall ∧
      (GenAI.reconciled rt (attrMap rt s.attributes)).cacheWriteTokens ≤ maxTokensPerCall := by
  obtain ⟨_, accepted, _⟩ := storedRow_eq_some_iff.mp stored
  exact (validateError_none (defaultChain_validated p.chain _ accepted)).counts

theorem storedRow_bounded_iff {p : TraciumProcessor F} {ctx : RequestContext}
    {resource : Attributes F} {s : OtlpSpan F} {row : Span F}
    (stored : storedRow rt p ctx resource s = some row) :
    row.CountsBounded ↔ GenAI.RemainderFits rt (attrMap rt s.attributes) := by
  obtain ⟨input, output⟩ := storedRow_counts stored
  obtain ⟨inputMax, outputMax, readMax, writeMax⟩ := storedRow_validated stored
  obtain ⟨inputSame, readSame, writeSame⟩ :=
    GenAI.reconciled_others rt (attrMap rt s.attributes)
  have inputMin : 0 ≤ (GenAI.reported rt (attrMap rt s.attributes)).inputTokens :=
    (GenAI.firstInt_range _ _).1
  have sign := GenAI.reconciled_output_nonneg_iff rt (attrMap rt s.attributes)
    (inputSame ▸ inputMax) (readSame ▸ readMax) (writeSame ▸ writeMax)
  rw [Span.CountsBounded, input, output, ← sign, inputSame]
  rw [inputSame] at inputMax
  exact ⟨fun bounded => bounded.2.1, fun nonneg => ⟨⟨inputMin, inputMax⟩, nonneg, outputMax⟩⟩

theorem usageRow_bounded {attrs : Attributes F} {tokens : Int} {ts : UInt64} {row : Span F}
    (stored : Exporter.usageRow rt attrs tokens ts = some row) : row.CountsBounded := by
  unfold Exporter.usageRow at stored
  split at stored
  · cases stored
  · next inRange =>
    simp only [tokensInRange, Bool.not_eq_true, Bool.not_eq_false', Bool.and_eq_true,
      decide_eq_true_eq] at inRange
    rw [← Option.some.inj stored]
    have max : (0 : Int) ≤ maxTokensPerCall := by decide
    simp only [Span.CountsBounded]
    split
    · exact ⟨⟨Int.le_refl 0, max⟩, inRange⟩
    · exact ⟨inRange, Int.le_refl 0, max⟩

theorem usageRows_bounded {m : Metric F} {row : Span F} (member : row ∈ Exporter.usageRows rt m) :
    row.CountsBounded := by
  unfold Exporter.usageRows at member
  split at member
  · obtain ⟨dp, _, stored⟩ := List.mem_filterMap.mp member
    exact usageRow_bounded stored
  · obtain ⟨dp, _, stored⟩ := List.mem_filterMap.mp member
    exact usageRow_bounded stored
  · cases member

theorem stored_counts_bounded_iff :
    (∀ (p : TraciumProcessor F) ctx resource s row, storedRow rt p ctx resource s = some row →
      (row.CountsBounded ↔ GenAI.RemainderFits rt (attrMap rt s.attributes))) ∧
    ∀ (p : MetricsProcessor F) ctx md, ∀ row ∈ Exporter.pushMetrics rt (processMetrics rt p ctx md),
      row.CountsBounded := by
  constructor
  · intro p ctx resource s row stored
    exact storedRow_bounded_iff stored
  · intro p ctx md row member
    obtain ⟨_, _, _, _, _, exported⟩ := mem_pushMetrics member
    exact usageRows_bounded exported

/-- An output count near the int64 maximum beside a small total. -/
def underflowing : Attributes Int :=
  [(GenAI.attrInputTokens, .str (lit "10")),
    (GenAI.attrOutputTokens, .str (lit "9223372036854775807")),
    (GenAI.attrTotalTokens, .str (lit "1"))]

theorem underflowing_kept : (storedRow plainPlatform (plainProcessor true)
    (verifiedContext (lit "mine")) [] (plainSpan underflowing)).isSome = true := by
  decide +kernel

theorem stored_counts_bounded_iff_underflowing :
    ¬ GenAI.RemainderFits plainPlatform (attrMap plainPlatform underflowing) ∧
    ¬ ((storedRow plainPlatform (plainProcessor true) (verifiedContext (lit "mine")) []
      (plainSpan underflowing)).get underflowing_kept).CountsBounded := by
  have unfit : ¬ GenAI.RemainderFits plainPlatform (attrMap plainPlatform underflowing) := by
    unfold GenAI.RemainderFits
    decide +kernel
  exact ⟨unfit, fun bounded => unfit ((stored_counts_bounded_iff.1 _ _ _ _ _
    (Option.some_get underflowing_kept).symm).mp bounded)⟩

theorem stored_output_negative :
    (storedRow plainPlatform (plainProcessor true) (verifiedContext (lit "mine")) []
      (plainSpan underflowing)).map Span.outputTokens = some (-9) ∧
    ¬ ∀ row, storedRow plainPlatform (plainProcessor true) (verifiedContext (lit "mine")) []
      (plainSpan underflowing) = some row → row.CountsBounded := by
  have negative : (storedRow plainPlatform (plainProcessor true) (verifiedContext (lit "mine")) []
      (plainSpan underflowing)).map Span.outputTokens = some (-9) := by
    decide +kernel
  refine ⟨negative, fun bounded => ?_⟩
  obtain ⟨row, stored, output⟩ := Option.map_eq_some_iff.mp negative
  have nonneg := (bounded row stored).2.1
  rw [output] at nonneg
  omega

end Tracium
