import Tracium.Pricing
import Tracium.Chain
import Mathlib.Algebra.Order.Ring.Rat

/-! What a call can cost: the arithmetic of normalize stays inside int64 on every usage
the validation lets through, and no price leaves the range its rates span. -/
namespace Tracium.Pricing

open Go

/-- The bounds ValidateEnricher puts on the four counts. A negative count passes it. -/
structure WithinLimit (u : PricingUsage) : Prop where
  input : u.input ≤ maxTokensPerCall
  output : u.output ≤ maxTokensPerCall
  cacheRead : u.cacheRead ≤ maxTokensPerCall
  cacheCreation : u.cacheCreation ≤ maxTokensPerCall

/-- The counts after normalize has floored them. -/
def floored (u : PricingUsage) : PricingUsage :=
  ⟨floorZero u.input, floorZero u.output, floorZero u.cacheRead, floorZero u.cacheCreation⟩

def cachedTokens (u : PricingUsage) : Int := u.cacheRead + u.cacheCreation

@[simp] theorem floorZero_nonneg (n : Int) : 0 ≤ floorZero n := le_max_right n 0

theorem floorZero_le {n bound : Int} (nonneg : 0 ≤ bound) (le : n ≤ bound) :
    floorZero n ≤ bound := max_le le nonneg

theorem floorZero_small {n : Int} (le : n ≤ maxTokensPerCall) :
    0 ≤ floorZero n ∧ floorZero n < 2 ^ 61 := by
  have bounded : floorZero n ≤ maxTokensPerCall := floorZero_le (by decide) le
  simp only [maxTokensPerCall] at bounded
  exact ⟨floorZero_nonneg n, by omega⟩

theorem normalize_floored (u : PricingUsage) : normalize (floored u) = normalize u := by
  simp only [normalize, floored, floorZero_of_nonneg (floorZero_nonneg _)]

theorem normalize_withinLimit {u : PricingUsage} (within : WithinLimit u) :
    normalize u =
      if cachedTokens (floored u) ≤ (floored u).input then
        ({ floored u with input := (floored u).input - cachedTokens (floored u) }, (floored u).input)
      else (floored u, (floored u).input + cachedTokens (floored u)) := by
  rw [← normalize_floored]
  apply normalize_of_small
  · exact floorZero_small within.input
  · exact floorZero_nonneg u.output
  · exact floorZero_small within.cacheRead
  · exact floorZero_small within.cacheCreation

/-! The three sums of normalize. -/

theorem sums_inInt64 {u : PricingUsage} (within : WithinLimit u) :
    InInt64 (cachedTokens (floored u)) ∧
      InInt64 ((floored u).input - cachedTokens (floored u)) ∧
      InInt64 ((floored u).input + cachedTokens (floored u)) := by
  have input := floorZero_small within.input
  have read := floorZero_small within.cacheRead
  have creation := floorZero_small within.cacheCreation
  simp only [InInt64, minInt64, maxInt64, cachedTokens, floored]
  omega

/-! The split. -/

/-- What normalize promises: no negative count, the three prompt classes add up to the
prompt, and the prompt is one of the two readings of the report. -/
structure IsSplit (counts billable : PricingUsage) (promptTokens : Int) : Prop where
  input_nonneg : 0 ≤ billable.input
  output_eq : billable.output = counts.output
  cacheRead_eq : billable.cacheRead = counts.cacheRead
  cacheCreation_eq : billable.cacheCreation = counts.cacheCreation
  adds_up : billable.input + billable.cacheRead + billable.cacheCreation = promptTokens
  input_le : counts.input ≤ promptTokens
  cached_le : cachedTokens counts ≤ promptTokens
  le_sum : promptTokens ≤ counts.input + cachedTokens counts

theorem normalize_isSplit {u : PricingUsage} (within : WithinLimit u) :
    IsSplit (floored u) (normalize u).1 (normalize u).2 := by
  have input : 0 ≤ (floored u).input := floorZero_nonneg u.input
  have read : 0 ≤ (floored u).cacheRead := floorZero_nonneg u.cacheRead
  have creation : 0 ≤ (floored u).cacheCreation := floorZero_nonneg u.cacheCreation
  rw [normalize_withinLimit within]
  generalize floored u = counts at *
  have cached : cachedTokens counts = counts.cacheRead + counts.cacheCreation := rfl
  by_cases inclusive : cachedTokens counts ≤ counts.input
  · rw [if_pos inclusive]
    exact ⟨by simp only; omega, rfl, rfl, rfl, by simp only; omega, by omega, by omega, by omega⟩
  · rw [if_neg inclusive]
    exact ⟨input, rfl, rfl, rfl, by simp only; omega, by omega, by omega, by omega⟩

/-! The rates. -/

/-- The rate a cached token is read at. -/
def Rates.readRate (r : Rates) : ℚ :=
  if r.cacheReadPerToken = 0 then r.inputPerToken else r.cacheReadPerToken

/-- The rate a cached token is written at. -/
def Rates.writeRate (r : Rates) : ℚ :=
  if r.cacheCreationPerToken = 0 then r.inputPerToken else r.cacheCreationPerToken

/-- The largest rate any token is billed at. -/
def Rates.largest (r : Rates) : ℚ :=
  max (max r.inputPerToken r.outputPerToken) (max r.readRate r.writeRate)

structure Rates.NonNeg (r : Rates) : Prop where
  input : 0 ≤ r.inputPerToken
  output : 0 ≤ r.outputPerToken
  cacheRead : 0 ≤ r.cacheReadPerToken
  cacheCreation : 0 ≤ r.cacheCreationPerToken

structure ModelPrice.NonNeg (p : ModelPrice) : Prop where
  rates : p.rates.NonNeg
  tiers : ∀ t ∈ p.tiers, t.rates.NonNeg

theorem Rates.input_le_largest (r : Rates) : r.inputPerToken ≤ r.largest :=
  le_trans (le_max_left _ _) (le_max_left _ _)

theorem Rates.output_le_largest (r : Rates) : r.outputPerToken ≤ r.largest :=
  le_trans (le_max_right _ _) (le_max_left _ _)

theorem Rates.readRate_le_largest (r : Rates) : r.readRate ≤ r.largest :=
  le_trans (le_max_left _ _) (le_max_right _ _)

theorem Rates.writeRate_le_largest (r : Rates) : r.writeRate ≤ r.largest :=
  le_trans (le_max_right _ _) (le_max_right _ _)

theorem Rates.NonNeg.readRate {r : Rates} (nonneg : r.NonNeg) : 0 ≤ r.readRate := by
  rw [Rates.readRate]
  split
  · exact nonneg.input
  · exact nonneg.cacheRead

theorem Rates.NonNeg.writeRate {r : Rates} (nonneg : r.NonNeg) : 0 ≤ r.writeRate := by
  rw [Rates.writeRate]
  split
  · exact nonneg.input
  · exact nonneg.cacheCreation

theorem mergeRates_nonneg {base tier : Rates} (baseNonneg : base.NonNeg) (tierNonneg : tier.NonNeg) :
    (mergeRates base tier).NonNeg := by
  constructor
  all_goals simp only [mergeRates]
  all_goals split
  · exact baseNonneg.input
  · exact tierNonneg.input
  · exact baseNonneg.output
  · exact tierNonneg.output
  · exact baseNonneg.cacheRead
  · exact tierNonneg.cacheRead
  · exact baseNonneg.cacheCreation
  · exact tierNonneg.cacheCreation

/-- The tier that prices a prompt is one of the schedule's. -/
theorem ModelPrice.tierFor_mem {p : ModelPrice} {promptTokens : Int} {t : Tier}
    (chosen : p.tierFor promptTokens = some t) : t ∈ p.tiers ∧ t.aboveInputTokens < promptTokens := by
  have kept : t ∈ p.tiers.filter fun t => t.aboveInputTokens < promptTokens :=
    List.mem_of_getLast? chosen
  obtain ⟨member, below⟩ := List.mem_filter.mp kept
  exact ⟨member, of_decide_eq_true below⟩

theorem ModelPrice.NonNeg.ratesFor {p : ModelPrice} (nonneg : p.NonNeg) (promptTokens : Int) :
    (p.ratesFor promptTokens).NonNeg := by
  rw [ModelPrice.ratesFor_eq]
  cases chosen : p.tierFor promptTokens with
  | none => exact nonneg.rates
  | some t => exact mergeRates_nonneg nonneg.rates (nonneg.tiers t (ModelPrice.tierFor_mem chosen).1)

/-! The cost. -/

structure PricingUsageNonNeg (u : PricingUsage) : Prop where
  input : 0 ≤ u.input
  output : 0 ≤ u.output
  cacheRead : 0 ≤ u.cacheRead
  cacheCreation : 0 ≤ u.cacheCreation

theorem IsSplit.nonneg {billable : PricingUsage} {promptTokens : Int} (u : PricingUsage)
    (split : IsSplit (floored u) billable promptTokens) : PricingUsageNonNeg billable := by
  constructor
  · exact split.input_nonneg
  · rw [split.output_eq]
    exact floorZero_nonneg u.output
  · rw [split.cacheRead_eq]
    exact floorZero_nonneg u.cacheRead
  · rw [split.cacheCreation_eq]
    exact floorZero_nonneg u.cacheCreation

theorem cost_eq (r : Rates) (u : PricingUsage) :
    r.cost u = u.input * r.inputPerToken + u.cacheRead * r.readRate +
      u.cacheCreation * r.writeRate + u.output * r.outputPerToken := rfl

/-- One class of tokens costs something between nothing and the largest rate. -/
theorem classCost_bounds {count : Int} {rate largest : ℚ} (count_nonneg : 0 ≤ count)
    (rate_nonneg : 0 ≤ rate) (rate_le : rate ≤ largest) :
    0 ≤ count * rate ∧ count * rate ≤ count * largest := by
  have count_nonneg : (0 : ℚ) ≤ count := Int.cast_nonneg count_nonneg
  exact ⟨mul_nonneg count_nonneg rate_nonneg, mul_le_mul_of_nonneg_left rate_le count_nonneg⟩

theorem cost_bounds {r : Rates} (nonneg : r.NonNeg) {u : PricingUsage} (counts : PricingUsageNonNeg u) :
    0 ≤ r.cost u ∧
      r.cost u ≤ ((u.input + u.cacheRead + u.cacheCreation + u.output : Int) : ℚ) * r.largest := by
  have input := classCost_bounds counts.input nonneg.input r.input_le_largest
  have read := classCost_bounds counts.cacheRead nonneg.readRate r.readRate_le_largest
  have creation := classCost_bounds counts.cacheCreation nonneg.writeRate r.writeRate_le_largest
  have output := classCost_bounds counts.output nonneg.output r.output_le_largest
  rw [cost_eq]
  push_cast
  constructor
  · linarith [input.1, read.1, creation.1, output.1]
  · linarith [input.2, read.2, creation.2, output.2]

/-- Every usage the validation lets through is split and priced without an overflow, and
its price lies between zero and the largest rate for every token of the call. -/
theorem pricing_bounded {u : PricingUsage} (within : WithinLimit u) {p : ModelPrice}
    (nonneg : p.NonNeg) :
    let counts := floored u
    let (billable, promptTokens) := normalize u
    let rates := p.ratesFor promptTokens
    (InInt64 (cachedTokens counts) ∧ InInt64 (counts.input - cachedTokens counts) ∧
        InInt64 (counts.input + cachedTokens counts)) ∧
      PricingUsageNonNeg billable ∧
      billable.input + billable.cacheRead + billable.cacheCreation = promptTokens ∧
      max counts.input (cachedTokens counts) ≤ promptTokens ∧
      promptTokens ≤ counts.input + cachedTokens counts ∧
      0 ≤ rates.cost billable ∧
      rates.cost billable ≤ (promptTokens + billable.output : Int) * rates.largest := by
  have split := normalize_isSplit within
  have counts : PricingUsageNonNeg (normalize u).1 := split.nonneg u
  have cost := cost_bounds (nonneg.ratesFor (normalize u).2) counts
  rw [split.adds_up] at cost
  exact ⟨sums_inInt64 within, counts, split.adds_up, max_le split.input_le split.cached_le,
    split.le_sum, cost.1, cost.2⟩

/-- The usage PricingEnricher prices a span by. -/
def spanUsage {F : Type} (span : Span F) : PricingUsage :=
  ⟨span.inputTokens, span.outputTokens, span.cacheReadTokens, span.cacheWriteTokens⟩

theorem validated_withinLimit {F : Type} {span : Span F} (validated : Validated span) :
    WithinLimit (spanUsage span) := by
  obtain ⟨input, output, read, write⟩ := validated.counts
  exact ⟨input, output, read, write⟩

/-- No span that passed the validation is charged less than nothing. -/
theorem resolve_validated_nonneg (rt : Platform ℚ) {prices : Prices}
    (nonneg : ∀ key p, prices key = some p → p.NonNeg) {span : Span ℚ} (validated : Validated span)
    {model : Str} {cost : ℚ} (priced : resolve rt prices model (spanUsage span) = .ok cost) :
    0 ≤ cost := by
  rw [resolve] at priced
  split at priced
  · cases priced
  · rename_i p found
    obtain ⟨key, _, stored⟩ := List.exists_of_findSome?_eq_some found
    obtain rfl := Except.ok.inj priced
    have split := normalize_isSplit (validated_withinLimit validated)
    apply (cost_bounds ((nonneg key p stored).ratesFor _) (split.nonneg _)).1

/-- A span of an instrumentation gone wrong: a negative input beside cached tokens. -/
def malformedUsage : PricingUsage := ⟨-5, 100, 300000, 0⟩

/-- A schedule whose tier overrides the input rate alone. -/
def partialTier : ModelPrice := ⟨⟨0.000003, 0.000015, 0, 0⟩, [⟨200000, ⟨0.000006, 0, 0, 0⟩⟩]⟩

theorem malformedUsage_bounded :
    WithinLimit malformedUsage ∧ partialTier.NonNeg ∧
      normalize malformedUsage = (⟨0, 100, 300000, 0⟩, 300000) ∧
      0 ≤ (partialTier.ratesFor (normalize malformedUsage).2).cost (normalize malformedUsage).1 := by
  have within : WithinLimit malformedUsage := ⟨by decide, by decide, by decide, by decide⟩
  have nonneg : partialTier.NonNeg := by
    refine ⟨?_, ?_⟩
    · constructor <;> norm_num [partialTier]
    · intro t member
      rw [List.mem_singleton.mp member]
      constructor <;> norm_num
  exact ⟨within, nonneg, by decide +kernel, (pricing_bounded within nonneg).2.2.2.2.2.1⟩

end Tracium.Pricing
