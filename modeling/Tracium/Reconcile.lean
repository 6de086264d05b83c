import Tracium.Pricing
import Tracium.TokenBounds

/-! Reconciling against a reported total, followed into the price. The extractor counts
what the total leaves over as output, with cached tokens taken as extra to the input; the
pricer may read the same counts the other way. The bill never exceeds the total. -/
namespace Tracium.GenAI

open Go Pricing

variable {F : Type} {rt : Platform F}

/-- One reported count. -/
def Reported (n : Int) : Prop := 0 ≤ n ∧ n ≤ maxTokensPerCall

/-- The counts Usage extracted, before reconciliation. -/
def extracted (input output cacheRead cacheWrite : Int) (cost : F) (unmetered : Bool) :
    TokenUsage F :=
  ⟨input, output, cacheRead, cacheWrite, cost, false, unmetered⟩

/-- What the pricing enricher hands to the resolver. -/
def TokenUsage.priced (u : TokenUsage F) : PricingUsage :=
  ⟨u.inputTokens, u.outputTokens, u.cacheReadTokens, u.cacheWriteTokens⟩

/-- All the tokens of a billable split. -/
def billed (u : PricingUsage) : Int := u.input + u.cacheRead + u.cacheCreation + u.output

/-- A total that is not positive reads as none. -/
theorem reportedTotal_of_first {attrs : StringMap} {total : Int}
    (first : parseInt rt (index attrs attrTotalTokens) = total)
    (second : index attrs attrLLMTotalTokens = []) : reportedTotal rt attrs = max total 0 := by
  have none : parseInt rt [] = 0 := rfl
  unfold reportedTotal
  simp only [firstInt, first, second, none]
  by_cases positive : total > 0
  · rw [if_pos positive, max_eq_left (by omega)]
  · rw [if_neg positive, max_eq_right (by omega)]
    rfl

section Counts

variable {input output cacheRead cacheWrite total : Int}

/-- None of the four subtractions leaves int64, in any order of magnitude of the total. -/
theorem subtractions_fit (hi : Reported input) (ho : Reported output) (hr : Reported cacheRead)
    (hw : Reported cacheWrite) (range : 0 ≤ total ∧ total ≤ maxInt64) :
    InInt64 (total - input) ∧ InInt64 (total - input - output) ∧
      InInt64 (total - input - output - cacheRead) ∧
      InInt64 (total - input - output - cacheRead - cacheWrite) := by
  simp only [Reported, maxTokensPerCall, InInt64, minInt64, maxInt64] at *
  omega

/-- The sum is what the total leaves for output. -/
theorem addition_fits (hi : Reported input) (hr : Reported cacheRead)
    (hw : Reported cacheWrite) (range : 0 ≤ total ∧ total ≤ maxInt64) :
    InInt64 (output + (total - input - output - cacheRead - cacheWrite)) := by
  simp only [Reported, maxTokensPerCall, InInt64, minInt64, maxInt64] at *
  omega

theorem reconcileOutput_eq (attrs : StringMap) (cost : F) (unmetered : Bool)
    (hi : Reported input) (ho : Reported output) (hr : Reported cacheRead)
    (hw : Reported cacheWrite) :
    (extracted input output cacheRead cacheWrite cost unmetered).reconcileOutput rt attrs =
      if 0 < reportedTotal rt attrs ∧ 0 < input ∧
          output < reportedTotal rt attrs - input - cacheRead - cacheWrite then
        { extracted input output cacheRead cacheWrite cost unmetered with
          outputTokens := reportedTotal rt attrs - input - cacheRead - cacheWrite
          outputTokensDerived := true }
      else extracted input output cacheRead cacheWrite cost unmetered := by
  have range : 0 ≤ reportedTotal rt attrs ∧ reportedTotal rt attrs ≤ maxInt64 :=
    firstInt_range attrs _
  obtain ⟨first, second, third, fourth⟩ := subtractions_fit hi ho hr hw range
  have last : InInt64 (output +
      (reportedTotal rt attrs - input - output - cacheRead - cacheWrite)) :=
    addition_fits hi hr hw range
  have read : firstInt rt attrs [attrTotalTokens, attrLLMTotalTokens] = reportedTotal rt attrs := rfl
  simp only [TokenUsage.reconcileOutput, extracted, read, wrap64_of_range first,
    wrap64_of_range second, wrap64_of_range third, wrap64_of_range fourth]
  have inputLow := hi.1
  by_cases skipped : reportedTotal rt attrs = 0 ∨ input = 0
  · rw [if_pos skipped, if_neg (by omega)]
  · rw [if_neg skipped]
    by_cases explained : reportedTotal rt attrs - input - output - cacheRead - cacheWrite ≤ 0
    · rw [if_pos explained, if_neg (by omega)]
    · rw [if_neg explained, if_pos (by omega), wrap64_of_range last]
      congr 1
      omega

/-- Under either convention the billable split holds at most the prompt, the cached
tokens and the output together. -/
theorem billed_le {u : PricingUsage} (hi : Reported u.input) (output : 0 ≤ u.output)
    (hr : Reported u.cacheRead) (hw : Reported u.cacheCreation) :
    billed (normalize u).1 ≤ u.input + u.output + u.cacheRead + u.cacheCreation := by
  simp only [Reported, maxTokensPerCall] at hi hr hw
  rw [normalize_of_small (by omega) output (by omega) (by omega)]
  unfold billed
  split
  · dsimp only
    omega
  · dsimp only
    omega

/-- reconcileOutput on counts within the ingest bound, for every reported total. -/
theorem reconcileOutput_never_overbills (attrs : StringMap) (cost : F) (unmetered : Bool)
    (hi : Reported input) (ho : Reported output) (hr : Reported cacheRead)
    (hw : Reported cacheWrite) :
    let u := extracted input output cacheRead cacheWrite cost unmetered
    let total := reportedTotal rt attrs
    let v := u.reconcileOutput rt attrs
    -- Which total is read: an int64, a non-positive one as none.
    (0 ≤ total ∧ total ≤ maxInt64 ∧ ∀ t, parseInt rt (index attrs attrTotalTokens) = t →
      index attrs attrLLMTotalTokens = [] → total = max t 0) ∧
    -- No wrap.
    (InInt64 (total - input) ∧ InInt64 (total - input - output) ∧
      InInt64 (total - input - output - cacheRead) ∧
      InInt64 (total - input - output - cacheRead - cacheWrite) ∧
      InInt64 (output + (total - input - output - cacheRead - cacheWrite))) ∧
    -- The result.
    v = { u with
      outputTokens := if 0 < total ∧ 0 < input then
        max output (total - input - cacheRead - cacheWrite) else output
      outputTokensDerived := decide (output < v.outputTokens) } ∧
    (v.outputTokensDerived = true → billed (normalize v.priced).1 ≤ total) := by
  intro u total v
  have range : 0 ≤ total ∧ total ≤ maxInt64 := firstInt_range attrs _
  obtain ⟨first, second, third, fourth⟩ := subtractions_fit hi ho hr hw range
  have inputLow := hi.1
  have result : v = if 0 < total ∧ 0 < input ∧ output < total - input - cacheRead - cacheWrite then
      { u with outputTokens := total - input - cacheRead - cacheWrite, outputTokensDerived := true }
      else u := reconcileOutput_eq attrs cost unmetered hi ho hr hw
  refine ⟨⟨range.1, range.2, fun t => reportedTotal_of_first⟩,
    ⟨first, second, third, fourth, addition_fits hi hr hw range⟩, ?_⟩
  by_cases derived : 0 < total ∧ 0 < input ∧ output < total - input - cacheRead - cacheWrite
  · rw [if_pos derived] at result
    rw [result]
    constructor
    · rw [if_pos ⟨derived.1, derived.2.1⟩, max_eq_right (by omega)]
      simp only [derived.2.2, decide_true]
    · intro _
      have outputLow := ho.1
      have nonneg : 0 ≤ total - input - cacheRead - cacheWrite := by omega
      have bound := billed_le (u := ⟨input, total - input - cacheRead - cacheWrite, cacheRead,
        cacheWrite⟩) hi nonneg hr hw
      apply bound.trans
      dsimp only
      omega
  · rw [if_neg derived] at result
    rw [result]
    constructor
    · have same : (if 0 < total ∧ 0 < input then
          max output (total - input - cacheRead - cacheWrite) else output) = output := by
        split
        · apply max_eq_left
          omega
        · rfl
      rw [same]
      simp [u, extracted]
    · intro flagged
      cases flagged

/-- A Gemini-style call: 20 of the 100 tokens are in no class the sender broke out. -/
def thinking : StringMap := fun key => if key = attrTotalTokens then some (lit "100") else none

theorem reconcileOutput_never_overbills_thinking :
    ((extracted 50 10 20 0 0 false).reconcileOutput plainPlatform thinking).outputTokens = 30 ∧
    billed (normalize ((extracted 50 10 20 0 0 false).reconcileOutput plainPlatform
      thinking).priced).1 ≤ reportedTotal plainPlatform thinking := by
  have derived : ((extracted 50 10 20 0 0 false).reconcileOutput plainPlatform
      thinking).outputTokensDerived = true := by decide +kernel
  refine ⟨by decide +kernel, ?_⟩
  exact (reconcileOutput_never_overbills thinking 0 false ⟨by decide, by decide⟩
    ⟨by decide, by decide⟩ ⟨by decide, by decide⟩ ⟨by decide, by decide⟩).2.2.2 derived

end Counts

end Tracium.GenAI
