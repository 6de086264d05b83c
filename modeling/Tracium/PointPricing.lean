import Tracium.Pricing
import Tracium.Processor

/-! Token-usage points are priced one by one. The price of an output-only point is that
of a call with an empty prompt, so the points of a call add up to its price only while
its prompt leaves the output rate alone. -/
namespace Tracium.PointPricing

open Go Processor Pricing

variable (rt : Platform ℚ)

/-- The cost enrichPoint stamps on a point, `none` when it drops it. -/
def stampedCost (p : MetricsProcessor ℚ) (attrs : Attributes ℚ) (tokens : Int)
    (resource : Attributes ℚ) (workspace : Str) : Option ℚ :=
  (enrichPoint rt p attrs tokens resource workspace).map fun stamped =>
    floatAttr rt stamped attrCostUSD

/-- The attributes of a point of `model` whose user can be resolved. -/
structure Priceable (p : MetricsProcessor ℚ) (attrs resource : Attributes ℚ) (model : Str) :
    Prop where
  user : resolveMetricUser p.user (metricUser rt attrs resource) ≠ none
  model : normalizeModel rt (GenAI.metricModel (strAttr rt attrs)) = model

theorem stampedCost_eq {p : MetricsProcessor ℚ} {attrs resource : Attributes ℚ} {model : Str}
    (priceable : Priceable rt p attrs resource model) {tokens : Int}
    (inRange : tokensInRange tokens = true) (workspace : Str) :
    stampedCost rt p attrs tokens resource workspace =
      some (pointCost rt p.pricing model (strAttr rt attrs GenAI.attrTokenType) tokens) := by
  obtain ⟨user, rfl⟩ := priceable
  obtain ⟨userID, resolved⟩ := Option.ne_none_iff_exists'.mp user
  have notModel : attrModelNormalized ≠ attrCostUSD := by decide
  have notUser : attrUserID ≠ attrCostUSD := by decide
  have notWorkspace : attrWorkspaceID ≠ attrCostUSD := by decide
  by_cases anonymous : userID = []
  all_goals simp [stampedCost, enrichPoint, inRange, resolved, floatAttr, putIf, anonymous,
    OrderedMap.get_put_other _ _ notWorkspace, OrderedMap.get_put_other _ _ notUser,
    OrderedMap.get_put_other _ _ notModel, Value.doubleValue]

theorem normalize_uncached {input output : Int} (nonneg : 0 ≤ input ∧ input ≤ maxTokensPerCall)
    (output_nonneg : 0 ≤ output) : Pricing.normalize ⟨input, output, 0, 0⟩ = (⟨input, output, 0, 0⟩, input) := by
  simp only [maxTokensPerCall] at nonneg
  rw [normalize_of_small (by simp only; omega) output_nonneg (by simp) (by simp)]
  simp [nonneg.1]

theorem cost_uncached (r : Rates) (input output : Int) :
    r.cost ⟨input, output, 0, 0⟩ = input * r.inputPerToken + output * r.outputPerToken := by
  simp [Rates.cost]

/-- An input-only point of `i` tokens and an output-only point of `o` tokens of one model
cost what the call costs exactly when the call has no output or an output token costs
the same after a prompt of `i` tokens as after an empty one. -/
theorem points_add_up_iff (prices : Prices) (user : Option UserResolver) {model : Str}
    {schedule : ModelPrice} (named : model ≠ []) (priced : lookup rt prices model = some schedule)
    {inputAttrs outputAttrs inputResource outputResource : Attributes ℚ} (workspace : Str)
    (inputPoint : Priceable rt ⟨some (resolve rt prices), user⟩ inputAttrs inputResource model)
    (isInput : GenAI.isOutputTokenType (strAttr rt inputAttrs GenAI.attrTokenType) = false)
    (outputPoint : Priceable rt ⟨some (resolve rt prices), user⟩ outputAttrs outputResource model)
    (isOutput : GenAI.isOutputTokenType (strAttr rt outputAttrs GenAI.attrTokenType) = true)
    {i o : Int} (inputRange : 0 ≤ i ∧ i ≤ maxTokensPerCall) (outputRange : 0 ≤ o ∧ o ≤ maxTokensPerCall) :
    ∃ inputCost outputCost callCost,
      stampedCost rt ⟨some (resolve rt prices), user⟩ inputAttrs i inputResource workspace =
        some inputCost ∧
      stampedCost rt ⟨some (resolve rt prices), user⟩ outputAttrs o outputResource workspace =
        some outputCost ∧
      resolve rt prices model ⟨i, o, 0, 0⟩ = .ok callCost ∧
      (inputCost + outputCost = callCost ↔
        o = 0 ∨ schedule.outputPrice i = schedule.outputPrice 0) := by
  refine ⟨(schedule.ratesFor i).cost ⟨i, 0, 0, 0⟩, (schedule.ratesFor 0).cost ⟨0, o, 0, 0⟩,
    (schedule.ratesFor i).cost ⟨i, o, 0, 0⟩, ?_, ?_, ?_, ?_⟩
  · rw [stampedCost_eq rt inputPoint (by simp [tokensInRange, inputRange])]
    simp [pointCost, named, isInput, resolve, priced, normalize_uncached inputRange]
  · have emptyPrompt : Pricing.normalize ⟨0, o, 0, 0⟩ = (⟨0, o, 0, 0⟩, 0) :=
      normalize_uncached (by decide) outputRange.1
    rw [stampedCost_eq rt outputPoint (by simp [tokensInRange, outputRange])]
    simp [pointCost, named, isOutput, resolve, priced,
      emptyPrompt]
  · simp [resolve, priced, normalize_uncached inputRange outputRange.1]
  · rw [cost_uncached, cost_uncached, cost_uncached, schedule.ratesFor_outputPerToken,
      schedule.ratesFor_outputPerToken]
    constructor
    · intro same
      have product : (o : ℚ) * (schedule.outputPrice i - schedule.outputPrice 0) = 0 := by
        simp only [Int.cast_zero] at same
        linarith
      rcases mul_eq_zero.mp product with none | equal
      · exact .inl (Int.cast_eq_zero.mp none)
      · exact .inr (sub_eq_zero.mp equal)
    · rintro (rfl | equal)
      · simp
      · simp [equal]

/-- A long-context schedule: above 200,000 prompt tokens every rate of the call is higher. -/
def longContextSchedule : ModelPrice :=
  ⟨⟨0.00000125, 0.00001, 0, 0⟩, [⟨200000, ⟨0.0000025, 0.000015, 0, 0⟩⟩]⟩

def longContextPrices : Prices := fun _ => some longContextSchedule

def longContextProcessor : MetricsProcessor ℚ := ⟨some (resolve exactPlatform longContextPrices), none⟩

def tokenPoint (tokenType : Str) : Attributes ℚ :=
  [(GenAI.attrModelResponse, .str (lit "gemini")), (GenAI.attrTokenType, .str tokenType)]

theorem longContext_points_undercount :
    stampedCost exactPlatform longContextProcessor (tokenPoint (lit "input")) 300000 []
        (lit "workspace") = some 0.75 ∧
      stampedCost exactPlatform longContextProcessor (tokenPoint (lit "output")) 1000 []
        (lit "workspace") = some 0.01 ∧
      resolve exactPlatform longContextPrices (lit "gemini") ⟨300000, 1000, 0, 0⟩ = .ok 0.765 ∧
      (0.75 : ℚ) + 0.01 ≠ 0.765 := by
  refine ⟨?_, ?_, ?_, by norm_num⟩
  · decide +kernel
  · decide +kernel
  · decide +kernel

theorem shortContext_points_add_up :
    ∃ inputCost outputCost callCost,
      stampedCost exactPlatform longContextProcessor (tokenPoint (lit "input")) 1000 []
        (lit "workspace") = some inputCost ∧
      stampedCost exactPlatform longContextProcessor (tokenPoint (lit "output")) 1000 []
        (lit "workspace") = some outputCost ∧
      resolve exactPlatform longContextPrices (lit "gemini") ⟨1000, 1000, 0, 0⟩ = .ok callCost ∧
      inputCost + outputCost = callCost := by
  have priced : lookup exactPlatform longContextPrices (lit "gemini") = some longContextSchedule := by
    decide +kernel
  have inputPoint : Priceable exactPlatform longContextProcessor (tokenPoint (lit "input")) []
      (lit "gemini") := ⟨by decide, by decide +kernel⟩
  have outputPoint : Priceable exactPlatform longContextProcessor (tokenPoint (lit "output")) []
      (lit "gemini") := ⟨by decide, by decide +kernel⟩
  have inRange : (0 : Int) ≤ 1000 ∧ 1000 ≤ maxTokensPerCall := by decide
  obtain ⟨inputCost, outputCost, callCost, input, output, call, iff⟩ :=
    points_add_up_iff exactPlatform longContextPrices none (by decide) priced (lit "workspace")
      inputPoint (by decide +kernel) outputPoint (by decide +kernel) inRange inRange
  exact ⟨inputCost, outputCost, callCost, input, output, call, iff.mpr (.inr (by decide +kernel))⟩

end Tracium.PointPricing
