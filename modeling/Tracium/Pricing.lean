import Tracium.Enrich
import Mathlib.Data.Rat.Defs
import Mathlib.Tactic.Ring
import Mathlib.Tactic.Linarith
import Mathlib.Tactic.NormNum

/-! pricing.StaticResolver, with the per-token rates as exact rationals. Token counts
are int64; the price of a call is chosen by the size of its whole prompt. -/
namespace Tracium.Pricing

open Go

/-- Rates: USD per token. A zero cache rate is billed as input, a zero rate of a tier
inherits the base rate. -/
structure Rates where
  inputPerToken : ℚ := 0
  outputPerToken : ℚ := 0
  cacheReadPerToken : ℚ := 0
  cacheCreationPerToken : ℚ := 0
  deriving DecidableEq

structure Tier where
  aboveInputTokens : Int
  rates : Rates
  deriving DecidableEq

structure ModelPrice where
  rates : Rates
  tiers : List Tier := []
  deriving DecidableEq

/-- max(n, 0). -/
def floorZero (n : Int) : Int := max n 0

/-- Usage.normalize: the billable split and the size of the whole prompt. -/
def normalize (u : PricingUsage) : PricingUsage × Int :=
  let u : PricingUsage :=
    ⟨floorZero u.input, floorZero u.output, floorZero u.cacheRead, floorZero u.cacheCreation⟩
  let cached := wrap64 (u.cacheRead + u.cacheCreation)
  if u.input ≥ cached then ({ u with input := wrap64 (u.input - cached) }, u.input)
  else (u, wrap64 (u.input + cached))

/-- mergeRates: the tier's non-zero rates over the base rates. -/
def mergeRates (base tier : Rates) : Rates where
  inputPerToken := if tier.inputPerToken = 0 then base.inputPerToken else tier.inputPerToken
  outputPerToken := if tier.outputPerToken = 0 then base.outputPerToken else tier.outputPerToken
  cacheReadPerToken :=
    if tier.cacheReadPerToken = 0 then base.cacheReadPerToken else tier.cacheReadPerToken
  cacheCreationPerToken :=
    if tier.cacheCreationPerToken = 0 then base.cacheCreationPerToken else tier.cacheCreationPerToken

/-- ratesFor: the last matching tier wins. -/
def ModelPrice.ratesFor (p : ModelPrice) (promptTokens : Int) : Rates :=
  p.tiers.foldl
    (fun r t => if promptTokens > t.aboveInputTokens then mergeRates p.rates t.rates else r) p.rates

def Rates.cost (r : Rates) (u : PricingUsage) : ℚ :=
  let readRate := if r.cacheReadPerToken = 0 then r.inputPerToken else r.cacheReadPerToken
  let writeRate := if r.cacheCreationPerToken = 0 then r.inputPerToken else r.cacheCreationPerToken
  u.input * r.inputPerToken + u.cacheRead * readRate + u.cacheCreation * writeRate +
    u.output * r.outputPerToken

/-! Looking a model up. -/

variable (rt : Platform ℚ)

/-- `add` of candidateKeys: the keys so far are the ones seen. -/
def addKey (keys : List Str) (k : Str) : List Str :=
  if k ≠ [] && !keys.contains k then keys ++ [k] else keys

/-- What follows the first slash, if there is one. -/
def afterSlash (model : Str) : Option Str :=
  match model.dropWhile (· != 0x2F) with
  | [] => none
  | _ :: rest => some rest

def regions : List Str := [lit "us.", lit "eu.", lit "apac.", lit "us-gov."]

/-- candidateKeys, the most specific first. -/
def candidateKeys (model : Str) : List Str :=
  let model := toLower rt.toLowerRune (trimSpace model)
  if model = [] then []
  else
    let keys := addKey [] model
    let keys := match afterSlash model with
      | some bare => addKey keys bare
      | none => keys
    match regions.find? (hasPrefix model) with
    | some region => addKey keys (model.drop region.length)
    | none => keys

/-- The price table: a Go map. -/
abbrev Prices := Str → Option ModelPrice

def lookup (prices : Prices) (model : Str) : Option ModelPrice :=
  (candidateKeys rt model).findSome? prices

/-- StaticResolver.Resolve. -/
def resolve (prices : Prices) : PricingResolver ℚ := fun model u =>
  match lookup rt prices model with
  | none => .error (.other (lit "no pricing found for model " ++ rt.quote model))
  | some p =>
    let (billable, promptTokens) := normalize u
    .ok ((p.ratesFor promptTokens).cost billable)

/-- DefaultPrices. -/
def defaultPrices : Prices := fun model => ([
  (lit "gpt-4o", ⟨⟨0.0000025, 0.00001, 0.00000125, 0⟩, []⟩),
  (lit "gpt-4o-mini", ⟨⟨0.00000015, 0.0000006, 0.000000075, 0⟩, []⟩),
  (lit "gpt-4-turbo", ⟨⟨0.00001, 0.00003, 0, 0⟩, []⟩),
  (lit "gpt-3.5-turbo", ⟨⟨0.0000005, 0.0000015, 0, 0⟩, []⟩),
  (lit "claude-sonnet-4-6", ⟨⟨0.000003, 0.000015, 0.0000003, 0.00000375⟩, []⟩),
  (lit "claude-haiku-4-5", ⟨⟨0.000001, 0.000005, 0.0000001, 0.00000125⟩, []⟩),
  (lit "claude-3-opus", ⟨⟨0.000015, 0.000075, 0, 0⟩, []⟩)] : List (Str × ModelPrice)).lookup model

/-- A platform whose doubles are rationals. -/
def exactPlatform : Platform ℚ where
  zero := 0
  isPositive := fun x => 0 < x
  truncate := fun x => Int64.ofInt (x.num.tdiv x.den)
  parseFloat := fun s => (parseInt64 s).map fun n => (n : ℚ)
  quote := plainPlatform.quote
  toLowerRune := plainPlatform.toLowerRune
  doubleString := fun x => itoa x.num
  bytesString := id
  sliceString := fun _ => lit "[]"
  mapString := fun _ => lit "\x7b\x7d"
  unmarshalToolDefinitions := fun _ => none
  unmarshalMessages := fun _ => none
  unmarshalCallMessages := fun _ => none
  marshalTools := fun _ => lit "[]"
  unmarshalTools := fun _ => none

/-! Tiers. -/

/-- The tier that prices a prompt of this size: the last one whose threshold it exceeds. -/
def ModelPrice.tierFor (p : ModelPrice) (promptTokens : Int) : Option Tier :=
  (p.tiers.filter fun t => t.aboveInputTokens < promptTokens).getLast?

/-- The loop of ratesFor stops at that tier. -/
theorem ModelPrice.ratesFor_eq (p : ModelPrice) (promptTokens : Int) :
    p.ratesFor promptTokens =
      ((p.tierFor promptTokens).map fun t => mergeRates p.rates t.rates).getD p.rates := by
  obtain ⟨base, tiers⟩ := p
  simp only [ratesFor, tierFor]
  induction tiers using List.reverseRecOn with
  | nil => rfl
  | append_singleton front t ih =>
    rw [List.foldl_append, List.foldl_cons, List.foldl_nil, List.filter_append]
    by_cases above : t.aboveInputTokens < promptTokens
    · simp [above]
    · simpa [above] using ih

/-- What an output token costs in a call with a prompt of this size. -/
def ModelPrice.outputPrice (p : ModelPrice) (promptTokens : Int) : ℚ :=
  match p.tierFor promptTokens with
  | none => p.rates.outputPerToken
  | some t => if t.rates.outputPerToken = 0 then p.rates.outputPerToken else t.rates.outputPerToken

theorem ModelPrice.ratesFor_outputPerToken (p : ModelPrice) (promptTokens : Int) :
    (p.ratesFor promptTokens).outputPerToken = p.outputPrice promptTokens := by
  rw [ratesFor_eq, outputPrice]
  cases p.tierFor promptTokens <;> rfl

/-! The two conventions. -/

/-- A call as it happened: the regular prompt tokens, the cached ones and the output,
each within the ingest bound. -/
structure Call where
  regular : Int
  cacheRead : Int
  cacheCreation : Int
  output : Int
  regular_inRange : 0 ≤ regular ∧ regular ≤ maxTokensPerCall
  cacheRead_inRange : 0 ≤ cacheRead ∧ cacheRead ≤ maxTokensPerCall
  cacheCreation_inRange : 0 ≤ cacheCreation ∧ cacheCreation ≤ maxTokensPerCall
  output_inRange : 0 ≤ output ∧ output ≤ maxTokensPerCall

def Call.cached (c : Call) : Int := c.cacheRead + c.cacheCreation

/-- The report that counts the cached tokens as input. -/
def Call.inclusive (c : Call) : PricingUsage :=
  ⟨c.regular + c.cacheRead + c.cacheCreation, c.output, c.cacheRead, c.cacheCreation⟩

/-- The report that does not. -/
def Call.exclusive (c : Call) : PricingUsage :=
  ⟨c.regular, c.output, c.cacheRead, c.cacheCreation⟩

theorem floorZero_of_nonneg {n : Int} (nonneg : 0 ≤ n) : floorZero n = n := max_eq_left nonneg

/-- No step of normalize leaves int64 on counts below 2^61. -/
theorem normalize_of_small {u : PricingUsage} (input : 0 ≤ u.input ∧ u.input < 2 ^ 61)
    (output : 0 ≤ u.output) (read : 0 ≤ u.cacheRead ∧ u.cacheRead < 2 ^ 61)
    (creation : 0 ≤ u.cacheCreation ∧ u.cacheCreation < 2 ^ 61) :
    normalize u =
      if u.cacheRead + u.cacheCreation ≤ u.input then
        ({ u with input := u.input - (u.cacheRead + u.cacheCreation) }, u.input)
      else (u, u.input + (u.cacheRead + u.cacheCreation)) := by
  have sum : wrap64 (u.cacheRead + u.cacheCreation) = u.cacheRead + u.cacheCreation := by
    apply wrap64_of_range
    simp only [InInt64, minInt64, maxInt64]
    omega
  have difference : wrap64 (u.input - (u.cacheRead + u.cacheCreation)) =
      u.input - (u.cacheRead + u.cacheCreation) := by
    apply wrap64_of_range
    simp only [InInt64, minInt64, maxInt64]
    omega
  have total : wrap64 (u.input + (u.cacheRead + u.cacheCreation)) =
      u.input + (u.cacheRead + u.cacheCreation) := by
    apply wrap64_of_range
    simp only [InInt64, minInt64, maxInt64]
    omega
  simp only [normalize, floorZero_of_nonneg input.1, floorZero_of_nonneg output,
    floorZero_of_nonneg read.1, floorZero_of_nonneg creation.1, sum, difference, total, ge_iff_le]

theorem normalize_inclusive (c : Call) :
    normalize c.inclusive = (c.exclusive, c.regular + c.cached) := by
  obtain ⟨regular, read, creation, output, hregular, hread, hcreation, houtput⟩ := c
  simp only [maxTokensPerCall] at hregular hread hcreation houtput
  rw [Call.inclusive, normalize_of_small (by simp only; omega) houtput.1 (by simp only; omega)
    (by simp only; omega)]
  simp only [Call.exclusive, Call.cached]
  rw [if_pos (by omega), Int.add_assoc, Int.add_sub_cancel]

theorem normalize_exclusive (c : Call) :
    normalize c.exclusive =
      if c.cached ≤ c.regular then ({ c.exclusive with input := c.regular - c.cached }, c.regular)
      else (c.exclusive, c.regular + c.cached) := by
  obtain ⟨regular, read, creation, output, hregular, hread, hcreation, houtput⟩ := c
  simp only [maxTokensPerCall] at hregular hread hcreation houtput
  exact normalize_of_small (by simp only [Call.exclusive]; omega) houtput.1
    (by simp only [Call.exclusive]; omega) (by simp only [Call.exclusive]; omega)

theorem normalize_agree_iff (c : Call) :
    normalize c.inclusive = normalize c.exclusive ↔ c.cached = 0 ∨ c.regular < c.cached := by
  rw [normalize_inclusive, normalize_exclusive]
  split
  · simp only [Prod.mk.injEq, Call.exclusive, PricingUsage.mk.injEq, and_true]
    omega
  · rename_i larger
    exact iff_of_true rfl (.inr (by omega))

/-- One rate for every token of the prompt. -/
def flatPrice : ModelPrice := ⟨⟨1, 0, 0, 0⟩, []⟩

theorem flatPrice_cost (u : PricingUsage) (promptTokens : Int) :
    (flatPrice.ratesFor promptTokens).cost u = u.input + u.cacheRead + u.cacheCreation := by
  simp [flatPrice, ModelPrice.ratesFor, Rates.cost]

theorem lookup_const {model : Str} (named : candidateKeys rt model ≠ []) (p : ModelPrice) :
    lookup rt (fun _ => some p) model = some p := by
  rw [lookup]
  cases keys : candidateKeys rt model with
  | nil => exact absurd keys named
  | cons k rest => rfl

/-- The two reports of a call are priced alike by every table exactly when the call has
no cached tokens or fewer regular than cached ones: an exclusive report with at least
as many regular tokens is taken for an inclusive one. -/
theorem resolve_conventions_agree_iff (model : Str) (named : candidateKeys rt model ≠ [])
    (c : Call) :
    (∀ prices, resolve rt prices model c.inclusive = resolve rt prices model c.exclusive) ↔
      c.cached = 0 ∨ c.regular < c.cached := by
  constructor
  · intro agree
    have flat := agree fun _ => some flatPrice
    simp only [resolve, lookup_const rt named, flatPrice_cost, Except.ok.injEq, normalize_inclusive,
      normalize_exclusive] at flat
    by_contra ambiguous
    push Not at ambiguous
    rw [if_pos ambiguous.2] at flat
    have counted : (c.cached : ℚ) = 0 := by
      simp only [Call.exclusive, Int.cast_sub] at flat
      linarith
    exact ambiguous.1 (Int.cast_eq_zero.mp counted)
  · intro distinguishable prices
    have same := (normalize_agree_iff c).mpr distinguishable
    simp only [resolve, same]

/-- A Claude call with 5000 uncached and 2000 cached prompt tokens. -/
def cachedCall : Call where
  regular := 5000
  cacheRead := 2000
  cacheCreation := 0
  output := 100
  regular_inRange := by decide
  cacheRead_inRange := by decide
  cacheCreation_inRange := by decide
  output_inRange := by decide

theorem cachedCall_underpriced :
    resolve exactPlatform defaultPrices (lit "claude-sonnet-4-6") cachedCall.inclusive =
        .ok 0.0171 ∧
      resolve exactPlatform defaultPrices (lit "claude-sonnet-4-6") cachedCall.exclusive =
        .ok 0.0111 ∧
      ¬∀ prices, resolve exactPlatform prices (lit "claude-sonnet-4-6") cachedCall.inclusive =
        resolve exactPlatform prices (lit "claude-sonnet-4-6") cachedCall.exclusive := by
  have inclusive : resolve exactPlatform defaultPrices (lit "claude-sonnet-4-6")
      cachedCall.inclusive = .ok 0.0171 := by decide +kernel
  have exclusive : resolve exactPlatform defaultPrices (lit "claude-sonnet-4-6")
      cachedCall.exclusive = .ok 0.0111 := by decide +kernel
  refine ⟨inclusive, exclusive, fun agree => ?_⟩
  have same := agree defaultPrices
  rw [inclusive, exclusive] at same
  exact absurd (Except.ok.inj same) (by norm_num)

/-- A call with more cached than regular tokens, priced alike by both reports. -/
def mostlyCachedCall : Call where
  regular := 10
  cacheRead := 0
  cacheCreation := 2051
  output := 100
  regular_inRange := by decide
  cacheRead_inRange := by decide
  cacheCreation_inRange := by decide
  output_inRange := by decide

theorem mostlyCachedCall_agrees :
    candidateKeys exactPlatform (lit "claude-sonnet-4-6") ≠ [] ∧
      ∀ prices, resolve exactPlatform prices (lit "claude-sonnet-4-6") mostlyCachedCall.inclusive =
        resolve exactPlatform prices (lit "claude-sonnet-4-6") mostlyCachedCall.exclusive :=
  have named : candidateKeys exactPlatform (lit "claude-sonnet-4-6") ≠ [] := by decide +kernel
  ⟨named, (resolve_conventions_agree_iff exactPlatform _ named mostlyCachedCall).mpr
    (.inr (by decide))⟩

end Tracium.Pricing
