import Tracium.Processor

/-! What the default chain can do to a span: it writes four fields, it never reads the
unmetered flag, and it accepts only spans that ValidateEnricher accepts. -/
namespace Tracium

open Go

section Chain

variable {F : Type} {rt : Platform F}

/-- The fields the default chain may write, taken from `m`. -/
def Span.withEnriched (span m : Span F) : Span F :=
  { span with
      modelNormalized := m.modelNormalized
      schemaVersion := m.schemaVersion
      userID := m.userID
      costUSD := m.costUSD }

theorem Span.withEnriched_withEnriched (span m m' : Span F) :
    (span.withEnriched m).withEnriched m' = span.withEnriched m' := rfl

def Span.withUnmetered (span : Span F) (flag : Bool) : Span F := { span with unmetered := flag }

/-- The enricher leaves every field but the four enriched ones alone. -/
def Enricher.Framed (e : Enricher F) : Prop :=
  ∀ span, (e span).1 = span.withEnriched (e span).1

/-- The enricher carries the unmetered flag along without looking at it. -/
def Enricher.Unmetering (e : Enricher F) : Prop :=
  ∀ (span : Span F) (flag : Bool), e (span.withUnmetered flag) =
    ((e span).1.withUnmetered flag, (e span).2)

theorem applyChain_cons (e : Enricher F) (rest : List (Enricher F)) (span : Span F) :
    applyChain (e :: rest) span =
      if (e span).2.isSome then e span else applyChain rest (e span).1 := by
  rw [applyChain]
  split
  · next result => simp [result]
  · next result => simp [result]

theorem applyChain_framed (chain : List (Enricher F)) (framed : ∀ e ∈ chain, e.Framed)
    (span : Span F) : (applyChain chain span).1 = span.withEnriched (applyChain chain span).1 := by
  induction chain generalizing span with
  | nil => rfl
  | cons e rest ih =>
    have first := framed e (List.mem_cons_self ..)
    rw [applyChain_cons]
    split
    · exact first span
    · have later := ih (fun e member => framed e (List.mem_cons_of_mem _ member)) (e span).1
      generalize (applyChain rest (e span).1).1 = m at later ⊢
      calc m = (e span).1.withEnriched m := later
        _ = span.withEnriched m := by rw [first span, Span.withEnriched_withEnriched]

theorem applyChain_unmetering (chain : List (Enricher F)) (unmetering : ∀ e ∈ chain, e.Unmetering)
    (span : Span F) (flag : Bool) : applyChain chain (span.withUnmetered flag) =
      ((applyChain chain span).1.withUnmetered flag, (applyChain chain span).2) := by
  induction chain generalizing span with
  | nil => rfl
  | cons e rest ih =>
    have first := unmetering e (List.mem_cons_self ..) span flag
    have later := ih (fun e member => unmetering e (List.mem_cons_of_mem _ member))
    rw [applyChain_cons, applyChain_cons, first]
    split
    · rfl
    · exact later (e span).1

theorem applyChain_preserves (field : Span F → α) (chain : List (Enricher F))
    (kept : ∀ e ∈ chain, ∀ span, field (e span).1 = field span) (span : Span F) :
    field (applyChain chain span).1 = field span := by
  induction chain generalizing span with
  | nil => rfl
  | cons e rest ih =>
    have first := kept e (List.mem_cons_self ..) span
    rw [applyChain_cons]
    split
    · exact first
    · rw [ih (fun e member => kept e (List.mem_cons_of_mem _ member)), first]

/-! The five enrichers. -/

theorem validateEnricher_framed : (validateEnricher : Enricher F).Framed := fun _ => rfl

theorem normalizeModelEnricher_framed : (normalizeModelEnricher rt).Framed := by
  intro span
  simp only [normalizeModelEnricher, Span.withEnriched]

theorem userEnricher_framed (resolver : Option UserResolver) :
    (userEnricher resolver : Enricher F).Framed := by
  intro span
  simp only [userEnricher]
  generalize sanitizeIdentifier span.userID maxUserIDBytes = clean
  split
  · simp only [Span.withEnriched]
  · split
    · simp only [Span.withEnriched]
    · split <;> simp only [Span.withEnriched]

theorem pricingEnricher_framed (resolver : Option (PricingResolver F)) :
    (pricingEnricher rt resolver).Framed := by
  intro span
  simp only [pricingEnricher]
  split
  · rfl
  · split
    · rfl
    · split <;> simp only [Span.withEnriched]

theorem filterEnricher_span (allowed : List Str) (span : Span F) :
    (filterEnricher rt allowed span).1 = span := by
  simp only [filterEnricher]
  split
  · rfl
  · generalize (if span.modelNormalized = [] then span.model else span.modelNormalized) = model
    split <;> rfl

theorem filterEnricher_framed (allowed : List Str) : (filterEnricher rt allowed).Framed := by
  intro span
  rw [filterEnricher_span]
  rfl

theorem validateEnricher_unmetering : (validateEnricher : Enricher F).Unmetering := fun _ _ => rfl

theorem normalizeModelEnricher_unmetering : (normalizeModelEnricher rt).Unmetering := by
  intro span flag
  by_cases fresh : span.schemaVersion = 0 <;>
    simp only [normalizeModelEnricher, Span.withUnmetered, fresh, ↓reduceIte]

theorem userEnricher_unmetering (resolver : Option UserResolver) :
    (userEnricher resolver : Enricher F).Unmetering := by
  intro span flag
  cases resolver with
  | none => simp only [userEnricher, Span.withUnmetered]
  | some resolve =>
    simp only [userEnricher, Span.withUnmetered]
    by_cases blank : sanitizeIdentifier span.userID maxUserIDBytes = []
    · simp only [blank, ↓reduceIte]
    · simp only [blank, ↓reduceIte]
      cases resolve (sanitizeIdentifier span.userID maxUserIDBytes) <;> simp only

theorem pricingEnricher_unmetering (resolver : Option (PricingResolver F)) :
    (pricingEnricher rt resolver).Unmetering := by
  intro span flag
  cases resolver with
  | none => rfl
  | some resolve =>
    simp only [pricingEnricher, Span.withUnmetered]
    by_cases blank : span.modelNormalized = []
    · simp only [blank, ↓reduceIte]
    · simp only [blank, ↓reduceIte]
      cases resolve span.modelNormalized ⟨span.inputTokens, span.outputTokens,
        span.cacheReadTokens, span.cacheWriteTokens⟩ <;> simp only

theorem filterEnricher_unmetering (allowed : List Str) : (filterEnricher rt allowed).Unmetering := by
  intro span flag
  simp only [filterEnricher]
  by_cases unrestricted : allowed.map (normalizeModel rt) = []
  · simp only [unrestricted, ↓reduceIte]
  · simp only [unrestricted, ↓reduceIte]
    generalize model_eq : (if span.modelNormalized = [] then span.model else span.modelNormalized) = model
    have same : (if (span.withUnmetered flag).modelNormalized = [] then
        (span.withUnmetered flag).model else (span.withUnmetered flag).modelNormalized) = model := by
      rw [← model_eq]
      by_cases blank : span.modelNormalized = [] <;> simp only [Span.withUnmetered, blank, ↓reduceIte]
    rw [same]
    by_cases listed : (allowed.map (normalizeModel rt)).contains model = true <;>
      simp only [listed, Bool.false_eq_true, ↓reduceIte]

theorem userEnricher_schemaVersion (resolver : Option UserResolver) (span : Span F) :
    (userEnricher resolver span).1.schemaVersion = span.schemaVersion := by
  simp only [userEnricher]
  split
  · rfl
  · split
    · rfl
    · split <;> rfl

theorem pricingEnricher_schemaVersion (resolver : Option (PricingResolver F)) (span : Span F) :
    (pricingEnricher rt resolver span).1.schemaVersion = span.schemaVersion := by
  simp only [pricingEnricher]
  split
  · rfl
  · split
    · rfl
    · split <;> rfl

/-! The chain as DefaultChain assembles it. -/

variable (cfg : ChainConfig F)

theorem defaultChain_framed (span : Span F) : (applyChain (defaultChain rt cfg) span).1 =
    span.withEnriched (applyChain (defaultChain rt cfg) span).1 := by
  apply applyChain_framed
  simp only [defaultChain, List.mem_cons, List.not_mem_nil, or_false, forall_eq_or_imp, forall_eq]
  exact ⟨validateEnricher_framed, normalizeModelEnricher_framed, userEnricher_framed _,
    pricingEnricher_framed _, filterEnricher_framed _⟩

theorem defaultChain_unmetering (span : Span F) (flag : Bool) :
    applyChain (defaultChain rt cfg) (span.withUnmetered flag) =
      ((applyChain (defaultChain rt cfg) span).1.withUnmetered flag,
        (applyChain (defaultChain rt cfg) span).2) := by
  apply applyChain_unmetering
  simp only [defaultChain, List.mem_cons, List.not_mem_nil, or_false, forall_eq_or_imp, forall_eq]
  exact ⟨validateEnricher_unmetering, normalizeModelEnricher_unmetering, userEnricher_unmetering _,
    pricingEnricher_unmetering _, filterEnricher_unmetering _⟩

/-- An accepted span passed ValidateEnricher. -/
theorem defaultChain_validated (span : Span F)
    (accepted : (applyChain (defaultChain rt cfg) span).2 = none) : validateError span = none := by
  rw [defaultChain, applyChain_cons] at accepted
  split at accepted
  · exact accepted
  · next passed => simpa [validateEnricher] using passed

/-- The rest of the chain runs on what NormalizeModelEnricher leaves of an accepted span. -/
theorem defaultChain_normalized (span : Span F)
    (accepted : (applyChain (defaultChain rt cfg) span).2 = none) :
    applyChain (defaultChain rt cfg) span =
      applyChain [userEnricher cfg.user, pricingEnricher rt cfg.pricing,
        filterEnricher rt cfg.allowedModels] (normalizeModelEnricher rt span).1 := by
  have passed := defaultChain_validated cfg span accepted
  rw [defaultChain, applyChain_cons, applyChain_cons]
  simp only [validateEnricher, passed, normalizeModelEnricher, Option.isSome_none,
    Bool.false_eq_true, ↓reduceIte]

/-- NormalizeModelEnricher fixes the schema version and no later enricher changes it. -/
theorem defaultChain_schemaVersion (span : Span F)
    (accepted : (applyChain (defaultChain rt cfg) span).2 = none) :
    (applyChain (defaultChain rt cfg) span).1.schemaVersion =
      if span.schemaVersion = 0 then 1 else span.schemaVersion := by
  rw [defaultChain_normalized cfg span accepted, applyChain_preserves Span.schemaVersion]
  · rfl
  · simp only [List.mem_cons, List.not_mem_nil, or_false, forall_eq_or_imp, forall_eq]
    refine ⟨userEnricher_schemaVersion _, pricingEnricher_schemaVersion _, ?_⟩
    intro span
    rw [filterEnricher_span]

/-- What ValidateEnricher lets through; the four counts are bounded from above only. -/
structure Validated (span : Span F) : Prop where
  traced : span.traceID ≠ []
  named : span.spanID ≠ []
  started : 0 < span.startTimeMs
  ended : span.endTimeMs = 0 ∨ span.startTimeMs ≤ span.endTimeMs
  model : span.model.length ≤ maxModelNameBytes
  counts : span.inputTokens ≤ maxTokensPerCall ∧ span.outputTokens ≤ maxTokensPerCall ∧
    span.cacheReadTokens ≤ maxTokensPerCall ∧ span.cacheWriteTokens ≤ maxTokensPerCall

theorem validateError_none {span : Span F} (passed : validateError span = none) : Validated span := by
  unfold validateError at passed
  split at passed
  · cases passed
  split at passed
  · cases passed
  split at passed
  · cases passed
  split at passed
  · cases passed
  split at passed
  · cases passed
  rename_i traced named early unordered long
  exact ⟨traced, named, by omega, by omega, by omega, by simpa using passed⟩

end Chain

end Tracium
