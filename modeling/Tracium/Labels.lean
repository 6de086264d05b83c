import Tracium.Go.Cut
import Tracium.Isolation

/-! User labels and model names on their way to a row. SanitizeIdentifier trims first and
drops control characters afterwards, so it is not idempotent; the span path applies it
once, the metric path twice, and both write a user label back only when something is
left of it. -/
namespace Tracium

open Go OrderedMap Processor

variable {F : Type} {rt : Platform F}

/-! SanitizeIdentifier on runes. -/

/-- What of an identifier is not white space around it or a control character. -/
def visible (s : Str) : List Nat := (trimRunes (runes s)).filter fun r => !isControl r

/-- The visible part up to the byte limit. -/
def keptRunes (s : Str) (maxBytes : Nat) : List Nat := fitting maxBytes (visible s)

theorem visible_scalar (s : Str) : ∀ r ∈ visible s, IsScalar r := by
  intro r member
  have inside : r ∈ trimRunes (runes s) := (List.mem_filter.mp member).1
  exact runes_scalar s r ((trimRunes_isInfix _).subset inside)

theorem keptRunes_scalar (s : Str) (maxBytes : Nat) : ∀ r ∈ keptRunes s maxBytes, IsScalar r :=
  fun r member => visible_scalar s r ((fitting_isPrefix maxBytes _).subset member)

theorem keptRunes_visible (s : Str) (maxBytes : Nat) :
    ∀ r ∈ keptRunes s maxBytes, isControl r = false := by
  intro r member
  have inside := (fitting_isPrefix maxBytes _).subset member
  simpa using (List.mem_filter.mp inside).2

/-- What SanitizeIdentifier makes of an identifier before it cuts. -/
def cleaned (s : Str) : Str :=
  mapRunes (fun r => if isControl r then none else some r) (trimSpace s)

theorem cleaned_eq (s : Str) : cleaned s = encodeAll (visible s) := by
  rw [cleaned, mapRunes_eq, runes_trimSpace, visible, ← List.filterMap_eq_filter]
  congr 2
  funext r
  cases control : isControl r <;> simp [Option.guard, control]

theorem sanitizeIdentifier_eq (s : Str) (maxBytes : Nat) :
    sanitizeIdentifier s maxBytes = encodeAll (keptRunes s maxBytes) := by
  have cut : sanitizeIdentifier s maxBytes = if (cleaned s).length ≤ maxBytes then cleaned s
      else toValidUTF8 ((cleaned s).take maxBytes) := rfl
  rw [cut, cleaned_eq]
  split
  · rename_i fits
    rw [keptRunes, fitting_of_le fits]
  · exact toValidUTF8_take (visible_scalar s) maxBytes

theorem sanitizeIdentifier_short (s : Str) (maxBytes : Nat) :
    (sanitizeIdentifier s maxBytes).length ≤ maxBytes := by
  rw [sanitizeIdentifier_eq]
  exact fitting_length maxBytes (visible s)

theorem sanitizeIdentifier_valid (s : Str) (maxBytes : Nat) :
    validString (sanitizeIdentifier s maxBytes) = true := by
  rw [sanitizeIdentifier_eq]
  exact validString_encodeAll (keptRunes_scalar s maxBytes)

theorem sanitizeIdentifier_visible (s : Str) (maxBytes : Nat) :
    ∀ r ∈ runes (sanitizeIdentifier s maxBytes), isControl r = false := by
  rw [sanitizeIdentifier_eq, runes_encodeAll (keptRunes_scalar s maxBytes)]
  exact keptRunes_visible s maxBytes

/-- Sanitising an identifier again trims what dropping control characters or the cut
exposed. -/
theorem sanitizeIdentifier_twice (s : Str) (maxBytes : Nat) :
    sanitizeIdentifier (sanitizeIdentifier s maxBytes) maxBytes =
      encodeAll (trimRunes (keptRunes s maxBytes)) := by
  have inside := trimRunes_isInfix (keptRunes s maxBytes)
  have noControl : visible (encodeAll (keptRunes s maxBytes)) =
      trimRunes (keptRunes s maxBytes) := by
    rw [visible, runes_encodeAll (keptRunes_scalar s maxBytes), List.filter_eq_self]
    intro r member
    simpa using keptRunes_visible s maxBytes r (inside.subset member)
  have fits : (encodeAll (trimRunes (keptRunes s maxBytes))).length ≤ maxBytes := by
    have whole := fitting_length maxBytes (visible s)
    obtain ⟨front, back, split⟩ := inside
    have lengths := congrArg (fun rs => (encodeAll rs).length) split
    simp only [encodeAll_append, List.length_append] at lengths
    unfold keptRunes at lengths ⊢
    omega
  rw [sanitizeIdentifier_eq s, sanitizeIdentifier_eq, keptRunes, noControl, fitting_of_le fits]

theorem sanitizeIdentifier_idempotent_iff (s : Str) (maxBytes : Nat) :
    sanitizeIdentifier (sanitizeIdentifier s maxBytes) maxBytes = sanitizeIdentifier s maxBytes ↔
      Neat (keptRunes s maxBytes) := by
  rw [sanitizeIdentifier_twice, sanitizeIdentifier_eq, ← trimRunes_eq_self_iff]
  constructor
  · apply encodeAll_inj
    · intro r member
      exact keptRunes_scalar s maxBytes r ((trimRunes_isInfix _).subset member)
    · exact keptRunes_scalar s maxBytes
  · exact congrArg encodeAll

theorem sanitizeIdentifier_eq_nil_iff (s : Str) {maxBytes : Nat} (room : 4 ≤ maxBytes) :
    sanitizeIdentifier s maxBytes = [] ↔ visible s = [] := by
  rw [sanitizeIdentifier_eq, keptRunes]
  cases visible s with
  | nil => exact ⟨fun _ => rfl, fun _ => rfl⟩
  | cons r rest =>
    have length := encodeRune_length r
    rw [fitting, if_pos (by omega)]
    constructor
    · intro empty
      have lengths := congrArg List.length empty
      rw [encodeAll, List.flatMap_cons, List.length_append, List.length_nil] at lengths
      omega
    · intro empty
      cases empty

/-- Short enough for the column, valid UTF-8 and free of control characters. -/
structure CleanLabel (s : Str) : Prop where
  short : s.length ≤ maxUserIDBytes
  valid : validString s = true
  visible : ∀ r ∈ runes s, isControl r = false

theorem sanitizeIdentifier_clean (s : Str) : CleanLabel (sanitizeIdentifier s maxUserIDBytes) where
  short := sanitizeIdentifier_short s maxUserIDBytes
  valid := sanitizeIdentifier_valid s maxUserIDBytes
  visible := sanitizeIdentifier_visible s maxUserIDBytes

/-- What an identifier becomes under a byte limit. -/
structure Sanitized (s : Str) (maxBytes : Nat) (identifier : Str) : Prop where
  short : identifier.length ≤ maxBytes
  valid : validString identifier = true
  visible : ∀ r ∈ runes identifier, isControl r = false
  unchanged : validString s = true → (∀ r ∈ runes s, isControl r = false) → Neat (runes s) →
    s.length ≤ maxBytes → identifier = s
  boundary : EndsOnBoundary identifier (cleaned s)
  longest : ∀ front, EndsOnBoundary front (cleaned s) → front.length ≤ maxBytes →
    front <+: identifier

/-- Nothing is dropped from an identifier without control characters or white space at
its ends. -/
theorem visible_eq_runes {s : Str} (noControl : ∀ r ∈ runes s, isControl r = false)
    (neat : Neat (runes s)) : visible s = runes s := by
  rw [visible, (trimRunes_eq_self_iff _).mpr neat, List.filter_eq_self]
  intro r member
  simp [noControl r member]

theorem sanitizeIdentifier_sanitized (s : Str) (maxBytes : Nat) :
    Sanitized s maxBytes (sanitizeIdentifier s maxBytes) where
  short := sanitizeIdentifier_short s maxBytes
  valid := sanitizeIdentifier_valid s maxBytes
  visible := sanitizeIdentifier_visible s maxBytes
  unchanged := by
    intro valid noControl neat short
    have whole := encodeAll_runes valid
    have kept : fitting maxBytes (runes s) = runes s := fitting_of_le (by rwa [whole])
    rw [sanitizeIdentifier_eq, keptRunes, visible_eq_runes noControl neat, kept, whole]
  boundary := by
    rw [sanitizeIdentifier_eq, cleaned_eq]
    exact endsOnBoundary_encodeAll (visible_scalar s) (fitting_isPrefix maxBytes (visible s))
  longest := by
    intro front boundary short
    rw [cleaned_eq] at boundary
    obtain ⟨rs, ahead, rfl⟩ := boundary.encodes (visible_scalar s)
    rw [sanitizeIdentifier_eq]
    exact encodeAll_isPrefix (fitting_longest ahead short)

/-- The cut falls inside the second character, which goes whole. -/
example : sanitizeIdentifier [0x20, 0x61, 0x00, 0xC3, 0xA9] 2 = [0x61] := by decide

/-! The span path. -/

/-- The label in force: the span's own, else its resource's. -/
def spanLabel (rt : Platform F) (s : OtlpSpan F) (resource : Attributes F) : Str :=
  if GenAI.index (attrMap rt s.attributes) attrUserID = [] then strAttr rt resource attrUserID
  else GenAI.index (attrMap rt s.attributes) attrUserID

/-- What UserEnricher makes of a label. -/
def resolveLabel (user : Option UserResolver) (label : Str) : Except GoError Str :=
  match user with
  | none => .ok (sanitizeIdentifier label maxUserIDBytes)
  | some resolve =>
    if sanitizeIdentifier label maxUserIDBytes = [] then .ok []
    else resolve (sanitizeIdentifier label maxUserIDBytes)

theorem userEnricher_accepts {user : Option UserResolver} {span : Span F}
    (accepted : (userEnricher user span).2 = none) :
    resolveLabel user span.userID = .ok (userEnricher user span).1.userID ∧
      (userEnricher user span).1.modelNormalized = span.modelNormalized := by
  cases user with
  | none => simp only [userEnricher, resolveLabel, and_self]
  | some resolve =>
    simp only [userEnricher, resolveLabel] at accepted ⊢
    by_cases blank : sanitizeIdentifier span.userID maxUserIDBytes = []
    · simp only [blank, ↓reduceIte, and_self]
    · simp only [blank, ↓reduceIte] at accepted ⊢
      cases answer : resolve (sanitizeIdentifier span.userID maxUserIDBytes) with
      | error err => simp [answer] at accepted
      | ok userID => simp

theorem pricingEnricher_labels (resolver : Option (PricingResolver F)) (span : Span F) :
    (pricingEnricher rt resolver span).1.userID = span.userID ∧
      (pricingEnricher rt resolver span).1.modelNormalized = span.modelNormalized := by
  simp only [pricingEnricher]
  split
  · exact ⟨rfl, rfl⟩
  · split
    · exact ⟨rfl, rfl⟩
    · split <;> exact ⟨rfl, rfl⟩

/-- The enrichers behind NormalizeModelEnricher set the user and leave the model. -/
theorem laterEnrichers_labels {cfg : ChainConfig F} {span : Span F} {later : List (Enricher F)}
    (behind : later = [pricingEnricher rt cfg.pricing, filterEnricher rt cfg.allowedModels])
    (accepted : (applyChain (userEnricher cfg.user :: later) span).2 = none) :
    resolveLabel cfg.user span.userID =
        .ok (applyChain (userEnricher cfg.user :: later) span).1.userID ∧
      (applyChain (userEnricher cfg.user :: later) span).1.modelNormalized =
        span.modelNormalized := by
  rw [applyChain_cons] at accepted ⊢
  split at accepted
  · rename_i failed
    rw [accepted] at failed
    cases failed
  · rename_i resolved
    have done : (userEnricher cfg.user span).2 = none := by simpa using resolved
    obtain ⟨user, model⟩ := userEnricher_accepts done
    have keeps : ∀ e ∈ later, ∀ span : Span F,
        ((e span).1.userID, (e span).1.modelNormalized) = (span.userID, span.modelNormalized) := by
      intro e member span
      simp only [behind, List.mem_cons, List.not_mem_nil, or_false] at member
      rcases member with rfl | rfl
      · rw [(pricingEnricher_labels cfg.pricing span).1, (pricingEnricher_labels cfg.pricing span).2]
      · rw [filterEnricher_span]
    have fields := applyChain_preserves (fun span : Span F => (span.userID, span.modelNormalized))
      later keeps (userEnricher cfg.user span).1
    rw [Prod.mk.injEq] at fields
    rw [if_neg resolved, fields.1, fields.2]
    exact ⟨user, model⟩

/-- The labels of an accepted span: each enricher sets its own and no later one changes
it. -/
theorem defaultChain_labels (cfg : ChainConfig F) (span : Span F)
    (accepted : (applyChain (defaultChain rt cfg) span).2 = none) :
    resolveLabel cfg.user span.userID = .ok (applyChain (defaultChain rt cfg) span).1.userID ∧
      (applyChain (defaultChain rt cfg) span).1.modelNormalized = normalizeModel rt span.model := by
  have later := defaultChain_normalized cfg span accepted
  rw [later] at accepted ⊢
  obtain ⟨user, model⟩ := laterEnrichers_labels rfl accepted
  rw [model, ← user]
  simp only [normalizeModelEnricher, and_self]

/-- What an accepted span is stored under. -/
theorem storedRow_labels {p : TraciumProcessor F} {ctx : RequestContext} {resource : Attributes F}
    {s : OtlpSpan F} {row : Span F} (stored : storedRow rt p ctx resource s = some row) :
    resolveLabel p.chain.user (spanLabel rt s resource) =
        .ok (chainResult rt p ctx resource s).1.userID ∧
      row.userID = (if (chainResult rt p ctx resource s).1.userID ≠ [] then
        (chainResult rt p ctx resource s).1.userID else strAttr rt s.attributes attrUserID) ∧
      row.modelNormalized =
        normalizeModel rt (ingestModel rt (ingestScope ctx) resource s).model := by
  obtain ⟨_, accepted, rfl⟩ := storedRow_eq_some_iff.mp stored
  unfold chainResult at accepted ⊢
  obtain ⟨user, model⟩ := defaultChain_labels p.chain _ accepted
  refine ⟨user, row_userID p s _ _ resource, ?_⟩
  rw [row_modelNormalized, model]

/-! The metric path. -/

/-- The row one data point ends up as, `none` when the processor or the exporter drops
it. -/
def storedPoint (rt : Platform F) (q : MetricsProcessor F) (resource : Attributes F)
    (workspace : Str) (attrs : Attributes F) (tokens : Int) (ts : UInt64) : Option (Span F) :=
  (enrichPoint rt q attrs tokens resource workspace).bind fun stamped =>
    Exporter.usageRow rt stamped tokens ts

def storedPoints (rt : Platform F) (q : MetricsProcessor F) (resource : Attributes F)
    (workspace : Str) : MetricData F → List (Span F)
  | .histogram _ points => points.filterMap fun dp =>
      storedPoint rt q resource workspace dp.attributes (rt.truncate dp.sum).toInt dp.timestamp
  | .sum _ points => points.filterMap fun dp =>
      storedPoint rt q resource workspace dp.attributes (dataPointValue rt dp.value) dp.timestamp
  | .other => []

theorem usageRows_enrichPoints (q : MetricsProcessor F) (resource : Attributes F) (workspace : Str)
    (m : Metric F) :
    Exporter.usageRows rt { m with data := enrichPoints rt q resource workspace m.data } =
      storedPoints rt q resource workspace m.data := by
  cases data : m.data with
  | histogram temporality points =>
    simp only [Exporter.usageRows, enrichPoints, storedPoints, List.filterMap_filterMap]
    apply List.filterMap_congr
    intro dp _
    simp only [storedPoint]
    cases enrichPoint rt q dp.attributes (rt.truncate dp.sum).toInt resource workspace <;> rfl
  | sum temporality points =>
    simp only [Exporter.usageRows, enrichPoints, storedPoints, List.filterMap_filterMap]
    apply List.filterMap_congr
    intro dp _
    simp only [storedPoint]
    cases enrichPoint rt q dp.attributes (dataPointValue rt dp.value) resource workspace <;> rfl
  | other => rfl

/-- What one metric contributes to a batch of rows. -/
theorem processMetric_rows (q : MetricsProcessor F) (scope : AuthScope) (resource : Attributes F)
    (m : Metric F) :
    ((processMetric rt q scope resource m).elim [] fun m' =>
      if m'.name ≠ GenAI.tokenUsageMetric ∨ Exporter.isCumulative m' then []
      else Exporter.usageRows rt m') =
    if m.name ≠ GenAI.tokenUsageMetric ∨ scope.authenticated = false ∨ Processor.isCumulative m
    then [] else storedPoints rt q resource scope.workspace m.data := by
  unfold processMetric
  by_cases other : m.name ≠ GenAI.tokenUsageMetric
  · simp [other]
  rw [if_neg other]
  cases authenticated : scope.authenticated with
  | false => simp
  | true =>
    by_cases cumulative : Processor.isCumulative m = true
    · by_cases supported : isSupported m.data = true <;> simp [supported, cumulative]
    · have untouched : Exporter.isCumulative
          { m with data := enrichPoints rt q resource scope.workspace m.data } = false := by
        cases data : m.data with
        | histogram temporality points =>
          simpa [Exporter.isCumulative, Processor.isCumulative, enrichPoints, data] using cumulative
        | sum temporality points =>
          simpa [Exporter.isCumulative, Processor.isCumulative, enrichPoints, data] using cumulative
        | other => rfl
      cases supported : isSupported m.data with
      | false =>
        have none : m.data = .other := by
          cases data : m.data <;> simp [isSupported, data] at supported ⊢
        simp [storedPoints, none]
      | true =>
        rw [← usageRows_enrichPoints]
        simp [cumulative, untouched, other]

/-- The rows of a metrics batch are the stored rows of its token-usage points, in order. -/
theorem pushMetrics_processMetrics (q : MetricsProcessor F) (ctx : RequestContext)
    (md : Metrics F) : Exporter.pushMetrics rt (processMetrics rt q ctx md) =
      md.flatMap fun rm => rm.scopeMetrics.flatMap fun metrics => metrics.flatMap fun m =>
        if m.name ≠ GenAI.tokenUsageMetric ∨ (ingestScope ctx).authenticated = false ∨
            Processor.isCumulative m then []
        else storedPoints rt q rm.resource (ingestScope ctx).workspace m.data := by
  simp only [Exporter.pushMetrics, processMetrics, List.flatMap_map]
  congr 1
  funext rm
  congr 1
  funext metrics
  induction metrics with
  | nil => rfl
  | cons m rest ih =>
    rw [List.flatMap_cons, ← ih, ← processMetric_rows]
    cases processed : processMetric rt q (ingestScope ctx) rm.resource m with
    | none => rw [List.filterMap_cons_none processed, Option.elim_none, List.nil_append]
    | some m' => rw [List.filterMap_cons_some processed, List.flatMap_cons, Option.elim_some]

/-- The labels enrichPoint leaves on a point it keeps. -/
theorem enrichPoint_labels {q : MetricsProcessor F} {resource : Attributes F} {workspace : Str}
    {attrs stamped : Attributes F} {tokens : Int}
    (kept : enrichPoint rt q attrs tokens resource workspace = some stamped) :
    ∃ userID, resolveMetricUser q.user (metricUser rt attrs resource) = some userID ∧
      strAttr rt stamped attrUserID = (if userID ≠ [] then userID else
        strAttr rt attrs attrUserID) ∧
      strAttr rt stamped attrModelNormalized =
        normalizeModel rt (GenAI.metricModel (strAttr rt attrs)) := by
  have notUser : attrWorkspaceID ≠ attrUserID := by decide
  have notModel : attrWorkspaceID ≠ attrModelNormalized := by decide
  have apart : attrUserID ≠ attrModelNormalized := by decide
  have cost : attrCostUSD ≠ attrUserID := by decide
  unfold enrichPoint at kept
  split at kept
  · cases kept
  · split at kept
    · cases kept
    · rename_i userID resolved
      rw [Option.some.injEq] at kept
      refine ⟨userID, resolved, ?_, ?_⟩
      · apply strAttr_stamped
        rw [← kept, get_put_other _ _ notUser, get_putIf_same, get_put_other _ _ apart.symm,
          get_put_other _ _ cost]
        by_cases blank : userID = [] <;> simp [blank]
      · rw [strAttr, ← kept, get_put_other _ _ notModel, get_putIf_other _ _ _ apart, get_put_same]
        rfl

/-- What a data point is stored under: the exporter sanitises what the processor left. -/
theorem storedPoint_labels {q : MetricsProcessor F} {resource : Attributes F} {workspace : Str}
    {attrs : Attributes F} {tokens : Int} {ts : UInt64} {row : Span F}
    (stored : storedPoint rt q resource workspace attrs tokens ts = some row) :
    ∃ userID, resolveMetricUser q.user (metricUser rt attrs resource) = some userID ∧
      row.userID = sanitizeIdentifier (if userID ≠ [] then userID else strAttr rt attrs attrUserID)
        maxUserIDBytes ∧
      row.modelNormalized = sanitizeIdentifier
        (normalizeModel rt (GenAI.metricModel (strAttr rt attrs))) maxModelNameBytes := by
  obtain ⟨stamped, kept, exported⟩ := Option.bind_eq_some_iff.mp stored
  obtain ⟨userID, resolved, user, model⟩ := enrichPoint_labels kept
  have sameUser : Exporter.attrUserID = attrUserID := rfl
  have sameModel : Exporter.attrModelNormalized = attrModelNormalized := rfl
  refine ⟨userID, resolved, ?_⟩
  rw [← user, ← model]
  unfold Exporter.usageRow at exported
  split at exported
  · cases exported
  · rw [Option.some.injEq] at exported
    simp only [← exported, sameUser, sameModel, and_self]

/-! Both paths. -/

/-- user.Passthrough, or no resolver at all. -/
def Passthrough (user : Option UserResolver) : Prop := user = none ∨ user = some Except.ok

theorem resolveLabel_passthrough {user : Option UserResolver} (through : Passthrough user)
    (label : Str) : resolveLabel user label = .ok (sanitizeIdentifier label maxUserIDBytes) := by
  rcases through with rfl | rfl
  · rfl
  · unfold resolveLabel
    by_cases blank : sanitizeIdentifier label maxUserIDBytes = []
    · simp only [blank, ↓reduceIte]
    · simp only [blank, ↓reduceIte]

theorem resolveMetricUser_passthrough {user : Option UserResolver} (through : Passthrough user)
    (label : Str) :
    resolveMetricUser user label = some (sanitizeIdentifier label maxUserIDBytes) := by
  rcases through with rfl | rfl
  · rfl
  · unfold resolveMetricUser
    by_cases blank : label = []
    · simp only [blank, ↓reduceIte]
    · simp only [blank, ↓reduceIte]

theorem eq_nil_of_visible {label : Str} :
    sanitizeIdentifier label maxUserIDBytes = [] ↔ visible label = [] :=
  sanitizeIdentifier_eq_nil_iff label (by decide)

/-- Something visible is left of the label, and the resolver maps it to something. -/
def Resolves (user : Option UserResolver) (label : Str) : Prop :=
  visible label ≠ [] ∧ ∀ resolve, user = some resolve →
    resolve (sanitizeIdentifier label maxUserIDBytes) ≠ .ok []

theorem resolves_iff {user : Option UserResolver} {label userID : Str}
    (resolved : resolveLabel user label = .ok userID) : Resolves user label ↔ userID ≠ [] := by
  unfold Resolves
  cases user with
  | none =>
    obtain rfl : sanitizeIdentifier label maxUserIDBytes = userID := Except.ok.inj resolved
    rw [ne_eq, ne_eq, eq_nil_of_visible]
    simp
  | some resolve =>
    simp only [resolveLabel] at resolved
    by_cases blank : sanitizeIdentifier label maxUserIDBytes = []
    · rw [if_pos blank] at resolved
      obtain rfl : [] = userID := Except.ok.inj resolved
      simp [eq_nil_of_visible.mp blank]
    · rw [if_neg blank] at resolved
      have left : visible label ≠ [] := fun none => blank (eq_nil_of_visible.mpr none)
      constructor
      · rintro ⟨_, answer⟩ rfl
        exact answer resolve rfl resolved
      · rintro nonempty
        refine ⟨left, ?_⟩
        rintro _ ⟨rfl⟩ empty
        rw [resolved, Except.ok.injEq] at empty
        exact nonempty empty

/-- An accepted span is stored under the user the chain resolved exactly when that user
is not empty or the span itself carries no label to be left behind. -/
theorem stored_user_resolved_iff {p : TraciumProcessor F} {ctx : RequestContext}
    {resource : Attributes F} {s : OtlpSpan F} {row : Span F}
    (stored : storedRow rt p ctx resource s = some row) :
    (row.userID = (chainResult rt p ctx resource s).1.userID ∧
      (Passthrough p.chain.user → CleanLabel row.userID)) ↔
    Resolves p.chain.user (spanLabel rt s resource) ∨ strAttr rt s.attributes attrUserID = [] := by
  obtain ⟨resolved, user, _⟩ := storedRow_labels stored
  have answered := resolves_iff resolved
  generalize (chainResult rt p ctx resource s).1.userID = userID at resolved user answered ⊢
  rw [answered]
  constructor
  · rintro ⟨same, _⟩
    by_cases blank : userID = []
    · right
      rw [if_neg (not_not.mpr blank)] at user
      rw [← user, same, blank]
    · exact .inl blank
  · intro condition
    have same : row.userID = userID := by
      by_cases blank : userID = []
      · rw [user, if_neg (not_not.mpr blank), blank]
        rcases condition with nonempty | unlabelled
        · exact absurd blank nonempty
        · exact unlabelled
      · rw [user, if_pos blank]
    refine ⟨same, fun through => ?_⟩
    rw [resolveLabel_passthrough through, Except.ok.injEq] at resolved
    rw [same, ← resolved]
    exact sanitizeIdentifier_clean _

/-- The default configuration: no prices, the passthrough resolver, content kept. -/
def passthroughProcessor : TraciumProcessor Int := ⟨⟨none, some Except.ok, []⟩, true, false⟩

/-- A span or data point that carries a label and a model. -/
def labelled (label model : Str) : Attributes Int :=
  [(attrUserID, .str label), (attrModelRequest, .str model)]

def storedLabelled (label model : Str) : Option (Span Int) :=
  storedRow plainPlatform passthroughProcessor (verifiedContext (lit "mine")) []
    (plainSpan (labelled label model))

theorem stored_user_control_character :
    (storedLabelled [0x01] (lit "gpt-4o")).map Span.userID = some [0x01] ∧
    ¬ ∀ row, storedLabelled [0x01] (lit "gpt-4o") = some row →
      row.userID = (chainResult plainPlatform passthroughProcessor (verifiedContext (lit "mine")) []
        (plainSpan (labelled [0x01] (lit "gpt-4o")))).1.userID ∧ CleanLabel row.userID := by
  have raw : (storedLabelled [0x01] (lit "gpt-4o")).map Span.userID = some [0x01] := by
    decide +kernel
  refine ⟨raw, fun same => ?_⟩
  obtain ⟨row, stored, user⟩ := Option.map_eq_some_iff.mp raw
  have control := (same row stored).2.visible 0x01
  rw [user] at control
  have shown : isControl 0x01 = false := control (by decide +kernel)
  cases shown

theorem labelled_kept : (storedLabelled (lit "alice") (lit "gpt-4o")).isSome = true := by
  decide +kernel

theorem stored_user_resolved_alice :
    ((storedLabelled (lit "alice") (lit "gpt-4o")).get labelled_kept).userID =
      (chainResult plainPlatform passthroughProcessor (verifiedContext (lit "mine")) []
        (plainSpan (labelled (lit "alice") (lit "gpt-4o")))).1.userID ∧
    (Passthrough passthroughProcessor.chain.user →
      CleanLabel ((storedLabelled (lit "alice") (lit "gpt-4o")).get labelled_kept).userID) := by
  apply (stored_user_resolved_iff (Option.some_get labelled_kept).symm).mpr
  left
  refine ⟨by decide +kernel, ?_⟩
  rintro _ ⟨rfl⟩
  decide +kernel

/-- A label that survives both paths alike: no white space comes to an end of it when its
control characters are dropped or it is cut, and it is not all control characters and
white space. -/
def LabelStable (label : Str) : Prop :=
  Neat (keptRunes label maxUserIDBytes) ∧ (visible label = [] → label = [])

def ModelStable (rt : Platform F) (model : Str) : Prop :=
  Neat (keptRunes (toLower rt.toLowerRune model) maxModelNameBytes)

theorem paths_label_iff (label : Str) :
    ((if sanitizeIdentifier label maxUserIDBytes ≠ [] then sanitizeIdentifier label maxUserIDBytes
      else label) =
      sanitizeIdentifier (if sanitizeIdentifier label maxUserIDBytes ≠ [] then
        sanitizeIdentifier label maxUserIDBytes else label) maxUserIDBytes) ↔ LabelStable label := by
  unfold LabelStable
  by_cases blank : sanitizeIdentifier label maxUserIDBytes = []
  · have none : visible label = [] := eq_nil_of_visible.mp blank
    have kept : keptRunes label maxUserIDBytes = [] := by rw [keptRunes, none]; rfl
    rw [if_neg (not_not.mpr blank), blank]
    simp [none, kept, Neat]
  · have left : visible label ≠ [] := fun none => blank (eq_nil_of_visible.mpr none)
    rw [if_pos blank, eq_comm, sanitizeIdentifier_idempotent_iff]
    simp [left]

/-- A stored span that carries the label and the model under the passthrough resolver: the
first attribute and the snapshot agree on the label, and without one the resource has none. -/
structure SpanCarries (rt : Platform F) (p : TraciumProcessor F) (ctx : RequestContext)
    (resource : Attributes F) (s : OtlpSpan F) (label model : Str) (row : Span F) : Prop where
  through : Passthrough p.chain.user
  stored : storedRow rt p ctx resource s = some row
  carries : strAttr rt s.attributes attrUserID = label
  snapshot : GenAI.index (attrMap rt s.attributes) attrUserID = label
  fallback : label = [] → strAttr rt resource attrUserID = []
  names : (ingestModel rt (ingestScope ctx) resource s).model = model

/-- A stored data point that carries them. -/
structure PointCarries (rt : Platform F) (q : MetricsProcessor F) (resource : Attributes F)
    (workspace : Str) (attrs : Attributes F) (tokens : Int) (ts : UInt64) (label model : Str)
    (usage : Span F) : Prop where
  through : Passthrough q.user
  stored : storedPoint rt q resource workspace attrs tokens ts = some usage
  carries : strAttr rt attrs attrUserID = label
  fallback : label = [] → strAttr rt resource attrUserID = []
  names : GenAI.metricModel (strAttr rt attrs) = model

theorem SpanCarries.spanLabel_eq {p : TraciumProcessor F} {ctx : RequestContext}
    {resource : Attributes F} {s : OtlpSpan F} {label model : Str} {row : Span F}
    (span : SpanCarries rt p ctx resource s label model row) : spanLabel rt s resource = label := by
  unfold spanLabel
  rw [span.snapshot]
  by_cases blank : label = []
  · rw [if_pos blank, span.fallback blank, blank]
  · rw [if_neg blank]

theorem PointCarries.metricUser_eq {q : MetricsProcessor F} {resource : Attributes F}
    {workspace : Str} {attrs : Attributes F} {tokens : Int} {ts : UInt64} {label model : Str}
    {usage : Span F} (point : PointCarries rt q resource workspace attrs tokens ts label model usage) :
    metricUser rt attrs resource = label := by
  unfold metricUser
  rw [point.carries]
  by_cases blank : label = []
  · rw [if_neg (not_not.mpr blank), point.fallback blank, blank]
  · rw [if_pos blank]

/-- A span and a data point that carry one label and one model are stored under the same
label and the same normalized model exactly when both survive being sanitised twice. -/
theorem stored_labels_agree_iff {label model : Str}
    {p : TraciumProcessor F} {ctx : RequestContext} {resource : Attributes F} {s : OtlpSpan F}
    {row : Span F} (span : SpanCarries rt p ctx resource s label model row)
    {q : MetricsProcessor F} {pointResource : Attributes F} {workspace : Str} {attrs : Attributes F}
    {tokens : Int} {ts : UInt64} {usage : Span F}
    (point : PointCarries rt q pointResource workspace attrs tokens ts label model usage) :
    (row.userID = usage.userID ∧ row.modelNormalized = usage.modelNormalized) ↔
      LabelStable label ∧ ModelStable rt model := by
  obtain ⟨resolved, user, normalized⟩ := storedRow_labels span.stored
  obtain ⟨userID, metric, pointUser, pointNormalized⟩ := storedPoint_labels point.stored
  rw [span.spanLabel_eq, resolveLabel_passthrough span.through, Except.ok.injEq] at resolved
  rw [point.metricUser_eq, resolveMetricUser_passthrough point.through, Option.some.injEq] at metric
  rw [← resolved, span.carries] at user
  rw [← metric, point.carries] at pointUser
  rw [user, pointUser, paths_label_iff, normalized, pointNormalized, span.names, point.names,
    normalizeModel, eq_comm (b := sanitizeIdentifier (sanitizeIdentifier _ _) _),
    sanitizeIdentifier_idempotent_iff]
  rfl

def pointLabelled (label model : Str) : Option (Span Int) :=
  storedPoint plainPlatform ⟨none, some Except.ok⟩ [] (lit "mine") (labelled label model) 5 1000000

/-- A control character in front of a space: the span keeps the space, the point does not. -/
theorem stored_labels_differ :
    (storedLabelled [0x01, 0x20, 0x61] (lit "gpt-4o")).map Span.userID = some [0x20, 0x61] ∧
    (pointLabelled [0x01, 0x20, 0x61] (lit "gpt-4o")).map Span.userID = some [0x61] ∧
    ¬ ∀ row usage, storedLabelled [0x01, 0x20, 0x61] (lit "gpt-4o") = some row →
      pointLabelled [0x01, 0x20, 0x61] (lit "gpt-4o") = some usage →
      row.userID = usage.userID ∧ row.modelNormalized = usage.modelNormalized := by
  have onSpan : (storedLabelled [0x01, 0x20, 0x61] (lit "gpt-4o")).map Span.userID =
      some [0x20, 0x61] := by
    decide +kernel
  have onPoint : (pointLabelled [0x01, 0x20, 0x61] (lit "gpt-4o")).map Span.userID =
      some [0x61] := by
    decide +kernel
  refine ⟨onSpan, onPoint, fun agree => ?_⟩
  obtain ⟨row, stored, user⟩ := Option.map_eq_some_iff.mp onSpan
  obtain ⟨usage, exported, user'⟩ := Option.map_eq_some_iff.mp onPoint
  have same := (agree row usage stored exported).1
  rw [user, user'] at same
  cases same

theorem pointLabelled_kept : (pointLabelled (lit "alice") (lit "gpt-4o")).isSome = true := by
  decide +kernel

theorem alice_span : SpanCarries plainPlatform passthroughProcessor (verifiedContext (lit "mine")) []
    (plainSpan (labelled (lit "alice") (lit "gpt-4o"))) (lit "alice") (lit "gpt-4o")
    ((storedLabelled (lit "alice") (lit "gpt-4o")).get labelled_kept) where
  through := .inr rfl
  stored := (Option.some_get labelled_kept).symm
  carries := by decide +kernel
  snapshot := by decide +kernel
  fallback := by decide +kernel
  names := by decide +kernel

theorem alice_point : PointCarries plainPlatform ⟨none, some Except.ok⟩ [] (lit "mine")
    (labelled (lit "alice") (lit "gpt-4o")) 5 1000000 (lit "alice") (lit "gpt-4o")
    ((pointLabelled (lit "alice") (lit "gpt-4o")).get pointLabelled_kept) where
  through := .inr rfl
  stored := (Option.some_get pointLabelled_kept).symm
  carries := by decide +kernel
  fallback := by decide +kernel
  names := by decide +kernel

theorem stored_labels_agree_alice :
    ((storedLabelled (lit "alice") (lit "gpt-4o")).get labelled_kept).userID =
      ((pointLabelled (lit "alice") (lit "gpt-4o")).get pointLabelled_kept).userID ∧
    ((storedLabelled (lit "alice") (lit "gpt-4o")).get labelled_kept).modelNormalized =
      ((pointLabelled (lit "alice") (lit "gpt-4o")).get pointLabelled_kept).modelNormalized := by
  have stable : LabelStable (lit "alice") ∧ ModelStable plainPlatform (lit "gpt-4o") := by
    unfold LabelStable ModelStable Neat
    decide +kernel
  exact (stored_labels_agree_iff alice_span alice_point).mpr stable

end Tracium
