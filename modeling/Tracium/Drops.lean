import Tracium.Processor
import Tracium.Traverse

/-! Where a dropped span goes. Here processTraces threads the state of what it calls:
the resolvers behind the chain and the dead-letter store may answer differently each
time, and Put may fail. -/
namespace Tracium.Drops

open Go Processor Traverse

variable {σ F : Type}

/-- An enricher over the state `σ` of whatever its resolver talks to. -/
abbrev Enricher (σ F : Type) := σ → Span F → σ × Span F × Option GoError

/-- Chain.Apply. -/
def applyChain : List (Enricher σ F) → σ → Span F → σ × Span F × Option GoError
  | [], env, span => (env, span, none)
  | e :: rest, env, span =>
    match e env span with
    | (env', span', some err) => (env', span', some err)
    | (env', span', none) => applyChain rest env' span'

/-- An enricher that calls nothing. -/
def local_ (e : Tracium.Enricher F) : Enricher σ F := fun env span => (env, e span)

def userEnricher (resolver : Option (σ → Str → σ × Except GoError Str)) : Enricher σ F :=
  fun env span =>
  let clean := sanitizeIdentifier span.userID maxUserIDBytes
  let span := { span with userID := clean }
  match resolver with
  | none => (env, span, none)
  | some resolve =>
    if clean = [] then (env, span, none)
    else match resolve env clean with
      | (env', .error err) =>
        (env', span, some (.transient .userLookupFailed (lit "failed to resolve user") err))
      | (env', .ok userID) => (env', { span with userID := userID }, none)

def pricingEnricher (rt : Platform F)
    (resolver : Option (σ → Str → PricingUsage → σ × Except GoError F)) : Enricher σ F :=
  fun env span =>
  match resolver with
  | none => (env, span, none)
  | some resolve =>
    if span.modelNormalized = [] then (env, span, none)
    else
      let usage : PricingUsage := ⟨span.inputTokens, span.outputTokens, span.cacheReadTokens,
        span.cacheWriteTokens⟩
      match resolve env span.modelNormalized usage with
      | (env', .error _) => (env', { span with costUSD := rt.zero }, none)
      | (env', .ok cost) => (env', { span with costUSD := cost }, none)

structure ChainConfig (σ F : Type) where
  pricing : Option (σ → Str → PricingUsage → σ × Except GoError F)
  user : Option (σ → Str → σ × Except GoError Str)
  allowedModels : List Str

/-- DefaultChain. -/
def defaultChain (rt : Platform F) (cfg : ChainConfig σ F) : List (Enricher σ F) :=
  [local_ validateEnricher, local_ (normalizeModelEnricher rt), userEnricher cfg.user,
    pricingEnricher rt cfg.pricing, local_ (filterEnricher rt cfg.allowedModels)]

/-- traciumProcessor with its collaborators: Put returns its error, `counter` is false
when no meter provider is configured. -/
structure TraciumProcessor (σ F : Type) where
  chain : List (Enricher σ F)
  deadLetter : σ → Record F → σ × Option GoError
  captureContent : Bool
  counter : Bool

/-- What processTraces changes besides the batch: the state of its collaborators, the
codes counted, the records handed to Put and the failures logged. -/
structure Journal (σ F : Type) where
  env : σ
  counted : List Str
  puts : List (Record F)
  logged : List (Str × GoError)

def recordDrop (p : TraciumProcessor σ F) (j : Journal σ F) (span : Span F) (cause : GoError) :
    Journal σ F :=
  let code := dropCode cause
  let record : Record F := ⟨code, cause.text, span⟩
  let put := p.deadLetter j.env record
  { env := put.1
    counted := if p.counter then j.counted ++ [code] else j.counted
    puts := j.puts ++ [record]
    logged := match put.2 with
      | none => j.logged
      | some err => j.logged ++ [(code, err)] }

variable (rt : Platform F)

/-- The span as it leaves the processor, given the enriched model. -/
def keptSpan (captureContent : Bool) (s : OtlpSpan F) (m : Span F) : OtlpSpan F :=
  let written := stampAvailableTools rt (writeBack s.attributes m) (attrMap rt s.attributes)
  { s with attributes := if captureContent then written else stripContent written }

/-- The RemoveIf callback of processTraces, `none` for a span it removes. -/
def processSpan (p : TraciumProcessor σ F) (scope : AuthScope) (resource : Attributes F)
    (j : Journal σ F) (s : OtlpSpan F) : Journal σ F × Option (OtlpSpan F) :=
  let model := ingestModel rt scope resource s
  if !scope.authenticated then (recordDrop p j model unauthenticatedError, none)
  else match applyChain p.chain j.env model with
    | (env, m, some err) => (recordDrop p { j with env := env } m err, none)
    | (env, m, none) => ({ j with env := env }, some (keptSpan rt p.captureContent s m))

def processResource (p : TraciumProcessor σ F) (scope : AuthScope) (j : Journal σ F)
    (rs : ResourceSpans F) : Journal σ F × ResourceSpans F :=
  let last := loop (removeIf (processSpan rt p scope rs.resource)) j rs.scopeSpans
  (last.1, ⟨rs.resource, last.2⟩)

/-- processTraces: the journal, and the batch or the error it returns. -/
def processTraces (p : TraciumProcessor σ F) (ctx : RequestContext) (j : Journal σ F)
    (td : Traces F) : Journal σ F × Except GoError (Traces F) :=
  let last := loop (processResource rt p (ingestScope ctx)) j td
  (last.1, .ok last.2)

/-! The chain, enricher by enricher. -/

/-- Every enricher in turn returned nil. -/
inductive Accepts : List (Enricher σ F) → σ → Span F → σ → Span F → Prop where
  | nil (env : σ) (span : Span F) : Accepts [] env span env span
  | cons {e : Enricher σ F} {rest : List (Enricher σ F)} {env env' env'' : σ}
      {span span' span'' : Span F} (first : e env span = (env', span', none))
      (later : Accepts rest env' span' env'' span'') : Accepts (e :: rest) env span env'' span''

/-- `err` is the error of the first enricher that returned one. -/
def FirstError (chain : List (Enricher σ F)) (env : σ) (span : Span F) (env' : σ)
    (span' : Span F) (err : GoError) : Prop :=
  ∃ before e after middle changed, chain = before ++ e :: after ∧
    Accepts before env span middle changed ∧ e middle changed = (env', span', some err)

theorem applyChain_accepts {chain : List (Enricher σ F)} {env env' : σ} {span span' : Span F}
    (applied : applyChain chain env span = (env', span', none)) :
    Accepts chain env span env' span' := by
  induction chain generalizing env span with
  | nil =>
    simp only [applyChain, Prod.mk.injEq, and_true] at applied
    obtain ⟨rfl, rfl⟩ := applied
    exact .nil env span
  | cons e rest ih =>
    simp only [applyChain] at applied
    split at applied
    · simp at applied
    · rename_i first
      exact .cons first (ih applied)

theorem applyChain_firstError {chain : List (Enricher σ F)} {env env' : σ} {span span' : Span F}
    {err : GoError} (applied : applyChain chain env span = (env', span', some err)) :
    FirstError chain env span env' span' err := by
  induction chain generalizing env span with
  | nil => simp [applyChain] at applied
  | cons e rest ih =>
    simp only [applyChain] at applied
    split at applied
    · rename_i first
      simp only [Prod.mk.injEq, Option.some.injEq] at applied
      obtain ⟨rfl, rfl, rfl⟩ := applied
      exact ⟨[], e, rest, env, span, rfl, .nil env span, first⟩
    · rename_i first
      obtain ⟨before, e', after, middle, changed, rfl, accepted, failed⟩ := ih applied
      exact ⟨e :: before, e', after, middle, changed, rfl, .cons first accepted, failed⟩

theorem Accepts.applyChain_eq {chain : List (Enricher σ F)} {env env' : σ} {span span' : Span F}
    (accepted : Accepts chain env span env' span') :
    applyChain chain env span = (env', span', none) := by
  induction accepted with
  | nil => rfl
  | cons first _ ih => simp only [applyChain, first, ih]

/-! Codes. -/

theorem SpanErrorCode.text_ne_nil (code : SpanErrorCode) : code.text ≠ [] := by
  cases code <;> decide

theorem dropCode_ne_nil (err : GoError) : dropCode err ≠ [] := by
  rw [dropCode]
  split
  · decide
  · assumption

theorem dropCode_eq_code {err : GoError} (coded : err.code ≠ []) : dropCode err = err.code := by
  rw [dropCode, if_neg coded]

theorem code_span_ne_nil (code : SpanErrorCode) (message : Str) :
    (GoError.span code message).code ≠ [] := SpanErrorCode.text_ne_nil code

theorem code_transient_ne_nil (code : TransientErrorCode) (message : Str) (cause : GoError) :
    (GoError.transient code message cause).code ≠ [] := by
  rw [GoError.code]
  split
  · exact SpanErrorCode.text_ne_nil _
  · cases code
    exact List.cons_ne_nil _ _

theorem validateError_coded {span : Span F} {err : GoError} (failed : validateError span = some err) :
    err.code ≠ [] := by
  obtain ⟨code, message, rfl⟩ : ∃ code message, err = GoError.span code message := by
    simp only [validateError] at failed
    split at failed
    · exact ⟨_, _, (Option.some.inj failed).symm⟩
    split at failed
    · exact ⟨_, _, (Option.some.inj failed).symm⟩
    split at failed
    · exact ⟨_, _, (Option.some.inj failed).symm⟩
    split at failed
    · exact ⟨_, _, (Option.some.inj failed).symm⟩
    split at failed
    · exact ⟨_, _, (Option.some.inj failed).symm⟩
    obtain ⟨tc, -, found⟩ := List.exists_of_findSome?_eq_some failed
    split at found
    · exact ⟨_, _, (Option.some.inj found).symm⟩
    · cases found
  exact code_span_ne_nil code message

/-- Every error DefaultChain can return carries a code, whatever its resolvers answer. -/
theorem defaultChain_coded (cfg : ChainConfig σ F) {e : Enricher σ F}
    (member : e ∈ defaultChain rt cfg) {env env' : σ} {span span' : Span F} {err : GoError}
    (failed : e env span = (env', span', some err)) : err.code ≠ [] := by
  simp only [defaultChain, List.mem_cons, List.not_mem_nil, or_false] at member
  rcases member with rfl | rfl | rfl | rfl | rfl
  · have invalid : validateError span = some err := congrArg (·.2.2) failed
    exact validateError_coded invalid
  · simp [local_, normalizeModelEnricher] at failed
  · simp only [userEnricher] at failed
    split at failed
    · simp at failed
    · split at failed
      · simp at failed
      · split at failed
        · simp only [Prod.mk.injEq, Option.some.injEq] at failed
          obtain ⟨-, -, rfl⟩ := failed
          exact code_transient_ne_nil _ _ _
        · simp at failed
  · simp only [pricingEnricher] at failed
    split at failed
    · simp at failed
    · split at failed
      · simp at failed
      · split at failed <;> simp at failed
  · have filtered : (filterEnricher rt cfg.allowedModels span).2 = some err :=
      congrArg (·.2.2) failed
    simp only [filterEnricher] at filtered
    split at filtered
    · cases filtered
    · split at filtered <;> split at filtered
      all_goals cases filtered
      all_goals exact code_span_ne_nil _ _

theorem firstError_coded {cfg : ChainConfig σ F} {env env' : σ} {span span' : Span F}
    {err : GoError} (failed : FirstError (defaultChain rt cfg) env span env' span' err) :
    err.code ≠ [] := by
  obtain ⟨before, e, after, middle, changed, split, -, returned⟩ := failed
  have member : e ∈ defaultChain rt cfg := split ▸ List.mem_append_right before List.mem_cons_self
  exact defaultChain_coded rt cfg member returned

/-! What becomes of a span. -/

inductive Fate (F : Type) where
  | kept (span : OtlpSpan F)
  | dropped (record : Record F)

def Fate.kept? : Fate F → Option (OtlpSpan F)
  | .kept span => some span
  | .dropped _ => none

def Fate.records : Fate F → List (Record F)
  | .kept _ => []
  | .dropped record => [record]

/-- The record of a span the processor removes: the unauthenticated one, or the one of
the first error of the chain. -/
def Explains (p : TraciumProcessor σ F) (scope : AuthScope) (env : σ) (model : Span F)
    (record : Record F) : Prop :=
  (scope.authenticated = false ∧
    record = ⟨SpanErrorCode.unauthenticated.text, unauthenticatedError.text, model⟩) ∨
  (scope.authenticated = true ∧ ∃ env' m err, FirstError p.chain env model env' m err ∧
    record = ⟨dropCode err, err.text, m⟩ ∧
    ∀ cfg, p.chain = defaultChain rt cfg → record.code = err.code)

/-- One span, its fate, and the journal before and after. -/
structure Handled (p : TraciumProcessor σ F) (scope : AuthScope) (resource : Attributes F)
    (j : Journal σ F) (s : OtlpSpan F) (fate : Fate F) (j' : Journal σ F) : Prop where
  kept_iff : fate.kept?.isSome ↔ scope.authenticated = true ∧
    ∃ env m, Accepts p.chain j.env (ingestModel rt scope resource s) env m
  keptAs : ∀ out, fate = .kept out → ∃ env m,
    Accepts p.chain j.env (ingestModel rt scope resource s) env m ∧
      out = keptSpan rt p.captureContent s m
  droppedAs : ∀ record, fate = .dropped record → record.code ≠ [] ∧
    Explains rt p scope j.env (ingestModel rt scope resource s) record
  puts : j'.puts = j.puts ++ fate.records
  counted : j'.counted = j.counted ++ if p.counter then fate.records.map Record.code else []

theorem recordDrop_puts (p : TraciumProcessor σ F) (j : Journal σ F) (span : Span F)
    (cause : GoError) : (recordDrop p j span cause).puts =
      j.puts ++ [⟨dropCode cause, cause.text, span⟩] := rfl

theorem recordDrop_counted (p : TraciumProcessor σ F) (j : Journal σ F) (span : Span F)
    (cause : GoError) : (recordDrop p j span cause).counted =
      j.counted ++ if p.counter then [dropCode cause] else [] := by
  cases counting : p.counter <;> simp [recordDrop, counting]

theorem handled_unauthenticated (p : TraciumProcessor σ F) {scope : AuthScope}
    (closed : scope.authenticated = false) (resource : Attributes F) (j : Journal σ F)
    (s : OtlpSpan F) :
    Handled rt p scope resource j s
      (.dropped ⟨dropCode unauthenticatedError, unauthenticatedError.text,
        ingestModel rt scope resource s⟩)
      (recordDrop p j (ingestModel rt scope resource s) unauthenticatedError) where
  kept_iff := by simp [Fate.kept?, closed]
  keptAs := by simp
  droppedAs := by
    rintro record ⟨⟩
    exact ⟨dropCode_ne_nil unauthenticatedError, .inl ⟨closed, rfl⟩⟩
  puts := recordDrop_puts p j _ _
  counted := recordDrop_counted p j _ _

theorem handled_dropped (p : TraciumProcessor σ F) {scope : AuthScope}
    (verified : scope.authenticated = true) (resource : Attributes F) (j : Journal σ F)
    (s : OtlpSpan F) {env : σ} {m : Span F} {err : GoError}
    (applied : applyChain p.chain j.env (ingestModel rt scope resource s) = (env, m, some err)) :
    Handled rt p scope resource j s (.dropped ⟨dropCode err, err.text, m⟩)
      (recordDrop p { j with env := env } m err) where
  kept_iff := by
    refine ⟨fun kept => by simp [Fate.kept?] at kept, ?_⟩
    rintro ⟨-, env', m', accepted⟩
    rw [accepted.applyChain_eq] at applied
    simp at applied
  keptAs := by simp
  droppedAs := by
    rintro record ⟨⟩
    have first := applyChain_firstError applied
    refine ⟨dropCode_ne_nil _, .inr ⟨verified, env, m, err, first, rfl, ?_⟩⟩
    intro cfg same
    rw [same] at first
    exact dropCode_eq_code (firstError_coded rt first)
  puts := recordDrop_puts p { j with env := env } m err
  counted := recordDrop_counted p { j with env := env } m err

theorem handled_kept (p : TraciumProcessor σ F) {scope : AuthScope}
    (verified : scope.authenticated = true) (resource : Attributes F) (j : Journal σ F)
    (s : OtlpSpan F) {env : σ} {m : Span F}
    (applied : applyChain p.chain j.env (ingestModel rt scope resource s) = (env, m, none)) :
    Handled rt p scope resource j s (.kept (keptSpan rt p.captureContent s m))
      { j with env := env } where
  kept_iff := ⟨fun _ => ⟨verified, env, m, applyChain_accepts applied⟩, fun _ => rfl⟩
  keptAs := by
    rintro out ⟨⟩
    exact ⟨env, m, applyChain_accepts applied, rfl⟩
  droppedAs := by simp
  puts := (List.append_nil _).symm
  counted := by simp [Fate.records]

theorem processSpan_handled (p : TraciumProcessor σ F) (scope : AuthScope)
    (resource : Attributes F) (j : Journal σ F) (s : OtlpSpan F) :
    ∃ fate, Handled rt p scope resource j s fate (processSpan rt p scope resource j s).1 ∧
      fate.kept? = (processSpan rt p scope resource j s).2 := by
  cases verified : scope.authenticated with
  | false =>
    refine ⟨.dropped ⟨dropCode unauthenticatedError, unauthenticatedError.text,
      ingestModel rt scope resource s⟩, ?_, ?_⟩
    · simpa [processSpan, verified] using handled_unauthenticated rt p verified resource j s
    · simp [processSpan, verified, Fate.kept?]
  | true =>
    rcases applied : applyChain p.chain j.env (ingestModel rt scope resource s) with
      ⟨env, m, _ | err⟩
    · refine ⟨.kept (keptSpan rt p.captureContent s m), ?_, ?_⟩
      · simpa [processSpan, verified, applied] using handled_kept rt p verified resource j s applied
      · simp [processSpan, verified, applied, Fate.kept?]
    · refine ⟨.dropped ⟨dropCode err, err.text, m⟩, ?_, ?_⟩
      · simpa [processSpan, verified, applied] using
          handled_dropped rt p verified resource j s applied
      · simp [processSpan, verified, applied, Fate.kept?]

/-! Collaborators without a state: the processor as `Processor` has it. -/

/-- A processor whose resolvers are functions and whose Put succeeds. -/
def stateless (p : Processor.TraciumProcessor F) : TraciumProcessor Unit F where
  chain := defaultChain rt
    ⟨p.chain.pricing.map fun resolve env model usage => (env, resolve model usage),
      p.chain.user.map fun resolve env user => (env, resolve user), p.chain.allowedModels⟩
  deadLetter := fun env _ => (env, none)
  captureContent := p.captureContent
  counter := p.counter

def DropEffect.code? : DropEffect F → Option Str
  | .counted code => some code
  | .put _ => none

def DropEffect.record? : DropEffect F → Option (Record F)
  | .counted _ => none
  | .put record => some record

/-- The journal after a list of drop effects. -/
def Journal.act (j : Journal Unit F) (effects : List (DropEffect F)) : Journal Unit F :=
  { j with
    counted := j.counted ++ effects.filterMap DropEffect.code?
    puts := j.puts ++ effects.filterMap DropEffect.record? }

theorem Journal.act_nil (j : Journal Unit F) : j.act [] = j := by simp [Journal.act]

theorem Journal.act_append (j : Journal Unit F) (effects more : List (DropEffect F)) :
    j.act (effects ++ more) = (j.act effects).act more := by
  simp [Journal.act, List.filterMap_append, List.append_assoc]

theorem applyChain_local (chain : List (Tracium.Enricher F)) (env : Unit) (span : Span F) :
    applyChain (chain.map local_) env span = (env, Tracium.applyChain chain span) := by
  induction chain generalizing span with
  | nil => rfl
  | cons e rest ih =>
    rcases applied : e span with ⟨span', _ | err⟩
    · simp [applyChain, Tracium.applyChain, local_, applied, ih]
    · simp [applyChain, Tracium.applyChain, local_, applied]

theorem stateless_chain (p : Processor.TraciumProcessor F) :
    (stateless rt p).chain = (Tracium.defaultChain rt p.chain).map local_ := by
  obtain ⟨⟨pricing, user, allowed⟩, content, counter⟩ := p
  have users : (userEnricher (user.map fun resolve (env : Unit) u => (env, resolve u)) :
      Enricher Unit F) = local_ (Tracium.userEnricher user) := by
    funext env span
    cases user with
    | none => rfl
    | some resolve =>
      simp only [userEnricher, Tracium.userEnricher, local_, Option.map_some]
      split
      · rfl
      · cases resolve (sanitizeIdentifier span.userID maxUserIDBytes) <;> rfl
  have prices : pricingEnricher rt
      (pricing.map fun resolve (env : Unit) model usage => (env, resolve model usage)) =
      local_ (Tracium.pricingEnricher rt pricing) := by
    funext env span
    cases pricing with
    | none => rfl
    | some resolve =>
      simp only [pricingEnricher, Tracium.pricingEnricher, local_, Option.map_some]
      split
      · rfl
      · cases resolve span.modelNormalized ⟨span.inputTokens, span.outputTokens,
          span.cacheReadTokens, span.cacheWriteTokens⟩ <;> rfl
  simp only [stateless, defaultChain, Tracium.defaultChain, List.map_cons, List.map_nil, users,
    prices]

theorem stateless_recordDrop (p : Processor.TraciumProcessor F) (j : Journal Unit F)
    (span : Span F) (cause : GoError) :
    recordDrop (stateless rt p) j span cause = j.act (Processor.recordDrop p span cause) := by
  obtain ⟨chain, captureContent, _ | _⟩ := p
  · simp [recordDrop, Processor.recordDrop, stateless, Journal.act, DropEffect.code?,
      DropEffect.record?]
  · rfl

theorem stateless_processSpan (p : Processor.TraciumProcessor F) (scope : AuthScope)
    (resource : Attributes F) (j : Journal Unit F) (s : OtlpSpan F) :
    processSpan rt (stateless rt p) scope resource j s =
      (j.act (Processor.processSpan rt p scope resource s).2,
        (Processor.processSpan rt p scope resource s).1) := by
  cases verified : scope.authenticated with
  | false => simp [processSpan, Processor.processSpan, verified, stateless_recordDrop]
  | true =>
    rcases applied : Tracium.applyChain (Tracium.defaultChain rt p.chain)
      (ingestModel rt scope resource s) with ⟨m, _ | err⟩
    · simp [processSpan, Processor.processSpan, verified, stateless_chain, applyChain_local, applied,
        Journal.act_nil]
      rfl
    · simp [processSpan, Processor.processSpan, verified, stateless_chain, applyChain_local, applied,
        stateless_recordDrop]

/-- Over such collaborators the two models agree, effect by effect. -/
theorem stateless_processTraces (p : Processor.TraciumProcessor F) (ctx : RequestContext)
    (j : Journal Unit F) (td : Traces F) :
    processTraces rt (stateless rt p) ctx j td =
      (j.act (Processor.processTraces rt p ctx td).2,
        .ok (Processor.processTraces rt p ctx td).1) := by
  have scopes (resource : Attributes F) (j : Journal Unit F) (spans : List (OtlpSpan F)) :
      removeIf (processSpan rt (stateless rt p) (ingestScope ctx) resource) j spans =
        (j.act (processSpans rt p (ingestScope ctx) resource spans).2,
          (processSpans rt p (ingestScope ctx) resource spans).1) := by
    rw [removeIf, loop_effects Journal.act_nil Journal.act_append
      (stateless_processSpan rt p (ingestScope ctx) resource)]
    simp [processSpans, List.filterMap_map]
  have resources (j : Journal Unit F) (rs : ResourceSpans F) :
      processResource rt (stateless rt p) (ingestScope ctx) j rs =
        (j.act (Processor.processResource rt p (ingestScope ctx) rs).2,
          (Processor.processResource rt p (ingestScope ctx) rs).1) := by
    rw [processResource, loop_effects Journal.act_nil Journal.act_append (scopes rs.resource)]
    rfl
  rw [processTraces, loop_effects Journal.act_nil Journal.act_append resources]
  rfl

/-! The batch. -/

/-- The fates of the spans of one resource, scope by scope. -/
structure ResourceFates (F : Type) where
  resource : Attributes F
  scopes : List (List (Fate F))

def ResourceFates.records (fates : ResourceFates F) : List (Record F) :=
  fates.scopes.flatMap (·.flatMap Fate.records)

/-- What is left of the resource. -/
def ResourceFates.kept (fates : ResourceFates F) : ResourceSpans F :=
  ⟨fates.resource, fates.scopes.map (·.filterMap Fate.kept?)⟩

/-- The spans of one resource, handled in order. -/
def HandledResource (p : TraciumProcessor σ F) (scope : AuthScope) (j : Journal σ F)
    (rs : ResourceSpans F) (fates : ResourceFates F) (j' : Journal σ F) : Prop :=
  fates.resource = rs.resource ∧
    Through (Through (Handled rt p scope rs.resource)) j rs.scopeSpans fates.scopes j'

def spanCount (td : Traces F) : Nat := (td.map fun rs => (rs.scopeSpans.map List.length).sum).sum

/-- A span without the attributes the processor writes. -/
def identity (s : OtlpSpan F) : OtlpSpan F := { s with attributes := [] }

/-- Resource by resource and scope by scope, `out` holds some of the spans of `td`, in
their order. -/
def Subsequence (td out : Traces F) : Prop :=
  List.Forall₂ (fun rs kept => kept.resource = rs.resource ∧
    List.Forall₂ (fun spans left => (left.map identity).Sublist (spans.map identity))
      rs.scopeSpans kept.scopeSpans) td out

theorem removeIf_handled (p : TraciumProcessor σ F) (scope : AuthScope) (resource : Attributes F)
    (j : Journal σ F) (spans : List (OtlpSpan F)) :
    ∃ fates, Through (Handled rt p scope resource) j spans fates
        (removeIf (processSpan rt p scope resource) j spans).1 ∧
      fates.filterMap Fate.kept? = (removeIf (processSpan rt p scope resource) j spans).2 := by
  obtain ⟨fates, through, shown⟩ :=
    loop_through Fate.kept? (processSpan_handled rt p scope resource) j spans
  refine ⟨fates, through, ?_⟩
  rw [removeIf, ← shown, List.filterMap_map]
  rfl

theorem processResource_handled (p : TraciumProcessor σ F) (scope : AuthScope) (j : Journal σ F)
    (rs : ResourceSpans F) :
    ∃ fates, HandledResource rt p scope j rs fates (processResource rt p scope j rs).1 ∧
      fates.kept = (processResource rt p scope j rs).2 := by
  obtain ⟨scopes, through, shown⟩ := loop_through (List.filterMap Fate.kept?)
    (removeIf_handled rt p scope rs.resource) j rs.scopeSpans
  refine ⟨⟨rs.resource, scopes⟩, ⟨rfl, through⟩, ?_⟩
  rw [ResourceFates.kept, processResource, ← shown]

theorem Handled.kept_identity {p : TraciumProcessor σ F} {scope : AuthScope}
    {resource : Attributes F} {j j' : Journal σ F} {s : OtlpSpan F} {fate : Fate F}
    {out : OtlpSpan F} (handled : Handled rt p scope resource j s fate j')
    (kept : fate.kept? = some out) : identity out = identity s := by
  cases fate with
  | dropped record => cases kept
  | kept span =>
    obtain rfl : span = out := Option.some.inj kept
    obtain ⟨env, m, -, rfl⟩ := handled.keptAs span rfl
    rfl

theorem fate_balance (fates : List (Fate F)) :
    (fates.filterMap Fate.kept?).length + (fates.flatMap Fate.records).length = fates.length := by
  induction fates with
  | nil => rfl
  | cons fate rest ih =>
    cases fate with
    | kept span =>
      simp only [List.filterMap_cons, Fate.kept?, List.flatMap_cons, Fate.records, List.nil_append,
        List.length_cons]
      omega
    | dropped record =>
      simp only [List.filterMap_cons, Fate.kept?, List.flatMap_cons, Fate.records,
        List.length_append, List.length_cons, List.length_nil]
      omega

theorem resource_balance (fates : ResourceFates F) :
    (fates.kept.scopeSpans.map List.length).sum + fates.records.length =
      (fates.scopes.map List.length).sum := by
  obtain ⟨resource, scopes⟩ := fates
  simp only [ResourceFates.kept, ResourceFates.records, List.map_map]
  induction scopes with
  | nil => rfl
  | cons scope rest ih =>
    have here := fate_balance scope
    simp only [List.map_cons, List.sum_cons, List.flatMap_cons, List.length_append,
      Function.comp_apply] at ih ⊢
    omega

theorem batch_balance (fates : List (ResourceFates F)) :
    spanCount (fates.map ResourceFates.kept) + (fates.flatMap ResourceFates.records).length =
      (fates.map fun fs => (fs.scopes.map List.length).sum).sum := by
  induction fates with
  | nil => rfl
  | cons fs rest ih =>
    have here := resource_balance fs
    simp only [spanCount, List.map_cons, List.sum_cons, List.flatMap_cons,
      List.length_append] at ih ⊢
    omega

theorem HandledResource.length_eq {p : TraciumProcessor σ F} {scope : AuthScope}
    {j j' : Journal σ F} {rs : ResourceSpans F} {fates : ResourceFates F}
    (handled : HandledResource rt p scope j rs fates j') :
    (fates.scopes.map List.length).sum = (rs.scopeSpans.map List.length).sum :=
  handled.2.sum_eq List.length List.length fun _ _ _ _ through => through.length_eq

theorem HandledResource.puts_eq {p : TraciumProcessor σ F} {scope : AuthScope}
    {j j' : Journal σ F} {rs : ResourceSpans F} {fates : ResourceFates F}
    (handled : HandledResource rt p scope j rs fates j') : j'.puts = j.puts ++ fates.records :=
  handled.2.log_eq Journal.puts (List.flatMap Fate.records) fun _ _ _ _ through =>
    through.log_eq Journal.puts Fate.records fun _ _ _ _ span => span.puts

theorem HandledResource.counted_eq {p : TraciumProcessor σ F} {scope : AuthScope}
    {j j' : Journal σ F} {rs : ResourceSpans F} {fates : ResourceFates F}
    (handled : HandledResource rt p scope j rs fates j') :
    j'.counted = j.counted ++ if p.counter then fates.records.map Record.code else [] := by
  have counted := handled.2.log_eq Journal.counted
    (List.flatMap fun fate => if p.counter then fate.records.map Record.code else [])
    fun _ _ _ _ through => through.log_eq Journal.counted _ fun _ _ _ _ span => span.counted
  rw [counted]
  cases p.counter with
  | false => simp
  | true => simp [ResourceFates.records, List.map_flatMap]

theorem HandledResource.subsequence {p : TraciumProcessor σ F} {scope : AuthScope}
    {j j' : Journal σ F} {rs : ResourceSpans F} {fates : ResourceFates F}
    (handled : HandledResource rt p scope j rs fates j') :
    fates.kept.resource = rs.resource ∧
      List.Forall₂ (fun spans left => (left.map identity).Sublist (spans.map identity))
        rs.scopeSpans fates.kept.scopeSpans := by
  refine ⟨handled.1, List.forall₂_map_right_iff.mpr ?_⟩
  apply handled.2.forall₂
  intro _ spans scopes _ through
  apply through.kept_sublist
  intro _ s fate _ out span kept
  exact span.kept_identity rt kept

/-- processTraces returns no error whatever its resolvers and its dead-letter store
answer. Every span has one fate: it is kept, in its place, exactly when the request is
authenticated and every enricher accepts it; otherwise it is counted once (where there
is a counter) and Put once under the code of the error. -/
theorem processTraces_records_every_span (p : TraciumProcessor σ F) (ctx : RequestContext)
    (j : Journal σ F) (td : Traces F) :
    ∃ out j' fates, processTraces rt p ctx j td = (j', .ok out) ∧
      Through (HandledResource rt p (ingestScope ctx)) j td fates j' ∧
      out = fates.map ResourceFates.kept ∧ Subsequence td out ∧
      j'.puts = j.puts ++ fates.flatMap ResourceFates.records ∧
      j'.counted = j.counted ++
        (if p.counter then (fates.flatMap ResourceFates.records).map Record.code else []) ∧
      spanCount out + (fates.flatMap ResourceFates.records).length = spanCount td := by
  obtain ⟨fates, through, shown⟩ := loop_through ResourceFates.kept
    (processResource_handled rt p (ingestScope ctx)) j td
  refine ⟨_, _, fates, rfl, through, shown.symm, ?_, ?_, ?_, ?_⟩
  · rw [← shown]
    apply List.forall₂_map_right_iff.mpr
    apply through.forall₂
    exact fun _ _ _ _ handled => handled.subsequence rt
  · exact through.log_eq Journal.puts ResourceFates.records fun _ _ _ _ handled =>
      handled.puts_eq rt
  · have counted := through.log_eq Journal.counted
      (fun fs => if p.counter then fs.records.map Record.code else [])
      fun _ _ _ _ handled => handled.counted_eq rt
    rw [counted]
    cases p.counter with
    | false => simp
    | true => simp [List.map_flatMap]
  · rw [← shown, batch_balance]
    exact through.sum_eq _ _ fun _ _ _ _ handled => handled.length_eq rt

end Tracium.Drops
