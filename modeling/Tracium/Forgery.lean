import Tracium.Pipeline

/-! What a sender gains by writing into the tracium namespace. Cost, workspace and the
metered counts are out of reach; the unmetered flag is not, since the processor stamps it
only when it is set and the exporter reads it back unconditionally. -/
namespace Tracium

open Go OrderedMap Processor

variable {F : Type} {rt : Platform F}

/-- The namespace, less the one key a sender is meant to set. -/
def forgeable (k : Str) : Bool := isTraciumKey k && k != attrUserID

theorem forgeable_visible (visible : isTraciumKey k = false) : forgeable k = false := by
  simp [forgeable, visible]

/-- The columns the collector computes. -/
structure SameMetering (row row' : Span F) : Prop where
  costUSD : row.costUSD = row'.costUSD
  modelNormalized : row.modelNormalized = row'.modelNormalized
  schemaVersion : row.schemaVersion = row'.schemaVersion
  workspaceID : row.workspaceID = row'.workspaceID
  inputTokens : row.inputTokens = row'.inputTokens
  outputTokens : row.outputTokens = row'.outputTokens
  outputTokensDerived : row.outputTokensDerived = row'.outputTokensDerived
  unmetered : row.unmetered = row'.unmetered
  kind : row.kind = row'.kind
  workflowName : row.workflowName = row'.workflowName
  attributes : row.attributes = row'.attributes

section Senders

variable {s : OtlpSpan F} {attrs : Attributes F} (agree : AgreeOff forgeable s.attributes attrs)

include agree

/-- The chain is applied to the same span model. -/
theorem ingestModel_forged (scope : AuthScope) (resource : Attributes F) :
    ingestModel rt scope resource { s with attributes := attrs } =
      ingestModel rt scope resource s := by
  have snapshots : ∀ k, forgeable k = false → attrMap rt s.attributes k = attrMap rt attrs k :=
    fun k visible => agree.snapshot _ visible
  have reads : ∀ k, forgeable k = false →
      GenAI.index (attrMap rt s.attributes) k = GenAI.index (attrMap rt attrs) k :=
    fun k visible => by rw [GenAI.index, GenAI.index, snapshots k visible]
  have usage : GenAI.usage rt (attrMap rt s.attributes) = GenAI.usage rt (attrMap rt attrs) :=
    GenAI.usage_congr fun k visible => snapshots k (forgeable_visible visible)
  have finish : finishReason rt s.attributes = finishReason rt attrs := by
    rw [finishReason, finishReason, agree.get (by decide)]
  simp only [ingestModel, toSpanModel]
  rw [reads attrModelRequest (by decide), reads attrModelResponse (by decide),
    reads attrUserID (by decide), usage, finish]

theorem chainResult_forged (p : TraciumProcessor F) (ctx : RequestContext) (resource : Attributes F) :
    chainResult rt p ctx resource { s with attributes := attrs } = chainResult rt p ctx resource s := by
  rw [chainResult, ingestModel_forged agree]
  rfl

theorem processSpan_forged_kept (p : TraciumProcessor F) (ctx : RequestContext)
    (resource : Attributes F) : (processSpan rt p (ingestScope ctx) resource s).1.isSome =
      (processSpan rt p (ingestScope ctx) resource { s with attributes := attrs }).1.isSome := by
  apply Bool.eq_iff_iff.mpr
  simp only [Option.isSome_iff_exists, processSpan_kept_iff, chainResult_forged agree,
    exists_and_left, exists_eq, and_true]

theorem enrichedSpan_forged (p : TraciumProcessor F) (m : Span F) :
    AgreeOff isTraciumKey (enrichedSpan rt p s m).attributes
      (enrichedSpan rt p { s with attributes := attrs } m).attributes := by
  have senders : AgreeOff isTraciumKey s.attributes attrs := agree.mono fun k hidden => by
    simp only [forgeable, Bool.and_eq_true] at hidden
    exact hidden.1
  exact (enrichedSpan_agree_tracium p s m).trans <| senders.removeIf_subset.trans
    (enrichedSpan_agree_tracium p { s with attributes := attrs } m).symm

/-- Every computed column but the unmetered flag is out of the sender's reach. -/
theorem row_forged_iff (p : TraciumProcessor F) (m : Span F) (serviceName : Str)
    (resource : Attributes F) (stamped : m.workspaceID ≠ []) :
    SameMetering (Exporter.fromOTLP rt (enrichedSpan rt p s m) serviceName resource)
      (Exporter.fromOTLP rt (enrichedSpan rt p { s with attributes := attrs } m) serviceName resource) ↔
    (Exporter.fromOTLP rt (enrichedSpan rt p s m) serviceName resource).unmetered =
      (Exporter.fromOTLP rt (enrichedSpan rt p { s with attributes := attrs } m) serviceName
        resource).unmetered := by
  have frame := fromOTLP_congr rt (enrichedSpan rt p s m) serviceName resource
    (enrichedSpan rt p { s with attributes := attrs } m) resource rfl (enrichedSpan_forged agree p m)
    (AgreeOff.refl _ _)
  constructor
  · exact SameMetering.unmetered
  · intro unmetered
    refine ⟨?_, ?_, ?_, ?_, ?_, ?_, ?_, unmetered, ?_, ?_, ?_⟩
    · rw [row_costUSD, row_costUSD]
    · rw [row_modelNormalized, row_modelNormalized]
    · rw [row_schemaVersion, row_schemaVersion]
    · rw [row_workspaceID _ _ _ _ _ stamped, row_workspaceID _ _ _ _ _ stamped]
    · rw [frame]
      rfl
    · rw [frame]
      rfl
    · rw [frame]
      rfl
    · rw [frame]
      rfl
    · rw [frame]
      rfl
    · rw [frame]
      rfl

end Senders

theorem metering_unforgeable_iff {s : OtlpSpan F} {attrs : Attributes F} (p : TraciumProcessor F)
    (ctx : RequestContext) (resource : Attributes F)
    (agree : AgreeOff forgeable s.attributes attrs) :
    (processSpan rt p (ingestScope ctx) resource s).1.isSome =
      (processSpan rt p (ingestScope ctx) resource { s with attributes := attrs }).1.isSome ∧
    ∀ row row', storedRow rt p ctx resource s = some row →
      storedRow rt p ctx resource { s with attributes := attrs } = some row' →
      (SameMetering row row' ↔ (GenAI.usage rt (attrMap rt s.attributes)).unmetered = true ∨
        boolAttr s.attributes attrUnmetered = boolAttr attrs attrUnmetered) := by
  refine ⟨processSpan_forged_kept agree p ctx resource, ?_⟩
  intro row row' stored stored'
  obtain ⟨authenticated, _, rfl⟩ := storedRow_eq_some_iff.mp stored
  obtain ⟨_, _, rfl⟩ := storedRow_eq_some_iff.mp stored'
  have verified := ingestScope_workspace ctx authenticated
  have inferred := chainResult_unmetered rt p ctx resource s
  have inferred' := chainResult_unmetered rt p ctx resource { s with attributes := attrs }
  rw [← chainResult_workspaceID rt p ctx resource s] at verified
  rw [chainResult_forged agree] at inferred' ⊢
  rw [row_forged_iff agree p _ _ _ verified, row_unmetered _ _ _ _ _ inferred,
    row_unmetered _ _ _ _ _ inferred', ← inferred]
  cases (chainResult rt p ctx resource s).1.unmetered <;> simp

/-- A metered call whose sender sets the collector's flag. -/
def metered : Attributes Int := [(GenAI.attrInputTokens, .int 7)]

def flagged : Attributes Int := (attrUnmetered, .bool true) :: metered

theorem flagged_agree : AgreeOff forgeable (plainSpan metered).attributes flagged :=
  (List.filter_cons_of_neg (by decide)).symm

theorem metered_kept : (storedRow plainPlatform (plainProcessor true)
    (verifiedContext (lit "mine")) [] (plainSpan metered)).isSome = true := by
  decide +kernel

theorem flagged_kept : (storedRow plainPlatform (plainProcessor true)
    (verifiedContext (lit "mine")) [] (plainSpan flagged)).isSome = true := by
  decide +kernel

theorem metering_unforgeable_iff_flagged :
    ¬ SameMetering
      ((storedRow plainPlatform (plainProcessor true) (verifiedContext (lit "mine")) []
        (plainSpan metered)).get metered_kept)
      ((storedRow plainPlatform (plainProcessor true) (verifiedContext (lit "mine")) []
        (plainSpan flagged)).get flagged_kept) :=
  fun same => absurd (((metering_unforgeable_iff (plainProcessor true) (verifiedContext (lit "mine"))
    [] flagged_agree).2 _ _ (Option.some_get metered_kept).symm
      (Option.some_get flagged_kept).symm).mp same) (by decide +kernel)

theorem unmetered_forged :
    (DistinctKeys metered ∧ DistinctKeys flagged) ∧
    AgreeOff forgeable (plainSpan metered).attributes (plainSpan flagged).attributes ∧
    (storedRow plainPlatform (plainProcessor true) (verifiedContext (lit "mine")) []
      (plainSpan metered)).map Span.unmetered = some false ∧
    (storedRow plainPlatform (plainProcessor true) (verifiedContext (lit "mine")) []
      (plainSpan flagged)).map Span.unmetered = some true :=
  ⟨by decide +kernel, flagged_agree, by decide +kernel, by decide +kernel⟩

end Tracium
