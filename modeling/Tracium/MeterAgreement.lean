import Tracium.Pipeline

/-! Processor and exporter meter the same call: the row the exporter reads off the
enriched span carries the counts the chain validated and the results it computed. -/
namespace Tracium

open Go OrderedMap Processor

variable {F : Type} {rt : Platform F} {p : TraciumProcessor F} {ctx : RequestContext}
  {resource : Attributes F} {s : OtlpSpan F} {row : Span F}

/-- What the exporter reads of the model is what the processor read: one takes the first
entry of a key, the other the last. -/
theorem model_enriched (distinct : DistinctKeys s.attributes) (m : Span F) (serviceName : Str) :
    (Exporter.fromOTLP rt (enrichedSpan rt p s m) serviceName resource).model =
      (ingestModel rt (ingestScope ctx) resource s).model := by
  have reads : ∀ k, touched p k = false → GenAI.index (attrMap rt s.attributes) k =
      strAttr rt (enrichedSpan rt p s m).attributes k := fun k untouched => by
    rw [GenAI.index, attrMap_eq_strAttr rt s.attributes distinct, strAttr_enriched p s m untouched]
  have untouched : ∀ k ∈ [Exporter.attrModelRequest, Exporter.attrModelResponse],
      touched p k = false := fun k member => by
    obtain ⟨tracium, content⟩ := GenAI.streamKeys_visible k (List.mem_of_mem_drop (i := 2) member)
    simp [touched, tracium, content]
  have request := reads _ (untouched Exporter.attrModelRequest (by simp))
  have response := reads _ (untouched Exporter.attrModelResponse (by simp))
  simp only [Exporter.fromOTLP, ← request, ← response]
  rfl

theorem finishReason_enriched (m : Span F) (serviceName : Str) :
    (Exporter.fromOTLP rt (enrichedSpan rt p s m) serviceName resource).finishReason =
      (ingestModel rt (ingestScope ctx) resource s).finishReason := by
  have untouched : touched p attrFinishReason = false := by
    cases capture : p.captureContent <;> simp only [touched, capture] <;> decide
  change finishReason rt (enrichedSpan rt p s m).attributes = finishReason rt s.attributes
  rw [finishReason, finishReason, get_enriched p s m untouched]

theorem counts_enriched (p : TraciumProcessor F) (ctx : RequestContext) (resource : Attributes F)
    (s : OtlpSpan F) (m : Span F) (serviceName : Str) :
    (Exporter.fromOTLP rt (enrichedSpan rt p s m) serviceName resource).inputTokens =
        (ingestModel rt (ingestScope ctx) resource s).inputTokens ∧
      (Exporter.fromOTLP rt (enrichedSpan rt p s m) serviceName resource).outputTokens =
        (ingestModel rt (ingestScope ctx) resource s).outputTokens ∧
      (Exporter.fromOTLP rt (enrichedSpan rt p s m) serviceName resource).outputTokensDerived =
        (GenAI.usage rt (attrMap rt s.attributes)).outputTokensDerived := by
  have same : GenAI.reconciled rt (attrMap rt (enrichedSpan rt p s m).attributes) =
      GenAI.reconciled rt (attrMap rt s.attributes) := reconciled_enriched p s m
  have input := congrArg GenAI.TokenUsage.inputTokens same
  have output := congrArg GenAI.TokenUsage.outputTokens same
  have derived := congrArg GenAI.TokenUsage.outputTokensDerived same
  exact ⟨input, output, derived⟩

theorem row_meters_validated (distinct : DistinctKeys s.attributes)
    (stored : storedRow rt p ctx resource s = some row) :
    (row.inputTokens = (ingestModel rt (ingestScope ctx) resource s).inputTokens ∧
      row.outputTokens = (ingestModel rt (ingestScope ctx) resource s).outputTokens ∧
      row.model = (ingestModel rt (ingestScope ctx) resource s).model ∧
      row.finishReason = (ingestModel rt (ingestScope ctx) resource s).finishReason ∧
      row.startTimeMs = (ingestModel rt (ingestScope ctx) resource s).startTimeMs ∧
      row.endTimeMs = (ingestModel rt (ingestScope ctx) resource s).endTimeMs ∧
      row.durationMs = (ingestModel rt (ingestScope ctx) resource s).durationMs) ∧
    row.outputTokensDerived = (GenAI.usage rt (attrMap rt s.attributes)).outputTokensDerived ∧
    (row.costUSD = (chainResult rt p ctx resource s).1.costUSD ∧
      row.modelNormalized = (chainResult rt p ctx resource s).1.modelNormalized ∧
      row.schemaVersion = (chainResult rt p ctx resource s).1.schemaVersion) ∧
    ((chainResult rt p ctx resource s).1.unmetered = true → row.unmetered = true) := by
  obtain ⟨_, accepted, rfl⟩ := storedRow_eq_some_iff.mp stored
  obtain ⟨input, output, derived⟩ := counts_enriched p ctx resource s
    (chainResult rt p ctx resource s).1 (strAttr rt resource Exporter.attrServiceName)
  refine ⟨⟨input, output, model_enriched distinct _ _, finishReason_enriched _ _, rfl, rfl, rfl⟩,
    derived, ⟨row_costUSD _ _ _ _ _, row_modelNormalized _ _ _ _ _, ?_⟩, ?_⟩
  · have version : (chainResult rt p ctx resource s).1.schemaVersion = 1 :=
      defaultChain_schemaVersion p.chain _ accepted
    rw [row_schemaVersion, version]
    decide
  · intro inferred
    rw [row_unmetered p s _ _ _ (chainResult_unmetered rt p ctx resource s), inferred]
    rfl

/-- A streamed call without usage: its completion is stripped, the flag inferred from it
is not. -/
def streamed : Attributes Int :=
  [(GenAI.attrModelRequest, .str (lit "gpt-4o")), (GenAI.attrGenAIStreaming, .bool true),
    (lit "gen_ai.completion.0.content", .str (lit "hi"))]

theorem streamed_kept : (storedRow plainPlatform (plainProcessor false)
    (verifiedContext (lit "mine")) [] (plainSpan streamed)).isSome = true := by
  decide +kernel

theorem row_meters_validated_streamed :
    ((storedRow plainPlatform (plainProcessor false) (verifiedContext (lit "mine")) []
      (plainSpan streamed)).get streamed_kept).unmetered = true ∧
    ((storedRow plainPlatform (plainProcessor false) (verifiedContext (lit "mine")) []
      (plainSpan streamed)).get streamed_kept).model = lit "gpt-4o" :=
  have meters := row_meters_validated (by decide +kernel) (Option.some_get streamed_kept).symm
  ⟨meters.2.2.2 (by decide +kernel), meters.1.2.2.1.trans (by decide +kernel)⟩

end Tracium
