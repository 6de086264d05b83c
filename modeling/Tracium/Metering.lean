import Tracium.GenAI

/-! Which attributes the genai readers look at. Counts come from fixed keys that are
neither content nor in the tracium namespace; content comes from content keys only;
the offered tools come from keys that are not content. -/
namespace Tracium

open Go

/-- The namespace the collector writes its own results under. -/
def isTraciumKey (k : Str) : Bool := hasPrefix k (lit "tracium.")

namespace GenAI

variable {F : Type} {rt : Platform F}

/-- The keys token counts and costs are read from. -/
def meterKeys : List Str :=
  [attrInputTokens, attrPromptTokens, attrLLMPromptTokens, attrOutputTokens, attrCompletionTokens,
    attrLLMCompletionTokens, attrCacheReadDotted, attrCacheReadUnderscore, attrCacheCreationDotted,
    attrCacheCreationUnderscore, attrTotalTokens, attrLLMTotalTokens, attrCostGenAI, attrCostLLM]

/-- The further fixed keys that decide whether a call is unmetered. -/
def streamKeys : List Str :=
  [attrGenAIStreaming, attrLLMStreaming, attrModelRequest, attrModelResponse]

theorem meterKeys_visible : ∀ k ∈ meterKeys, isTraciumKey k = false ∧ isContentKey k = false := by
  decide +kernel

theorem streamKeys_visible : ∀ k ∈ streamKeys, isTraciumKey k = false ∧ isContentKey k = false := by
  decide +kernel

theorem isContentKey_prompt (rest : Str) : isContentKey (prefixPrompt ++ rest) = true := by
  simp [isContentKey]

theorem isContentKey_completion (rest : Str) : isContentKey (prefixCompletion ++ rest) = true := by
  simp [isContentKey]

theorem isContentKey_functions (rest : Str) : isContentKey (prefixFunctions ++ rest) = false := rfl

/-- No content key lies in the tracium namespace. -/
theorem isTraciumKey_of_content (content : isContentKey k = true) : isTraciumKey k = false := by
  simp only [isContentKey, Bool.or_eq_true, beq_iff_eq] at content
  rcases content with (((((rfl | rfl) | rfl) | rfl) | rfl) | prompt) | completion
  · decide +kernel
  · decide +kernel
  · decide +kernel
  · decide +kernel
  · decide +kernel
  · obtain ⟨rest, rfl⟩ := hasPrefix_iff.mp prompt
    rfl
  · obtain ⟨rest, rfl⟩ := hasPrefix_iff.mp completion
    rfl

/-! Counts. -/

theorem firstInt_congr {a b : StringMap} (keys : List Str) (agree : ∀ k ∈ keys, a k = b k) :
    firstInt rt a keys = firstInt rt b keys := by
  induction keys with
  | nil => rfl
  | cons k keys ih =>
    have head : index a k = index b k := by rw [index, index, agree k (List.mem_cons_self ..)]
    simp only [firstInt, head, ih fun k member => agree k (List.mem_cons_of_mem _ member)]

theorem firstFloat_congr {a b : StringMap} (keys : List Str) (agree : ∀ k ∈ keys, a k = b k) :
    firstFloat rt a keys = firstFloat rt b keys := by
  induction keys with
  | nil => rfl
  | cons k keys ih =>
    have head : index a k = index b k := by rw [index, index, agree k (List.mem_cons_self ..)]
    simp only [firstFloat, head, ih fun k member => agree k (List.mem_cons_of_mem _ member)]

/-- The counts after reconciliation, which is all of usage but the unmetered flag. -/
def reconciled (rt : Platform F) (attrs : StringMap) : TokenUsage F :=
  (reported rt attrs).reconcileOutput rt attrs

theorem usage_eq (attrs : StringMap) : usage rt attrs =
    { reconciled rt attrs with unmetered := unmetered rt attrs (reconciled rt attrs) } := rfl

theorem reconciled_congr {a b : StringMap} (agree : ∀ k ∈ meterKeys, a k = b k) :
    reconciled rt a = reconciled rt b := by
  have ints : ∀ keys, keys ⊆ meterKeys → firstInt rt a keys = firstInt rt b keys :=
    fun keys within => firstInt_congr keys fun k member => agree k (within member)
  have floats : ∀ keys, keys ⊆ meterKeys → firstFloat rt a keys = firstFloat rt b keys :=
    fun keys within => firstFloat_congr keys fun k member => agree k (within member)
  have counts : reported rt a = reported rt b := by
    simp only [reported]
    rw [ints _ (by simp [meterKeys]), ints _ (by simp [meterKeys]), ints _ (by simp [meterKeys]),
      ints _ (by simp [meterKeys]), floats _ (by simp [meterKeys])]
  have total := ints [attrTotalTokens, attrLLMTotalTokens] (by simp [meterKeys])
  simp only [reconciled, TokenUsage.reconcileOutput, counts, total]

/-! Content. -/

theorem renderIndexedFrom_congr {a b : StringMap} {pre : Str}
    (agree : ∀ rest, a (pre ++ rest) = b (pre ++ rest)) (fuel i : Nat) :
    renderIndexedFrom a pre fuel i = renderIndexedFrom b pre fuel i := by
  induction fuel generalizing i with
  | zero => rfl
  | succ fuel ih => simp only [renderIndexedFrom, List.append_assoc, agree, ih]

theorem renderIndexed_absent {a : StringMap} {pre : Str} (absent : ∀ rest, a (pre ++ rest) = none) :
    renderIndexed a pre = [] := by
  simp [renderIndexed, renderIndexedFrom, maxIndex, absent]

/-- The completion text is a function of the content attributes. -/
theorem outputText_congr {a b : StringMap} (agree : ∀ k, isContentKey k = true → a k = b k) :
    outputText rt a = outputText rt b := by
  have messages : index a attrOutputMessages = index b attrOutputMessages := by
    rw [index, index, agree _ (by decide)]
  have entity : index a attrEntityOutput = index b attrEntityOutput := by
    rw [index, index, agree _ (by decide)]
  have indexed : renderIndexed a prefixCompletion = renderIndexed b prefixCompletion :=
    renderIndexedFrom_congr (fun rest => agree _ (isContentKey_completion rest)) _ _
  simp only [outputText, messages, entity, indexed]

theorem content_congr {a b : StringMap} (agree : ∀ k, isContentKey k = true → a k = b k) :
    content rt a = content rt b := by
  have system : index a attrSystemInstructions = index b attrSystemInstructions := by
    rw [index, index, agree _ (by decide)]
  have messages : index a attrInputMessages = index b attrInputMessages := by
    rw [index, index, agree _ (by decide)]
  have entity : index a attrEntityInput = index b attrEntityInput := by
    rw [index, index, agree _ (by decide)]
  have indexed : renderIndexed a prefixPrompt = renderIndexed b prefixPrompt :=
    renderIndexedFrom_congr (fun rest => agree _ (isContentKey_prompt rest)) _ _
  simp only [content, outputText_congr agree, inputText, system, messages, entity, indexed]

theorem content_absent {a : StringMap} (absent : ∀ k, isContentKey k = true → a k = none) :
    content rt a = ([], []) := by
  have prompts := renderIndexed_absent fun rest => absent _ (isContentKey_prompt rest)
  have completions := renderIndexed_absent fun rest => absent _ (isContentKey_completion rest)
  have system : index a attrSystemInstructions = [] := by rw [index, absent _ (by decide)]; rfl
  have inputs : index a attrInputMessages = [] := by rw [index, absent _ (by decide)]; rfl
  have outputs : index a attrOutputMessages = [] := by rw [index, absent _ (by decide)]; rfl
  have entityInput : index a attrEntityInput = [] := by rw [index, absent _ (by decide)]; rfl
  have entityOutput : index a attrEntityOutput = [] := by rw [index, absent _ (by decide)]; rfl
  simp [content, inputText, outputText, prompts, completions, system, inputs, outputs, entityInput,
    entityOutput, trimRightByte]

/-! The unmetered flag. -/

theorem unmetered_absent {a : StringMap} (absent : ∀ k, isContentKey k = true → a k = none)
    (u : TokenUsage F) : unmetered rt a u = false := by
  have none : content rt a = ([], []) := content_absent absent
  have silent : outputText rt a = [] := congrArg Prod.snd none
  simp [unmetered, silent]

/-- Usage never looks into the tracium namespace. -/
theorem usage_congr {a b : StringMap} (agree : ∀ k, isTraciumKey k = false → a k = b k) :
    usage rt a = usage rt b := by
  have counts : reconciled rt a = reconciled rt b :=
    reconciled_congr fun k member => agree k (meterKeys_visible k member).1
  have stream : ∀ k ∈ streamKeys, index a k = index b k := fun k member => by
    rw [index, index, agree k (streamKeys_visible k member).1]
  have completion : outputText rt a = outputText rt b :=
    outputText_congr fun k content => agree k (isTraciumKey_of_content content)
  simp only [streamKeys, List.mem_cons, List.not_mem_nil, or_false, forall_eq_or_imp,
    forall_eq] at stream
  simp only [usage_eq, unmetered, counts, completion, stream]

/-! The offered tools. -/

theorem indexedToolDefinitionsFrom_congr {a b : StringMap}
    (agree : ∀ k, isContentKey k = false → a k = b k) (fuel i : Nat) :
    indexedToolDefinitionsFrom a fuel i = indexedToolDefinitionsFrom b fuel i := by
  have functions : ∀ rest, a (prefixFunctions ++ rest) = b (prefixFunctions ++ rest) :=
    fun rest => agree _ (isContentKey_functions rest)
  induction fuel generalizing i with
  | zero => rfl
  | succ fuel ih => simp only [indexedToolDefinitionsFrom, List.append_assoc, functions, ih]

/-- Which tools a span offers does not depend on its content. -/
theorem offeredTools_congr {a b : StringMap} (agree : ∀ k, isContentKey k = false → a k = b k) :
    offeredTools rt a = offeredTools rt b := by
  have definitions : index a attrToolDefinitions = index b attrToolDefinitions := by
    rw [index, index, agree _ (by decide)]
  simp only [offeredTools, definitions, indexedToolDefinitions,
    indexedToolDefinitionsFrom_congr agree]

end GenAI

end Tracium
