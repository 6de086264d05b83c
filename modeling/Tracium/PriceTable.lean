import Tracium.Pricing
import Tracium.Labels
import Tracium.Go.Ascii
import Mathlib.Data.List.Sort

/-! pricing.LoadStaticFile: the entries of the table on disk become price schedules keyed
by the lower-cased model id. The tiers of a schedule are sorted, and the models are
visited in whatever order the range over their map takes. -/
namespace Tracium.Pricing

open Go

/-- fileTier. -/
structure FileTier where
  aboveInputTokens : Int := 0
  inputPerToken : ℚ := 0
  outputPerToken : ℚ := 0
  cacheReadPerToken : ℚ := 0
  cacheCreationPerToken : ℚ := 0
  deriving DecidableEq

/-- fileEntry. -/
structure FileEntry where
  inputPerToken : ℚ := 0
  outputPerToken : ℚ := 0
  cacheReadPerToken : ℚ := 0
  cacheCreationPerToken : ℚ := 0
  tiers : List FileTier := []
  deriving DecidableEq

def FileTier.rates (t : FileTier) : Rates :=
  ⟨t.inputPerToken, t.outputPerToken, t.cacheReadPerToken, t.cacheCreationPerToken⟩

def FileTier.toTier (t : FileTier) : Tier := ⟨t.aboveInputTokens, t.rates⟩

def FileEntry.rates (e : FileEntry) : Rates :=
  ⟨e.inputPerToken, e.outputPerToken, e.cacheReadPerToken, e.cacheCreationPerToken⟩

/-- sort.Slice by ascending threshold. It is not stable: tiers of one threshold come out
in any order. -/
structure TierSort where
  sort : List Tier → List Tier
  perm : ∀ tiers, (sort tiers).Perm tiers
  ascending : ∀ tiers, (sort tiers).Pairwise fun a b => a.aboveInputTokens ≤ b.aboveInputTokens

def FileEntry.toModelPrice (s : TierSort) (e : FileEntry) : ModelPrice :=
  ⟨e.rates, s.sort (e.tiers.map FileTier.toTier)⟩

/-! Selecting a tier. -/

/-- The tier of a file entry whose threshold is the greatest strictly below the prompt. -/
structure GreatestBelow (tiers : List FileTier) (promptTokens : Int) (t : FileTier) : Prop where
  member : t ∈ tiers
  below : t.aboveInputTokens < promptTokens
  greatest : ∀ other ∈ tiers, other.aboveInputTokens < promptTokens →
    other.aboveInputTokens ≤ t.aboveInputTokens

theorem GreatestBelow.unique {tiers : List FileTier}
    (distinct : (tiers.map FileTier.aboveInputTokens).Nodup) {promptTokens : Int} {t other : FileTier}
    (first : GreatestBelow tiers promptTokens t) (second : GreatestBelow tiers promptTokens other) :
    other = t := by
  apply List.inj_on_of_nodup_map distinct second.member first.member
  apply le_antisymm
  · exact first.greatest other second.member second.below
  · exact second.greatest t first.member first.below

/-- The last element of an ascending list is its greatest. -/
theorem le_getLast {α : Type} {key : α → Int} {l : List α} {last : α}
    (ascending : l.Pairwise fun a b => key a ≤ key b) (final : l.getLast? = some last) :
    ∀ a ∈ l, key a ≤ key last := by
  obtain ⟨front, rfl⟩ := List.getLast?_eq_some_iff.mp final
  intro a member
  rcases List.mem_append.mp member with earlier | last
  · exact (List.pairwise_append.mp ascending).2.2 a earlier last List.mem_cons_self
  · rw [List.mem_singleton.mp last]

theorem toModelPrice_mem {s : TierSort} {e : FileEntry} {t : Tier} :
    t ∈ (e.toModelPrice s).tiers ↔ ∃ tier ∈ e.tiers, tier.toTier = t := by
  rw [FileEntry.toModelPrice, (s.perm _).mem_iff, List.mem_map]

/-- The loader's sort makes the last matching tier the one with the greatest threshold. -/
theorem toModelPrice_tierFor (s : TierSort) (e : FileEntry) (promptTokens : Int) :
    (∃ t, GreatestBelow e.tiers promptTokens t ∧
      (e.toModelPrice s).tierFor promptTokens = some t.toTier) ∨
    (∀ t ∈ e.tiers, promptTokens ≤ t.aboveInputTokens) ∧
      (e.toModelPrice s).tierFor promptTokens = none := by
  cases chosen : (e.toModelPrice s).tierFor promptTokens with
  | none =>
    right
    refine ⟨?_, rfl⟩
    intro t member
    have inside : t.toTier ∈ (e.toModelPrice s).tiers := toModelPrice_mem.mpr ⟨t, member, rfl⟩
    have noneBelow := List.filter_eq_nil_iff.mp (List.getLast?_eq_none_iff.mp chosen) t.toTier inside
    simp only [decide_eq_true_eq] at noneBelow
    exact not_lt.mp noneBelow
  | some chosenTier =>
    left
    have kept := List.mem_of_getLast? chosen
    obtain ⟨member, below⟩ := List.mem_filter.mp kept
    obtain ⟨t, inside, rfl⟩ := toModelPrice_mem.mp member
    refine ⟨t, ⟨inside, of_decide_eq_true below, ?_⟩, rfl⟩
    intro other otherInside otherBelow
    have ascending := (s.ascending (e.tiers.map FileTier.toTier)).filter
      fun t => t.aboveInputTokens < promptTokens
    apply le_getLast ascending chosen other.toTier
    rw [List.mem_filter]
    exact ⟨toModelPrice_mem.mpr ⟨other, otherInside, rfl⟩, decide_eq_true otherBelow⟩

/-- Every order of the file's tiers prices a prompt by the tier with the greatest
threshold below it, over the base rates, or by the base rates alone. -/
theorem toModelPrice_ratesFor (s : TierSort) (e : FileEntry)
    (distinct : (e.tiers.map FileTier.aboveInputTokens).Nodup) (promptTokens : Int) :
    (∃ t, GreatestBelow e.tiers promptTokens t ∧
      (∀ other, GreatestBelow e.tiers promptTokens other → other = t) ∧
      (e.toModelPrice s).ratesFor promptTokens = mergeRates e.rates t.rates) ∨
    (∀ t ∈ e.tiers, promptTokens ≤ t.aboveInputTokens) ∧
      (e.toModelPrice s).ratesFor promptTokens = e.rates := by
  rw [ModelPrice.ratesFor_eq]
  rcases toModelPrice_tierFor s e promptTokens with ⟨t, greatest, chosen⟩ | ⟨noneBelow, chosen⟩
  · left
    refine ⟨t, greatest, ?_, ?_⟩
    · intro other also
      exact greatest.unique distinct also
    · rw [chosen]
      rfl
  · right
    refine ⟨noneBelow, ?_⟩
    rw [chosen]
    rfl

/-- Neither the order of the file nor the way ties are broken shows in the rates. -/
theorem toModelPrice_order (s s' : TierSort) {e e' : FileEntry} (sameRates : e.rates = e'.rates)
    (sameTiers : e.tiers.Perm e'.tiers) (distinct : (e.tiers.map FileTier.aboveInputTokens).Nodup)
    (promptTokens : Int) :
    (e.toModelPrice s).ratesFor promptTokens = (e'.toModelPrice s').ratesFor promptTokens := by
  have distinct' : (e'.tiers.map FileTier.aboveInputTokens).Nodup :=
    (sameTiers.map FileTier.aboveInputTokens).nodup_iff.mp distinct
  rcases toModelPrice_ratesFor s e distinct promptTokens with
    ⟨t, greatest, unique, rates⟩ | ⟨noneBelow, rates⟩
  · rcases toModelPrice_ratesFor s' e' distinct' promptTokens with
      ⟨t', greatest', unique', rates'⟩ | ⟨noneBelow', rates'⟩
    · have also : GreatestBelow e'.tiers promptTokens t := by
        refine ⟨sameTiers.mem_iff.mp greatest.member, greatest.below, ?_⟩
        intro other member
        exact greatest.greatest other (sameTiers.mem_iff.mpr member)
      rw [rates, rates', unique' t also, sameRates]
    · have above := noneBelow' t (sameTiers.mem_iff.mp greatest.member)
      have below := greatest.below
      omega
  · rcases toModelPrice_ratesFor s' e' distinct' promptTokens with
      ⟨t', greatest', unique', rates'⟩ | ⟨noneBelow', rates'⟩
    · have above := noneBelow t' (sameTiers.mem_iff.mpr greatest'.member)
      have below := greatest'.below
      omega
    · rw [rates, rates', sameRates]

/-- An insertion sort by threshold. -/
def insertionByThreshold : TierSort where
  sort := List.insertionSort fun a b => a.aboveInputTokens ≤ b.aboveInputTokens
  perm := List.perm_insertionSort _
  ascending := by
    have total : Std.Total fun a b : Tier => a.aboveInputTokens ≤ b.aboveInputTokens :=
      ⟨fun a b => le_total a.aboveInputTokens b.aboveInputTokens⟩
    have trans : IsTrans Tier fun a b => a.aboveInputTokens ≤ b.aboveInputTokens :=
      ⟨fun _ _ _ first second => le_trans first second⟩
    exact List.pairwise_insertionSort _

/-- The table of the loader's test: its tiers stand in descending order. -/
def unsortedEntry : FileEntry where
  inputPerToken := 0.000001
  outputPerToken := 0.000002
  tiers := [{ aboveInputTokens := 400000, inputPerToken := 0.000004 },
    { aboveInputTokens := 200000, inputPerToken := 0.000002 }]

theorem unsortedEntry_highTier :
    (unsortedEntry.tiers.map FileTier.aboveInputTokens).Nodup ∧
      (unsortedEntry.toModelPrice insertionByThreshold).ratesFor 500000 =
        ⟨0.000004, 0.000002, 0, 0⟩ := by
  have distinct : (unsortedEntry.tiers.map FileTier.aboveInputTokens).Nodup := by decide
  refine ⟨distinct, ?_⟩
  rcases toModelPrice_ratesFor insertionByThreshold unsortedEntry distinct 500000 with
    ⟨t, greatest, _, rates⟩ | ⟨noneBelow, _⟩
  · have high := greatest.greatest _ List.mem_cons_self (by decide)
    have chosen : t = { aboveInputTokens := 400000, inputPerToken := 0.000004 } := by
      rcases List.mem_cons.mp greatest.member with rfl | second
      · rfl
      · rw [List.mem_singleton.mp second] at high
        exact absurd high (by decide)
    rw [rates, chosen]
    decide +kernel
  · exact absurd (noneBelow _ List.mem_cons_self) (by decide)

/-! Loading the models. -/

/-- fileTable. Its models are a Go map: one entry an id. -/
structure FileTable where
  version : Int
  models : List (Str × FileEntry)
  distinct : (models.map Prod.fst).Nodup

/-- os.ReadFile and json.Unmarshal; a failure is the text of its error. -/
structure PricingFiles where
  readFile : Str → Except Str Str
  unmarshal : Str → Except Str FileTable

/-- A range over a map visits every entry once, in any order. -/
structure MapRange where
  order : List (Str × FileEntry) → List (Str × FileEntry)
  perm : ∀ entries, (order entries).Perm entries

section Load

variable (rt : Platform ℚ) (s : TierSort)

/-- The loop of LoadStaticFile. -/
def loadModels (path : Str) : Prices → List (Str × FileEntry) → Except Str Prices
  | prices, [] => .ok prices
  | prices, (id, e) :: rest =>
    if id = [] then .error (lit "pricing: parse " ++ path ++ lit ": model entry with empty id")
    else
      loadModels path
        (Function.update prices (toLower rt.toLowerRune id) (some (e.toModelPrice s))) rest

def loadStaticFile (files : PricingFiles) (range : MapRange) (path : Str) : Except Str Prices :=
  match files.readFile path with
  | .error err => .error (lit "pricing: read " ++ path ++ lit ": " ++ err)
  | .ok data =>
    match files.unmarshal data with
    | .error err => .error (lit "pricing: parse " ++ path ++ lit ": " ++ err)
    | .ok table => loadModels rt s path (fun _ => none) (range.order table.models)

/-- The entries that share a lower-cased id. -/
def sharing (key : Str) (entries : List (Str × FileEntry)) : List (Str × FileEntry) :=
  entries.filter fun entry => toLower rt.toLowerRune entry.1 = key

/-- An accepted table: the last entry visited of those that share a key is the one kept. -/
theorem loadModels_ok {path : Str} {prices loaded : Prices} {entries : List (Str × FileEntry)} :
    loadModels rt s path prices entries = .ok loaded ↔
      (∀ entry ∈ entries, entry.1 ≠ []) ∧
        loaded = fun key =>
          match (sharing rt key entries).getLast? with
          | some entry => some (entry.2.toModelPrice s)
          | none => prices key := by
  induction entries generalizing prices with
  | nil => simp [loadModels, sharing, eq_comm]
  | cons entry rest ih =>
    obtain ⟨id, e⟩ := entry
    rw [loadModels]
    by_cases empty : id = []
    · simp [empty]
    rw [if_neg empty, ih, List.forall_mem_cons]
    have kept : (fun key => match (sharing rt key rest).getLast? with
        | some entry => some (entry.2.toModelPrice s)
        | none => Function.update prices (toLower rt.toLowerRune id) (some (e.toModelPrice s)) key) =
      fun key => match (sharing rt key ((id, e) :: rest)).getLast? with
        | some entry => some (entry.2.toModelPrice s)
        | none => prices key := by
      funext key
      rw [sharing, sharing, List.filter_cons]
      by_cases same : toLower rt.toLowerRune id = key
      · subst same
        rw [if_pos (by simp), List.getLast?_cons]
        cases last : (rest.filter fun entry => toLower rt.toLowerRune entry.1 =
            toLower rt.toLowerRune id).getLast? with
        | none => simp
        | some entry => simp
      · rw [if_neg (by simpa using same), Function.update_of_ne (Ne.symm same)]
    rw [kept]
    exact ⟨fun ⟨named, eq⟩ => ⟨⟨empty, named⟩, eq⟩, fun ⟨⟨_, named⟩, eq⟩ => ⟨named, eq⟩⟩

end Load

/-! Pricing a model by its own id. -/

section Own

variable (rt : Platform ℚ)

/-- What a schedule charges for a usage. -/
def ModelPrice.charge (p : ModelPrice) (u : PricingUsage) : ℚ :=
  (p.ratesFor (normalize u).2).cost (normalize u).1

/-- Spans and data points of the model are priced by the schedule. -/
structure PricedAs (prices : Prices) (model : Str) (p : ModelPrice) : Prop where
  span : ∀ span : Span ℚ, span.model = model →
    (pricingEnricher rt (some (resolve rt prices)) (normalizeModelEnricher rt span).1).1.costUSD =
      p.charge ⟨span.inputTokens, span.outputTokens, span.cacheReadTokens, span.cacheWriteTokens⟩
  point : ∀ tokenType tokens,
    Processor.pointCost rt (some (resolve rt prices)) (normalizeModel rt model) tokenType tokens =
      p.charge (if GenAI.isOutputTokenType tokenType then { output := tokens }
        else { input := tokens })

/-- A trimmed id of printable ASCII within the length limit. -/
structure PlainID (id : Str) : Prop where
  printable : ∀ b ∈ id, isPrintable b = true
  trimmed : trimSpace id = id
  short : id.length ≤ maxModelNameBytes

theorem isPrintable_iff (b : UInt8) : isPrintable b = true ↔ 0x20 ≤ b.toNat ∧ b.toNat < 0x7F := by
  simp [isPrintable]

theorem PlainID.ascii {id : Str} (plain : PlainID id) : IsAscii id := by
  intro b member
  have range := (isPrintable_iff b).mp (plain.printable b member)
  omega

theorem isControl_asciiLowerRune {r : Nat} (printable : 0x20 ≤ r ∧ r < 0x7F) :
    isControl (asciiLowerRune r) = false := by
  unfold isControl asciiLowerRune
  split
  · simp
    omega
  · simp
    omega

/-- NormalizeModelEnricher only lower-cases a plain id. -/
theorem normalizeModel_plain {id : Str} (plain : PlainID id) :
    normalizeModel rt id = id.map asciiLower := by
  have lowered : toLower rt.toLowerRune id = id.map asciiLower := toLower_ascii _ plain.ascii
  have lowAscii : IsAscii (id.map asciiLower) := isAscii_lower plain.ascii
  have trimmed : trimRunes (runes (id.map asciiLower)) = runes (id.map asciiLower) := by
    rw [← runes_trimSpace, trimSpace_lower plain.ascii plain.trimmed]
  have shown : visible (id.map asciiLower) = (id.map asciiLower).map UInt8.toNat := by
    rw [visible, trimmed, runes_ascii lowAscii, List.filter_eq_self]
    intro r member
    obtain ⟨b, inside, rfl⟩ := List.mem_map.mp member
    obtain ⟨c, original, rfl⟩ := List.mem_map.mp inside
    have range := (isPrintable_iff c).mp (plain.printable c original)
    rw [asciiLower_toNat, isControl_asciiLowerRune range]
    rfl
  have whole : encodeAll ((id.map asciiLower).map UInt8.toNat) = id.map asciiLower :=
    encodeAll_ascii lowAscii
  have fits : (encodeAll ((id.map asciiLower).map UInt8.toNat)).length ≤ maxModelNameBytes := by
    rw [whole, List.length_map]
    exact plain.short
  rw [normalizeModel, lowered, sanitizeIdentifier_eq, keptRunes, shown, fitting_of_le fits, whole]

/-- The first candidate is the lower-cased name itself. -/
theorem candidateKeys_head {model key : Str} (lowered : toLower rt.toLowerRune (trimSpace model) = key)
    (named : key ≠ []) : ∃ rest, candidateKeys rt model = key :: rest := by
  have grows : ∀ (keys : List Str) (k : Str), (∃ rest, keys = key :: rest) →
      ∃ rest, addKey keys k = key :: rest := by
    rintro _ k ⟨rest, rfl⟩
    rw [addKey]
    split
    · exact ⟨rest ++ [k], rfl⟩
    · exact ⟨rest, rfl⟩
  have first : ∃ rest, addKey [] key = key :: rest := ⟨[], by simp [addKey, named]⟩
  rw [candidateKeys, lowered, if_neg named]
  cases afterSlash key with
  | none =>
    cases regions.find? (hasPrefix key) with
    | none => exact first
    | some region => exact grows _ _ first
  | some bare =>
    have second := grows _ bare first
    cases regions.find? (hasPrefix key) with
    | none => exact second
    | some region => exact grows _ _ second

theorem lookup_plain {prices : Prices} {id : Str} (plain : PlainID id) (named : id ≠ [])
    {p : ModelPrice} (kept : prices (toLower rt.toLowerRune id) = some p) :
    lookup rt prices (normalizeModel rt id) = some p := by
  have twice : (id.map asciiLower).map asciiLower = id.map asciiLower := by simp
  have lowered : toLower rt.toLowerRune (trimSpace (normalizeModel rt id)) = id.map asciiLower := by
    rw [normalizeModel_plain rt plain, trimSpace_lower plain.ascii plain.trimmed,
      toLower_ascii _ (isAscii_lower plain.ascii), twice]
  have stays : id.map asciiLower ≠ [] := by simpa using named
  obtain ⟨rest, keys⟩ := candidateKeys_head rt lowered stays
  rw [toLower_ascii _ plain.ascii] at kept
  rw [lookup, keys, List.findSome?_cons, kept]

theorem resolve_found {prices : Prices} {model : Str} {found : ModelPrice}
    (priced : lookup rt prices model = some found) (u : PricingUsage) :
    resolve rt prices model u = .ok (found.charge u) := by
  rw [resolve, priced]
  rfl

/-- What is looked up is what spans and points are charged. -/
theorem pricedAs_iff {prices : Prices} {model : Str} (named : normalizeModel rt model ≠ [])
    {found : ModelPrice} (priced : lookup rt prices (normalizeModel rt model) = some found)
    (p : ModelPrice) : PricedAs rt prices model p ↔ ∀ u, found.charge u = p.charge u := by
  have charged := resolve_found rt priced
  constructor
  · intro own u
    have span := own.span {
      model := model
      inputTokens := u.input
      outputTokens := u.output
      cacheReadTokens := u.cacheRead
      cacheWriteTokens := u.cacheCreation
      costUSD := 0 } rfl
    simpa only [pricingEnricher, normalizeModelEnricher, if_neg named, charged] using span
  · intro alike
    constructor
    · rintro span rfl
      simpa only [pricingEnricher, normalizeModelEnricher, if_neg named, charged] using alike _
    · intro tokenType tokens
      simpa only [Processor.pointCost, if_neg named, charged] using alike _

end Own

/-! The order of the range. -/

section Order

variable (rt : Platform ℚ) (s : TierSort)

/-- The file at the path holds the table. -/
def ReadsTable (files : PricingFiles) (path : Str) (table : FileTable) : Prop :=
  ∃ data, files.readFile path = .ok data ∧ files.unmarshal data = .ok table

/-- The prices after a range: the last entry visited of those that share a key. -/
def keptPrices (entries : List (Str × FileEntry)) : Prices := fun key =>
  (sharing rt key entries).getLast?.map fun entry => entry.2.toModelPrice s

theorem loadStaticFile_ok {files : PricingFiles} {range : MapRange} {path : Str} {table : FileTable}
    (reads : ReadsTable files path table) {loaded : Prices} :
    loadStaticFile rt s files range path = .ok loaded ↔
      (∀ entry ∈ table.models, entry.1 ≠ []) ∧ loaded = keptPrices rt s (range.order table.models) := by
  obtain ⟨data, read, parsed⟩ := reads
  have kept : (fun key => match (sharing rt key (range.order table.models)).getLast? with
      | some entry => some (entry.2.toModelPrice s)
      | none => none) = keptPrices rt s (range.order table.models) := by
    funext key
    rw [keptPrices]
    cases (sharing rt key (range.order table.models)).getLast? <;> rfl
  simp only [loadStaticFile, read, parsed, loadModels_ok, kept]
  apply and_congr_left
  intro _
  exact ⟨fun named entry member => named entry ((range.perm _).mem_iff.mpr member),
    fun named entry member => named entry ((range.perm _).mem_iff.mp member)⟩

/-- What a range keeps for a key is the schedule of an entry that has it. -/
theorem keptPrices_some {entries : List (Str × FileEntry)} {key : Str} {p : ModelPrice}
    (kept : keptPrices rt s entries key = some p) :
    ∃ entry ∈ entries, toLower rt.toLowerRune entry.1 = key ∧ entry.2.toModelPrice s = p := by
  obtain ⟨entry, last, rfl⟩ := Option.map_eq_some_iff.mp kept
  obtain ⟨member, shares⟩ := List.mem_filter.mp (List.mem_of_getLast? last)
  exact ⟨entry, member, of_decide_eq_true shares, rfl⟩

theorem keptPrices_found {entries : List (Str × FileEntry)} {entry : Str × FileEntry}
    (member : entry ∈ entries) :
    ∃ p, keptPrices rt s entries (toLower rt.toLowerRune entry.1) = some p := by
  have shares : entry ∈ sharing rt (toLower rt.toLowerRune entry.1) entries := by
    rw [sharing, List.mem_filter]
    exact ⟨member, decide_eq_true rfl⟩
  have nonempty := List.ne_nil_of_mem shares
  rw [keptPrices, List.getLast?_eq_some_getLast nonempty]
  exact ⟨_, rfl⟩

/-- The range that visits one entry last. -/
def lastRange (chosen : Str × FileEntry) : MapRange where
  order := fun entries => if chosen ∈ entries then entries.erase chosen ++ [chosen] else entries
  perm := by
    intro entries
    split
    · rename_i member
      exact (List.perm_append_singleton chosen _).trans (List.perm_cons_erase member).symm
    · exact List.Perm.refl entries

theorem keptPrices_lastRange {entries : List (Str × FileEntry)} {chosen : Str × FileEntry}
    (member : chosen ∈ entries) :
    keptPrices rt s ((lastRange chosen).order entries) (toLower rt.toLowerRune chosen.1) =
      some (chosen.2.toModelPrice s) := by
  have order : (lastRange chosen).order entries = entries.erase chosen ++ [chosen] := if_pos member
  rw [keptPrices, order, sharing, List.filter_append]
  simp

/-- The schedules kept do not depend on the range exactly when entries that share a key
have one schedule. -/
theorem keptPrices_order_iff {entries : List (Str × FileEntry)} :
    (∀ range range' : MapRange,
      keptPrices rt s (range.order entries) = keptPrices rt s (range'.order entries)) ↔
    ∀ entry ∈ entries, ∀ other ∈ entries,
      toLower rt.toLowerRune entry.1 = toLower rt.toLowerRune other.1 →
        entry.2.toModelPrice s = other.2.toModelPrice s := by
  constructor
  · intro same entry inside other otherInside shares
    have kept := keptPrices_lastRange rt s inside
    have otherKept := keptPrices_lastRange rt s otherInside
    rw [shares, same (lastRange entry) (lastRange other), otherKept] at kept
    exact (Option.some.inj kept).symm
  · intro alike range range'
    -- a schedule that one range keeps is the one the other keeps
    have agree : ∀ (first second : MapRange) key p, keptPrices rt s (first.order entries) key = some p →
        keptPrices rt s (second.order entries) key = some p := by
      intro first second key p kept
      obtain ⟨entry, inside, rfl, rfl⟩ := keptPrices_some rt s kept
      have member : entry ∈ entries := (first.perm _).mem_iff.mp inside
      obtain ⟨q, found⟩ := keptPrices_found rt s ((second.perm _).mem_iff.mpr member)
      obtain ⟨other, otherInside, shares, rfl⟩ := keptPrices_some rt s found
      rw [found, alike entry member other ((second.perm _).mem_iff.mp otherInside) shares.symm]
    funext key
    apply Option.ext
    intro p
    exact ⟨agree range range' key p, agree range' range key p⟩

/-- The schedule a plain id of the table is priced by is that of an entry of the same
lower-cased id. -/
theorem lookup_kept {entries : List (Str × FileEntry)} {id : Str} {e : FileEntry}
    (member : (id, e) ∈ entries) (plain : PlainID id) (named : id ≠ []) :
    ∃ entry ∈ entries, toLower rt.toLowerRune entry.1 = toLower rt.toLowerRune id ∧
      lookup rt (keptPrices rt s entries) (normalizeModel rt id) = some (entry.2.toModelPrice s) := by
  obtain ⟨p, kept⟩ := keptPrices_found rt s member
  obtain ⟨entry, inside, shares, rfl⟩ := keptPrices_some rt s kept
  exact ⟨entry, inside, shares, lookup_plain rt plain named kept⟩

/-- In a table the loader accepts, a plain id is priced by its own entry, whatever order
the range takes, exactly when every entry of the same lower-cased id charges the same;
and the prices do not depend on the order exactly when such entries are one schedule. -/
theorem own_price_iff {files : PricingFiles} {path : Str} {table : FileTable}
    (reads : ReadsTable files path table) {someRange : MapRange} {somePrices : Prices}
    (accepted : loadStaticFile rt s files someRange path = .ok somePrices) :
    (∀ id e, (id, e) ∈ table.models → PlainID id →
      ((∀ range loaded, loadStaticFile rt s files range path = .ok loaded →
          PricedAs rt loaded id (e.toModelPrice s)) ↔
        ∀ entry ∈ table.models, toLower rt.toLowerRune entry.1 = toLower rt.toLowerRune id →
          ∀ u, (entry.2.toModelPrice s).charge u = (e.toModelPrice s).charge u)) ∧
    ((∀ range range', loadStaticFile rt s files range path = loadStaticFile rt s files range' path) ↔
      ∀ entry ∈ table.models, ∀ other ∈ table.models,
        toLower rt.toLowerRune entry.1 = toLower rt.toLowerRune other.1 →
          entry.2.toModelPrice s = other.2.toModelPrice s) := by
  obtain ⟨named, _⟩ := (loadStaticFile_ok rt s reads).mp accepted
  have loads : ∀ range, loadStaticFile rt s files range path =
      .ok (keptPrices rt s (range.order table.models)) := fun range =>
    (loadStaticFile_ok rt s reads).mpr ⟨named, rfl⟩
  constructor
  · intro id e member plain
    have idNamed : id ≠ [] := named (id, e) member
    have normalized : normalizeModel rt id ≠ [] := by
      rw [normalizeModel_plain rt plain]
      simpa using idNamed
    constructor
    · intro own entry inside shares
      have kept := keptPrices_lastRange rt s inside
      rw [shares] at kept
      have found := lookup_plain rt plain idNamed kept
      exact (pricedAs_iff rt normalized found _).mp (own _ _ (loads (lastRange entry)))
    · rintro alike range loaded ok
      obtain ⟨_, rfl⟩ := (loadStaticFile_ok rt s reads).mp ok
      have visited : (id, e) ∈ range.order table.models := (range.perm _).mem_iff.mpr member
      obtain ⟨entry, inside, shares, found⟩ := lookup_kept rt s visited plain idNamed
      apply (pricedAs_iff rt normalized found _).mpr
      exact alike entry ((range.perm _).mem_iff.mp inside) shares
  · rw [← keptPrices_order_iff]
    simp only [loads, Except.ok.injEq]

end Order

/-- A hand-edited file whose two spellings of one id carry two prices. -/
def doubledModels : List (Str × FileEntry) :=
  [(lit "GPT-4o", { inputPerToken := 0.000005 }), (lit "gpt-4o", { inputPerToken := 0.0000025 })]

theorem doubledModels_distinct : (doubledModels.map Prod.fst).Nodup := by decide

def doubledTable : FileTable := ⟨2, doubledModels, doubledModels_distinct⟩

/-- A disk with one file, which holds the table. -/
def fileOf (table : FileTable) : PricingFiles where
  readFile := fun _ => .ok []
  unmarshal := fun _ => .ok table

theorem fileOf_reads (table : FileTable) (path : Str) : ReadsTable (fileOf table) path table :=
  ⟨[], rfl, rfl⟩

theorem gpt4o_plain : PlainID (lit "GPT-4o") :=
  ⟨by decide +kernel, by decide +kernel, by decide +kernel⟩

theorem doubledTable_mispriced :
    PlainID (lit "GPT-4o") ∧
    (lit "GPT-4o", { inputPerToken := 0.000005 }) ∈ doubledTable.models ∧
    ∃ range loaded,
      loadStaticFile exactPlatform insertionByThreshold (fileOf doubledTable) range
          (lit "pricing.json") = .ok loaded ∧
        Processor.pointCost exactPlatform (some (resolve exactPlatform loaded))
          (normalizeModel exactPlatform (lit "GPT-4o")) (lit "input") 1000 = 0.0025 ∧
        ¬PricedAs exactPlatform loaded (lit "GPT-4o")
          (({ inputPerToken := 0.000005 } : FileEntry).toModelPrice insertionByThreshold) := by
  refine ⟨gpt4o_plain, List.mem_cons_self, lastRange (lit "gpt-4o", { inputPerToken := 0.0000025 }), _,
    (loadStaticFile_ok exactPlatform insertionByThreshold (fileOf_reads doubledTable _)).mpr
      ⟨?_, rfl⟩, ?_, ?_⟩
  · decide
  · decide +kernel
  · intro own
    exact absurd (own.point (lit "input") 1000) (by decide +kernel)

/-- A file that spells every id once. -/
def plainModels : List (Str × FileEntry) :=
  [(lit "GPT-4o", { inputPerToken := 0.000005 }), (lit "claude", { inputPerToken := 0.000003 })]

theorem plainModels_distinct : (plainModels.map Prod.fst).Nodup := by decide

def plainTable : FileTable := ⟨2, plainModels, plainModels_distinct⟩

theorem plainTable_priced : PlainID (lit "GPT-4o") ∧
    ∀ range loaded,
      loadStaticFile exactPlatform insertionByThreshold (fileOf plainTable) range
          (lit "pricing.json") = .ok loaded →
        PricedAs exactPlatform loaded (lit "GPT-4o")
          (({ inputPerToken := 0.000005 } : FileEntry).toModelPrice insertionByThreshold) := by
  have reads : ReadsTable (fileOf plainTable) (lit "pricing.json") plainTable := fileOf_reads _ _
  have accepted : loadStaticFile exactPlatform insertionByThreshold (fileOf plainTable)
      (lastRange (lit "claude", {})) (lit "pricing.json") =
      .ok (keptPrices exactPlatform insertionByThreshold
        ((lastRange (lit "claude", {})).order plainTable.models)) :=
    (loadStaticFile_ok exactPlatform insertionByThreshold reads).mpr ⟨by decide, rfl⟩
  have first : (lit "GPT-4o", ({ inputPerToken := 0.000005 } : FileEntry)) ∈ plainTable.models :=
    List.mem_cons_self
  refine ⟨gpt4o_plain, ?_⟩
  apply ((own_price_iff exactPlatform insertionByThreshold reads accepted).1 _ _ first
    gpt4o_plain).mpr
  intro entry member shares u
  rcases List.mem_cons.mp member with rfl | second
  · rfl
  · rw [List.mem_singleton.mp second] at shares
    exact absurd shares (by decide +kernel)

end Tracium.Pricing
