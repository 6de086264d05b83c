import Tracium.CappedMap
import Tracium.Exporter
import Tracium.Go.Cut

/-! The custom attributes of a stored span as a capped map: what customAttributes may
hold, which of two values a key carries, and when nothing is dropped. -/
namespace Tracium.Exporter

open Go OrderedMap

variable {F : Type} (rt : Platform F)

/-- Outside the denied namespaces and keys, and of a length that may be stored. -/
structure Admissible (k : Str) : Prop where
  nonempty : k ≠ []
  short : k.length ≤ maxAttrKeyBytes
  notPromoted : k ∉ attrDenyKeys
  outside : ∀ p ∈ attrDenyPrefixes, ¬p <+: k

theorem isCustomKey_iff (k : Str) : isCustomKey k = true ↔ Admissible k := by
  have denied : isDeniedAttr k = false ↔ k ∉ attrDenyKeys ∧ ∀ p ∈ attrDenyPrefixes, ¬p <+: k := by
    simp [isDeniedAttr, hasPrefix]
  constructor
  · intro custom
    have parts : (k.length ≠ 0 ∧ k.length ≤ maxAttrKeyBytes) ∧ isDeniedAttr k = false := by
      simpa [isCustomKey] using custom
    obtain ⟨⟨nonempty, short⟩, allowed⟩ := parts
    obtain ⟨notPromoted, outside⟩ := denied.mp allowed
    exact ⟨fun empty => nonempty (by simp [empty]), short, notPromoted, outside⟩
  · rintro ⟨nonempty, short, notPromoted, outside⟩
    have allowed := denied.mpr ⟨notPromoted, outside⟩
    simp [isCustomKey, nonempty, short, allowed]

instance (k : Str) : Decidable (Admissible k) := decidable_of_iff _ (isCustomKey_iff k)

/-! Values. -/

theorem capValue_length (val : Str) : (capValue val).length ≤ maxAttrValueBytes := by
  unfold capValue
  split
  · have shorter := (toValidUTF8_sublist (val.take maxAttrValueBytes)).length_le
    rw [List.length_take] at shorter
    omega
  · omega

theorem capValue_of_fits {val : Str} (fits : val.length ≤ maxAttrValueBytes) : capValue val = val :=
  if_neg (by omega)

/-! customAttributes as one fill of a capped map. -/

/-- The entries of one attribute list that `add` does not skip, as they would be stored. -/
def candidates (attrs : Attributes F) : List (Str × Str) :=
  (attrs.filter fun e => isCustomKey e.1).map fun e => (e.1, capValue (e.2.asString rt))

theorem foldl_addAttr (attrs : Attributes F) (out : List (Str × Str)) :
    attrs.foldl (addAttr rt) out = CappedMap.fill maxAttrs out (candidates rt attrs) := by
  induction attrs generalizing out with
  | nil => rfl
  | cons e rest ih =>
    rw [List.foldl_cons, ih]
    by_cases custom : isCustomKey e.1 = true
    · simp [candidates, custom, addAttr, CappedMap.fill_cons, CappedMap.put]
    · simp [candidates, custom, addAttr]

/-- The map that is stored; a nil map reads like the empty one. -/
def stored (resource spanAttrs : Attributes F) : List (Str × Str) :=
  (customAttributes rt resource spanAttrs).getD []

theorem stored_eq (resource spanAttrs : Attributes F) : stored rt resource spanAttrs =
    CappedMap.fill maxAttrs [] (candidates rt resource ++ candidates rt spanAttrs) := by
  have filled : spanAttrs.foldl (addAttr rt) (resource.foldl (addAttr rt) []) =
      CappedMap.fill maxAttrs [] (candidates rt resource ++ candidates rt spanAttrs) := by
    rw [foldl_addAttr, foldl_addAttr, CappedMap.fill_append]
  simp only [stored, customAttributes, filled]
  split
  · rename_i empty
    rw [List.eq_nil_of_length_eq_zero empty]
    rfl
  · rfl

/-- The attribute a key names: the span's own, else the resource's. -/
def effective (resource spanAttrs : Attributes F) (k : Str) : Option (Value F) :=
  (get spanAttrs k).or (get resource k)

def admissibleKeys (resource spanAttrs : Attributes F) : Finset Str :=
  (CappedMap.keys resource ∪ CappedMap.keys spanAttrs).filter Admissible

theorem keys_candidates (attrs : Attributes F) :
    CappedMap.keys (candidates rt attrs) = (CappedMap.keys attrs).filter Admissible := by
  ext k
  rw [Finset.mem_filter, ← isCustomKey_iff, CappedMap.mem_keys, CappedMap.mem_keys]
  constructor
  · rintro ⟨e, member, rfl⟩
    obtain ⟨source, kept, rfl⟩ := List.mem_map.mp member
    obtain ⟨inside, custom⟩ := List.mem_filter.mp kept
    exact ⟨⟨source, inside, rfl⟩, custom⟩
  · rintro ⟨⟨source, inside, rfl⟩, custom⟩
    exact ⟨_, List.mem_map_of_mem (List.mem_filter.mpr ⟨inside, custom⟩), rfl⟩

theorem candidates_distinct {attrs : Attributes F} (distinct : DistinctKeys attrs) :
    DistinctKeys (candidates rt attrs) := by
  have kept := distinct.filter fun e => isCustomKey e.1
  unfold DistinctKeys candidates at *
  rwa [List.map_map]

theorem get_candidates {attrs : Attributes F} (distinct : DistinctKeys attrs) (k : Str) :
    get (candidates rt attrs) k =
      if Admissible k then (get attrs k).map fun v => capValue (v.asString rt) else none := by
  unfold candidates
  rw [get_map_value _ fun v : Value F => capValue (v.asString rt), get_filter distinct]
  by_cases custom : isCustomKey k = true
  · rw [if_pos ((isCustomKey_iff k).mp custom)]
    cases get attrs k <;> simp [custom]
  · rw [if_neg fun admissible => custom ((isCustomKey_iff k).mpr admissible)]
    simp [custom]

/-- What the two passes write last under a key. -/
theorem get_reverse_candidates {resource spanAttrs : Attributes F}
    (resourceKeys : DistinctKeys resource) (spanKeys : DistinctKeys spanAttrs) (k : Str) :
    get (candidates rt resource ++ candidates rt spanAttrs).reverse k =
      if Admissible k then (effective resource spanAttrs k).map fun v => capValue (v.asString rt)
      else none := by
  have parts : get (candidates rt resource ++ candidates rt spanAttrs).reverse k =
      (get (candidates rt spanAttrs) k).or (get (candidates rt resource) k) := by
    rw [List.reverse_append, get_append, get_reverse_of_distinct _ (candidates_distinct rt spanKeys),
      get_reverse_of_distinct _ (candidates_distinct rt resourceKeys)]
  rw [parts, get_candidates rt spanKeys, get_candidates rt resourceKeys]
  split
  · unfold effective
    cases get spanAttrs k <;> rfl
  · rfl

theorem get_stored_of_held {resource spanAttrs : Attributes F}
    (resourceKeys : DistinctKeys resource) (spanKeys : DistinctKeys spanAttrs)
    (held : get (stored rt resource spanAttrs) k = some v) :
    Admissible k ∧ ∃ value, effective resource spanAttrs k = some value ∧
      v = capValue (value.asString rt) := by
  have written := get_reverse_candidates rt resourceKeys spanKeys k
  rw [stored_eq] at held
  rw [CappedMap.get_fill (by rw [held]; exact Option.some_ne_none v), written, get_nil,
    Option.or_none] at held
  split at held
  · rename_i admissible
    obtain ⟨value, found, rfl⟩ := Option.map_eq_some_iff.mp held
    exact ⟨admissible, value, found, rfl⟩
  · cases held

theorem get_stored_of_room {resource spanAttrs : Attributes F}
    (resourceKeys : DistinctKeys resource) (spanKeys : DistinctKeys spanAttrs)
    (room : (admissibleKeys resource spanAttrs).card ≤ maxAttrs) (k : Str) :
    get (stored rt resource spanAttrs) k =
      if Admissible k then (effective resource spanAttrs k).map fun v => capValue (v.asString rt)
      else none := by
  have together : CappedMap.keys ([] : List (Str × Str)) ∪
      CappedMap.keys (candidates rt resource ++ candidates rt spanAttrs) =
      admissibleKeys resource spanAttrs := by
    rw [admissibleKeys, Finset.filter_union, ← keys_candidates rt, ← keys_candidates rt]
    simp [CappedMap.keys]
  rw [stored_eq, CappedMap.get_fill_of_room DistinctKeys.nil (by rwa [together]),
    get_reverse_candidates rt resourceKeys spanKeys, get_nil, Option.or_none]

theorem get_perm {attrs attrs' : Attributes F} (distinct : DistinctKeys attrs)
    (reordered : attrs'.Perm attrs) (k : Str) : get attrs' k = get attrs k := by
  have distinct' : DistinctKeys attrs' := (reordered.map Prod.fst).nodup_iff.mpr distinct
  apply Option.ext
  intro v
  rw [get_eq_some_iff_mem distinct', get_eq_some_iff_mem distinct]
  exact reordered.mem_iff

/-- The row's custom attributes stay within the ingest bounds, every key carries the
span's value before the resource's, and nothing is dropped while all admissible keys fit. -/
theorem customAttributes_spec {resource spanAttrs : Attributes F}
    (resourceKeys : DistinctKeys resource) (spanKeys : DistinctKeys spanAttrs) :
    DistinctKeys (stored rt resource spanAttrs) ∧
    (stored rt resource spanAttrs).length ≤ maxAttrs ∧
    (∀ k v, get (stored rt resource spanAttrs) k = some v →
      Admissible k ∧ v.length ≤ maxAttrValueBytes ∧
      ∃ value, effective resource spanAttrs k = some value ∧ v = capValue (value.asString rt) ∧
        ((value.asString rt).length ≤ maxAttrValueBytes → v = value.asString rt)) ∧
    ((admissibleKeys resource spanAttrs).card ≤ maxAttrs →
      (∀ k, Admissible k → (get (stored rt resource spanAttrs) k).isSome =
        (effective resource spanAttrs k).isSome) ∧
      ∀ resource' spanAttrs' : Attributes F, resource'.Perm resource → spanAttrs'.Perm spanAttrs →
        ∀ k, get (stored rt resource' spanAttrs') k = get (stored rt resource spanAttrs) k) := by
  refine ⟨?_, ?_, ?_, ?_⟩
  · rw [stored_eq]
    exact CappedMap.fill_distinct DistinctKeys.nil _ _
  · rw [stored_eq]
    exact CappedMap.fill_length (Nat.zero_le maxAttrs) _
  · intro k v held
    obtain ⟨admissible, value, found, rfl⟩ := get_stored_of_held rt resourceKeys spanKeys held
    exact ⟨admissible, capValue_length _, value, found, rfl, capValue_of_fits⟩
  · intro room
    have whole := get_stored_of_room rt resourceKeys spanKeys room
    refine ⟨?_, ?_⟩
    · intro k admissible
      rw [whole, if_pos admissible, Option.isSome_map]
    · intro resource' spanAttrs' resourcePerm spanPerm k
      have resourceKeys' : DistinctKeys resource' :=
        (resourcePerm.map Prod.fst).nodup_iff.mpr resourceKeys
      have spanKeys' : DistinctKeys spanAttrs' := (spanPerm.map Prod.fst).nodup_iff.mpr spanKeys
      have sameKeys : admissibleKeys resource' spanAttrs' = admissibleKeys resource spanAttrs := by
        unfold admissibleKeys CappedMap.keys
        rw [List.toFinset_eq_of_perm _ _ (resourcePerm.map Prod.fst),
          List.toFinset_eq_of_perm _ _ (spanPerm.map Prod.fst)]
      have whole' := get_stored_of_room rt resourceKeys' spanKeys' (by rwa [sameKeys]) k
      have sameSource : effective resource' spanAttrs' k = effective resource spanAttrs k := by
        unfold effective
        rw [get_perm resourceKeys resourcePerm, get_perm spanKeys spanPerm]
      rw [whole', whole, sameSource]

def teamResource : Attributes Int :=
  [(attrServiceName, .str (lit "billing-agent")), (lit "team", .str (lit "platform")),
    (lit "deployment.environment", .str (lit "prod"))]

def teamSpan : Attributes Int :=
  [(attrCostUSD, .str (lit "0.01")), (lit "user.id", .str (lit "alice")),
    (lit "team", .str (lit "payments"))]

theorem customAttributes_spec_team :
    stored plainPlatform teamResource teamSpan =
      [(lit "team", lit "payments"), (lit "deployment.environment", lit "prod"),
        (lit "user.id", lit "alice")] ∧
    ∀ resource' spanAttrs' : Attributes Int, resource'.Perm teamResource →
      spanAttrs'.Perm teamSpan → ∀ k, get (stored plainPlatform resource' spanAttrs') k =
        get (stored plainPlatform teamResource teamSpan) k := by
  have resourceKeys : DistinctKeys teamResource := by decide +kernel
  have spanKeys : DistinctKeys teamSpan := by decide +kernel
  obtain ⟨_, _, _, fits⟩ := customAttributes_spec plainPlatform resourceKeys spanKeys
  exact ⟨by decide +kernel, (fits (by decide +kernel)).2⟩

end Tracium.Exporter
