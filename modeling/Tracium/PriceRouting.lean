import Tracium.Pricing
import Tracium.Go.Ascii

/-! Routing prefixes on model names. The fallbacks of a lookup are cut from the full name,
never from each other, so a name with a provider in front of a regional id reaches the
bare id on neither way. -/
namespace Tracium.Pricing

open Go

/-! A lookup as a choice between three keys. -/

/-- The price a key other than the empty one has. -/
def priceAt (prices : Prices) (key : Str) : Option ModelPrice :=
  if key = [] then none else prices key

theorem findSome_addKey (prices : Prices) (keys : List Str) (k : Str) :
    (addKey keys k).findSome? prices = (keys.findSome? prices).or (priceAt prices k) := by
  rw [addKey, priceAt]
  by_cases empty : k = []
  · simp [empty]
  by_cases seen : k ∈ keys
  · simp only [empty, ne_eq, not_false_eq_true, decide_true, List.contains_eq_mem, seen,
      Bool.not_true, Bool.and_false, Bool.false_eq_true, ↓reduceIte]
    cases found : keys.findSome? prices with
    | some p => rfl
    | none => exact (List.findSome?_eq_none_iff.mp found k seen).symm
  · simp [empty, seen, List.findSome?_append]

section Routing

variable (rt : Platform ℚ)

/-- The full name as the lookup reads it. -/
def lowerName (model : Str) : Str := toLower rt.toLowerRune (trimSpace model)

/-- The part of a lower-cased name that follows its region. -/
def afterRegion (key : Str) : Option Str :=
  (regions.find? (hasPrefix key)).map fun region => key.drop region.length

theorem lookup_eq (prices : Prices) {model : Str} (named : lowerName rt model ≠ []) :
    lookup rt prices model =
      ((prices (lowerName rt model)).or
        ((afterSlash (lowerName rt model)).bind (priceAt prices))).or
          ((afterRegion (lowerName rt model)).bind (priceAt prices)) := by
  have first : (addKey [] (lowerName rt model)).findSome? prices = prices (lowerName rt model) := by
    rw [findSome_addKey, priceAt, if_neg named]
    rfl
  rw [lookup, candidateKeys, ← lowerName, if_neg named, afterRegion]
  cases afterSlash (lowerName rt model) with
  | none =>
    cases regions.find? (hasPrefix (lowerName rt model)) with
    | none => simp [first]
    | some region => simp [findSome_addKey, first]
  | some bare =>
    cases regions.find? (hasPrefix (lowerName rt model)) with
    | none => simp [findSome_addKey, first]
    | some region => simp [findSome_addKey, first]

/-! Names behind a prefix. -/

/-- strings.TrimRightFunc(s, unicode.IsSpace). -/
def trimRightSpace (s : Str) : Str :=
  ((pieces s).rdropWhile fun piece => isSpace piece.rune).flatMap Piece.bytes

/-- What the lookup reads of a model behind a prefix. -/
def bareKey (model : Str) : Str := toLower rt.toLowerRune (trimRightSpace model)

theorem runes_trimRightSpace (s : Str) :
    runes (trimRightSpace s) = (runes s).rdropWhile isSpace := by
  have whole := (List.rdropWhile_append_rtakeWhile (p := fun piece => isSpace piece.rune)
    (l := pieces s)).symm
  rw [trimRightSpace, runes, pieces_ahead whole, runes]
  unfold List.rdropWhile
  rw [← List.map_reverse, List.dropWhile_map, ← List.map_reverse]
  rfl

theorem dropWhile_stops {α : Type} {p : α → Bool} {x : α} (stops : p x = false) (front back : List α) :
    (front ++ x :: back).dropWhile p = front.dropWhile p ++ x :: back := by
  induction front with
  | nil => exact List.dropWhile_cons_of_neg (by simp [stops])
  | cons first front ih =>
    rw [List.cons_append, List.dropWhile_cons, List.dropWhile_cons]
    split
    · exact ih
    · rfl

theorem rdropWhile_stops {α : Type} {p : α → Bool} {x : α} (stops : p x = false)
    (front back : List α) :
    (front ++ x :: back).rdropWhile p = front ++ x :: back.rdropWhile p := by
  have reversed : (front ++ x :: back).reverse = back.reverse ++ x :: front.reverse := by simp
  rw [List.rdropWhile, reversed, dropWhile_stops stops, List.rdropWhile]
  simp

/-- Trimming stops at a character that is not white space. -/
theorem trimRunes_around {x : Nat} (shown : isSpace x = false) (front back : List Nat) :
    trimRunes (front ++ x :: back) = front.dropWhile isSpace ++ x :: back.rdropWhile isSpace := by
  rw [trimRunes, dropWhile_stops shown, rdropWhile_stops shown]

variable {rt}

theorem lowerName_eq (table : LowerTable rt.toLowerRune) (model : Str) :
    lowerName rt model = encodeAll ((trimRunes (runes model)).map rt.toLowerRune) := by
  rw [lowerName, toLower_eq table, runes_trimSpace]

theorem bareKey_eq (table : LowerTable rt.toLowerRune) (model : Str) :
    bareKey rt model = encodeAll (((runes model).rdropWhile isSpace).map rt.toLowerRune) := by
  rw [bareKey, toLower_eq table, runes_trimRightSpace]

theorem encodeAll_slash (table : LowerTable rt.toLowerRune) (back : List Nat) :
    encodeAll ((0x2F :: back).map rt.toLowerRune) =
      0x2F :: encodeAll (back.map rt.toLowerRune) := by
  have stays : rt.toLowerRune 0x2F = 0x2F := table.ascii 0x2F (by omega)
  rw [List.map_cons, stays]
  rfl

/-- A lower-cased part of a name without a slash has none either. -/
theorem no_slash (table : LowerTable rt.toLowerRune) {rs : List Nat} (scalars : ∀ r ∈ rs, IsScalar r)
    (without : 0x2F ∉ rs) : 0x2F ∉ encodeAll (rs.map rt.toLowerRune) := by
  have lowered : ∀ r ∈ rs.map rt.toLowerRune, IsScalar r := by
    intro r member
    obtain ⟨original, inside, rfl⟩ := List.mem_map.mp member
    exact table.scalar original (scalars original inside)
  intro inside
  have slash : (0x2F : UInt8).toNat ∈ rs.map rt.toLowerRune :=
    (ascii_mem_encodeAll lowered (by decide)).mp inside
  obtain ⟨original, member, same⟩ := List.mem_map.mp slash
  rw [table.slash original same] at member
  exact without member

theorem runes_no_slash {s : Str} (without : 0x2F ∉ s) : 0x2F ∉ runes s := by
  intro slash
  exact without ((ascii_mem_runes s (b := 0x2F) (by decide)).mp slash)

/-- A provider in front of a name leaves the name as it is behind the slash. -/
theorem lowerName_provider (table : LowerTable rt.toLowerRune) {p : Str} (without : 0x2F ∉ p)
    (name : Str) : ∃ provider, 0x2F ∉ provider ∧
      lowerName rt (p ++ 0x2F :: name) = provider ++ 0x2F :: bareKey rt name := by
  refine ⟨encodeAll (((runes p).dropWhile isSpace).map rt.toLowerRune), ?_, ?_⟩
  · have inside := (List.dropWhile_suffix isSpace (l := runes p)).subset
    apply no_slash table
    · exact fun r member => runes_scalar p r (inside member)
    · exact fun slash => runes_no_slash without (inside slash)
  · have split : runes (p ++ 0x2F :: name) = runes p ++ 0x2F :: runes name :=
      runes_append_ascii p (by decide) name
    have shown : isSpace 0x2F = false := by decide
    rw [lowerName_eq table, split, trimRunes_around shown, List.map_append, encodeAll_append,
      encodeAll_slash table, bareKey_eq table]

/-- A region is lower-case ASCII without white space or a slash and ends with a dot. -/
theorem regions_shape : ∀ region ∈ regions, region = region.dropLast ++ [0x2E] ∧
    (∀ b ∈ region, b.toNat < 0x80 ∧ asciiLower b = b ∧ b ≠ 0x2F) ∧
    (region.dropLast.map UInt8.toNat).dropWhile isSpace = region.dropLast.map UInt8.toNat := by
  decide +kernel

theorem regions_apart : ∀ region ∈ regions, ∀ other ∈ regions, region <+: other → region = other := by
  decide

/-- A region in front of a name leaves the name as it is behind it. -/
theorem lowerName_region (table : LowerTable rt.toLowerRune) {region : Str}
    (member : region ∈ regions) (name : Str) :
    lowerName rt (region ++ name) = region ++ bareKey rt name ∧
      bareKey rt (region ++ name) = region ++ bareKey rt name := by
  obtain ⟨dotted, bytes, unspaced⟩ := regions_shape region member
  have ascii : IsAscii region := fun b inside => (bytes b inside).1
  have lowered : (region.map UInt8.toNat).map rt.toLowerRune = region.map UInt8.toNat := by
    rw [List.map_map]
    apply List.map_congr_left
    intro b inside
    obtain ⟨low, same, _⟩ := bytes b inside
    rw [Function.comp_apply, table.ascii _ low, ← asciiLower_toNat, same]
  have split : region.map UInt8.toNat = region.dropLast.map UInt8.toNat ++ [0x2E] := by
    conv_lhs => rw [dotted, List.map_append]
    rfl
  have whole : runes (region ++ name) = region.dropLast.map UInt8.toNat ++ 0x2E :: runes name := by
    rw [runes_append_of_ascii ascii, split, List.append_assoc]
    rfl
  have shown : isSpace 0x2E = false := by decide
  have encoded : encodeAll ((region.dropLast.map UInt8.toNat ++
      0x2E :: (runes name).rdropWhile isSpace).map rt.toLowerRune) = region ++ bareKey rt name := by
    have rejoined : region.dropLast.map UInt8.toNat ++ 0x2E :: (runes name).rdropWhile isSpace =
        region.map UInt8.toNat ++ (runes name).rdropWhile isSpace := by
      rw [split, List.append_assoc]
      rfl
    rw [rejoined, List.map_append, encodeAll_append, lowered, encodeAll_ascii ascii, bareKey_eq table]
  constructor
  · rw [lowerName_eq table, whole, trimRunes_around shown, unspaced, encoded]
  · rw [bareKey_eq table, whole, rdropWhile_stops shown, encoded]

/-! The fallbacks of a prefixed name. -/

theorem dropWhile_no_slash {key : Str} (without : 0x2F ∉ key) : key.dropWhile (· != 0x2F) = [] := by
  rw [List.dropWhile_eq_nil_iff]
  intro b member
  have other : b ≠ 0x2F := fun same => without (same ▸ member)
  simpa using other

theorem afterSlash_found {front : Str} (without : 0x2F ∉ front) (rest : Str) :
    afterSlash (front ++ 0x2F :: rest) = some rest := by
  have whole := dropWhile_stops (p := fun b : UInt8 => b != 0x2F) (x := 0x2F) (by decide) front rest
  rw [dropWhile_no_slash without, List.nil_append] at whole
  rw [afterSlash, whole]

theorem afterSlash_none {key : Str} (without : 0x2F ∉ key) : afterSlash key = none := by
  rw [afterSlash, dropWhile_no_slash without]

theorem afterRegion_found {region : Str} (member : region ∈ regions) (rest : Str) :
    afterRegion (region ++ rest) = some rest := by
  have found : regions.find? (hasPrefix (region ++ rest)) = some region := by
    have isSome : (regions.find? (hasPrefix (region ++ rest))).isSome := by
      rw [List.find?_isSome]
      exact ⟨region, member, hasPrefix_append region rest⟩
    obtain ⟨other, first⟩ := Option.isSome_iff_exists.mp isSome
    have otherMember := List.mem_of_find?_eq_some first
    obtain ⟨tail, split⟩ := hasPrefix_iff.mp (List.find?_some first)
    have nested : other <+: region ∨ region <+: other := by
      rcases List.append_eq_append_iff.mp split with ⟨middle, longer, _⟩ | ⟨middle, longer, _⟩
      · exact .inr ⟨middle, longer.symm⟩
      · exact .inl ⟨middle, longer.symm⟩
    have same : other = region := by
      rcases nested with front | front
      · exact regions_apart other otherMember region member front
      · exact (regions_apart region member other otherMember front).symm
    rw [first, same]
  rw [afterRegion, found, Option.map_some, List.drop_left]

/-- The region fallback of a key, read both ways. -/
theorem afterRegion_eq_some {key rest : Str} :
    afterRegion key = some rest ↔ ∃ region ∈ regions, key = region ++ rest := by
  constructor
  · intro found
    obtain ⟨region, first, rfl⟩ := Option.map_eq_some_iff.mp found
    obtain ⟨tail, rfl⟩ := hasPrefix_iff.mp (List.find?_some first)
    refine ⟨region, List.mem_of_find?_eq_some first, ?_⟩
    rw [List.drop_left]
  · rintro ⟨region, member, rfl⟩
    exact afterRegion_found member rest

theorem bareKey_no_slash (table : LowerTable rt.toLowerRune) {m : Str} (without : 0x2F ∉ m) :
    0x2F ∉ bareKey rt m := by
  have inside := (List.rdropWhile_prefix isSpace (runes m)).subset
  rw [bareKey_eq table]
  apply no_slash table
  · exact fun r member => runes_scalar m r (inside member)
  · exact fun slash => runes_no_slash without (inside slash)

/-! Each kind of name, when the table does not list it in full. -/

theorem lookup_provider (table : LowerTable rt.toLowerRune) {prices : Prices} {p name : Str}
    (without : 0x2F ∉ p) (unlisted : prices (lowerName rt (p ++ 0x2F :: name)) = none) :
    lookup rt prices (p ++ 0x2F :: name) = (priceAt prices (bareKey rt name)).or
      ((afterRegion (lowerName rt (p ++ 0x2F :: name))).bind (priceAt prices)) := by
  obtain ⟨provider, clean, split⟩ := lowerName_provider table without name
  have named : lowerName rt (p ++ 0x2F :: name) ≠ [] := by
    rw [split]
    simp
  have bare : afterSlash (lowerName rt (p ++ 0x2F :: name)) = some (bareKey rt name) := by
    rw [split]
    exact afterSlash_found clean _
  rw [lookup_eq rt prices named, unlisted, bare]
  rfl

theorem lookup_region (table : LowerTable rt.toLowerRune) {prices : Prices} {region m : Str}
    (member : region ∈ regions) (without : 0x2F ∉ m)
    (unlisted : prices (lowerName rt (region ++ m)) = none) :
    lookup rt prices (region ++ m) = priceAt prices (bareKey rt m) := by
  have split := (lowerName_region table member m).1
  obtain ⟨dotted, bytes, _⟩ := regions_shape region member
  have named : lowerName rt (region ++ m) ≠ [] := by
    rw [split, dotted]
    simp
  have noBare : afterSlash (lowerName rt (region ++ m)) = none := by
    rw [split]
    apply afterSlash_none
    intro slash
    rcases List.mem_append.mp slash with inRegion | inModel
    · exact (bytes _ inRegion).2.2 rfl
    · exact bareKey_no_slash table without inModel
  rw [lookup_eq rt prices named, unlisted, noBare, split, afterRegion_found member]
  rfl

theorem priceAt_eq_some {prices : Prices} {key : Str} {price : ModelPrice} :
    priceAt prices key = some price ↔ key ≠ [] ∧ prices key = some price := by
  rw [priceAt]
  split <;> simp_all

/-- A provider in front of a regional id: neither prefix comes off with the other one
still on, so only a region in front of the provider itself leads anywhere. -/
theorem lookup_both (table : LowerTable rt.toLowerRune) {prices : Prices} {p region m : Str}
    (without : 0x2F ∉ p) (member : region ∈ regions)
    (unlistedRegion : prices (lowerName rt (region ++ m)) = none)
    (unlisted : prices (lowerName rt (p ++ 0x2F :: (region ++ m))) = none) {price : ModelPrice} :
    lookup rt prices (p ++ 0x2F :: (region ++ m)) = some price ↔
      ∃ front ∈ regions, ∃ rest, lowerName rt (p ++ 0x2F :: (region ++ m)) = front ++ rest ∧
        prices rest = some price := by
  obtain ⟨named, stays⟩ := lowerName_region table member m
  have noBare : priceAt prices (bareKey rt (region ++ m)) = none := by
    rw [priceAt, stays, ← named, unlistedRegion, ite_self]
  rw [lookup_provider table without unlisted, noBare, Option.none_or, Option.bind_eq_some_iff]
  constructor
  · rintro ⟨rest, found, priced⟩
    obtain ⟨front, inside, split⟩ := afterRegion_eq_some.mp found
    exact ⟨front, inside, rest, split, (priceAt_eq_some.mp priced).2⟩
  · rintro ⟨front, inside, rest, split, priced⟩
    refine ⟨rest, afterRegion_eq_some.mpr ⟨front, inside, split⟩, priceAt_eq_some.mpr ⟨?_, priced⟩⟩
    -- the slash of the name is behind the region
    rintro rfl
    obtain ⟨provider, _, slashed⟩ := lowerName_provider table without (region ++ m)
    rw [split, List.append_nil] at slashed
    have slash : 0x2F ∈ front := by
      rw [slashed]
      simp
    exact ((regions_shape front inside).2.1 _ slash).2.2 rfl

/-- A name with one prefix reaches the model; a name with both does so exactly when the
provider itself begins with a region, and the rest of the name is a key of the table that
carries the model's price. -/
theorem prefixes_compose_iff (table : LowerTable rt.toLowerRune) {prices : Prices} {p region m : Str}
    {price : ModelPrice} (keyed : prices m = some price) (modelSlash : 0x2F ∉ m)
    (providerSlash : 0x2F ∉ p) (member : region ∈ regions)
    (unlistedProvider : prices (lowerName rt (p ++ 0x2F :: m)) = none)
    (unlistedRegion : prices (lowerName rt (region ++ m)) = none)
    (unlistedBoth : prices (lowerName rt (p ++ 0x2F :: (region ++ m))) = none) :
    (lookup rt prices (p ++ 0x2F :: m) = prices m ∧
        lookup rt prices (region ++ m) = prices m ∧
        lookup rt prices (p ++ 0x2F :: (region ++ m)) = prices m) ↔
      (bareKey rt m ≠ [] ∧ prices (bareKey rt m) = prices m) ∧
        ∃ front ∈ regions, ∃ rest, lowerName rt (p ++ 0x2F :: (region ++ m)) = front ++ rest ∧
          prices rest = prices m := by
  rw [keyed, lookup_both table providerSlash member unlistedRegion unlistedBoth,
    lookup_region table member modelSlash unlistedRegion, ← priceAt_eq_some]
  constructor
  · rintro ⟨_, regional, both⟩
    exact ⟨regional, both⟩
  · rintro ⟨regional, both⟩
    refine ⟨?_, regional, both⟩
    rw [lookup_provider table providerSlash unlistedProvider, regional]
    rfl

end Routing

theorem exactPlatform_lowers : LowerTable exactPlatform.toLowerRune where
  ascii := fun _ _ => rfl
  scalar := by
    intro r scalar
    simp only [exactPlatform, plainPlatform, IsScalar] at scalar ⊢
    split <;> omega
  slash := by
    intro r same
    simp only [exactPlatform, plainPlatform] at same
    split at same <;> omega

/-- A Claude model through Bedrock's US inference profile, named as a router names it. -/
theorem routed_regional_unpriced :
    defaultPrices (lit "claude-sonnet-4-6") = some ⟨⟨0.000003, 0.000015, 0.0000003, 0.00000375⟩, []⟩ ∧
      defaultPrices (lowerName exactPlatform (lit "bedrock/claude-sonnet-4-6")) = none ∧
      defaultPrices (lowerName exactPlatform (lit "us.claude-sonnet-4-6")) = none ∧
      defaultPrices (lowerName exactPlatform (lit "bedrock/us.claude-sonnet-4-6")) = none ∧
      lookup exactPlatform defaultPrices (lit "bedrock/us.claude-sonnet-4-6") = none := by
  refine ⟨?_, ?_, ?_, ?_, ?_⟩
  all_goals decide +kernel

/-- A table that lists a provider's regional id without the region in front. -/
def routedPrices : Prices := fun model => ([
  (lit "m", ⟨⟨0.000003, 0.000015, 0, 0⟩, []⟩),
  (lit "bedrock/eu.m", ⟨⟨0.000003, 0.000015, 0, 0⟩, []⟩)] : List (Str × ModelPrice)).lookup model

theorem routedPrices_compose :
    lookup exactPlatform routedPrices (lit "us.bedrock/eu.m") = routedPrices (lit "m") := by
  have keyed : routedPrices (lit "m") = some ⟨⟨0.000003, 0.000015, 0, 0⟩, []⟩ := by decide +kernel
  have names : lit "us.bedrock/eu.m" = lit "us.bedrock" ++ 0x2F :: (lit "eu." ++ lit "m") := by
    decide +kernel
  have compose := prefixes_compose_iff exactPlatform_lowers keyed (p := lit "us.bedrock")
    (by decide +kernel) (by decide +kernel) (show lit "eu." ∈ regions by decide)
    (by decide +kernel) (by decide +kernel) (by decide +kernel)
  rw [names]
  refine (compose.mpr ⟨by decide +kernel, lit "us.", by decide, lit "bedrock/eu.m", ?_, ?_⟩).2.2
  · decide +kernel
  · decide +kernel

end Tracium.Pricing
