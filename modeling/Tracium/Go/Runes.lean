import Tracium.Go.Utf8

/-! Strings as sequences of runes. Encoding a sequence of scalar values and decoding it
again gives the sequence back, so trimming, filtering and cutting a string can be read
off its runes. -/
namespace Go

/-- A Unicode scalar value: what a valid decoding step can report. -/
def IsScalar (r : Nat) : Prop := r < 0xD800 ∨ (0xE000 ≤ r ∧ r < 0x110000)

def runes (s : Str) : List Nat := (pieces s).map Piece.rune

def encodeAll (rs : List Nat) : Str := rs.flatMap encodeRune

/-- The piece a scalar value encodes to. -/
def validPiece (r : Nat) : Piece := ⟨r, encodeRune r, true⟩

/-! Decoding without fuel. -/

theorem piecesFrom_fuel (s : Str) {fuel more : Nat} (enough : s.length ≤ fuel)
    (also : s.length ≤ more) : piecesFrom fuel s = piecesFrom more s := by
  induction fuel generalizing s more with
  | zero =>
    have empty : s = [] := List.eq_nil_of_length_eq_zero (by omega)
    subst empty
    cases more <;> rfl
  | succ fuel ih =>
    cases s with
    | nil => cases more <;> rfl
    | cons b rest =>
      cases more with
      | zero => simp at also
      | succ more =>
        obtain ⟨tail, front, nonempty⟩ := decodeRune_front b rest
        have lengths := congrArg List.length front
        have positive := List.length_pos_of_ne_nil nonempty
        have dropped : (b :: rest).drop (decodeRune b rest).bytes.length = tail := by
          rw [front, List.drop_left]
        simp only [List.length_cons, List.length_append] at lengths enough also
        have same : piecesFrom fuel tail = piecesFrom more tail := ih tail (by omega) (by omega)
        rw [piecesFrom, piecesFrom, dropped, same]

@[simp] theorem pieces_nil : pieces [] = [] := rfl

/-- One step of a range over a string. -/
theorem pieces_cons {b : UInt8} {rest tail : Str}
    (front : b :: rest = (decodeRune b rest).bytes ++ tail) :
    pieces (b :: rest) = decodeRune b rest :: pieces tail := by
  have nonempty : (decodeRune b rest).bytes ≠ [] := (decodeRune_front b rest).choose_spec.2
  have positive := List.length_pos_of_ne_nil nonempty
  have lengths := congrArg List.length front
  simp only [List.length_cons, List.length_append] at lengths
  have dropped : (b :: rest).drop (decodeRune b rest).bytes.length = tail := by
    rw [front, List.drop_left]
  unfold pieces
  rw [List.length_cons, piecesFrom, dropped, piecesFrom_fuel tail (by omega) (Nat.le_refl _)]

/-! What a lead byte announces. -/

theorem lead_two {b : UInt8} (low : 0xC2 ≤ b.toNat) (high : b.toNat ≤ 0xDF) :
    lead b = some (2, 0x80, 0xBF) := by
  simp only [lead, UInt8.le_iff_toNat_le, UInt8.reduceToNat]
  rw [if_pos ⟨low, high⟩]

theorem lead_three {b : UInt8} (low : 0xE0 ≤ b.toNat) (high : b.toNat ≤ 0xEF) :
    lead b = some (3, if b.toNat = 0xE0 then 0xA0 else 0x80,
      if b.toNat = 0xED then 0x9F else 0xBF) := by
  simp only [lead, UInt8.le_iff_toNat_le, ← UInt8.toNat_inj, UInt8.reduceToNat]
  rw [if_neg (by omega)]
  by_cases first : b.toNat = 0xE0
  · rw [if_pos first, if_pos first, if_neg (by omega)]
  · rw [if_neg first, if_neg first]
    by_cases surrogate : b.toNat = 0xED
    · rw [if_pos surrogate, if_pos surrogate]
    · rw [if_neg surrogate, if_neg surrogate, if_pos (by omega)]

theorem lead_four {b : UInt8} (low : 0xF0 ≤ b.toNat) (high : b.toNat ≤ 0xF4) :
    lead b = some (4, if b.toNat = 0xF0 then 0x90 else 0x80,
      if b.toNat = 0xF4 then 0x8F else 0xBF) := by
  simp only [lead, UInt8.le_iff_toNat_le, ← UInt8.toNat_inj, UInt8.reduceToNat]
  rw [if_neg (by omega), if_neg (by omega), if_neg (by omega), if_neg (by omega)]
  by_cases first : b.toNat = 0xF0
  · rw [if_pos first, if_pos first, if_neg (by omega)]
  · rw [if_neg first, if_neg first]
    by_cases last : b.toNat = 0xF4
    · rw [if_neg (by omega), if_pos last, if_pos last]
    · rw [if_pos (by omega), if_neg last]

theorem lead_none {b : UInt8} (low : 0x80 ≤ b.toNat) (high : b.toNat ≤ 0xBF) : lead b = none := by
  simp only [lead, UInt8.le_iff_toNat_le, ← UInt8.toNat_inj, UInt8.reduceToNat]
  rw [if_neg (by omega), if_neg (by omega), if_neg (by omega), if_neg (by omega), if_neg (by omega),
    if_neg (by omega), if_neg (by omega)]

/-! Decoding an encoded scalar value. -/

theorem toNat_ofNat_byte {n : Nat} (h : n < 256) : (UInt8.ofNat n).toNat = n := by
  rw [UInt8.toNat_ofNat']
  omega

theorem decodeRune_one {b : UInt8} (ascii : b.toNat < 0x80) (tail : Str) :
    decodeRune b tail = ⟨b.toNat, [b], true⟩ := by
  have low : b < 0x80 := by
    simpa only [UInt8.lt_iff_toNat_lt, UInt8.reduceToNat] using ascii
  unfold decodeRune
  rw [if_pos low]

theorem not_ascii {b : UInt8} (high : 0x80 ≤ b.toNat) : ¬b < 0x80 := by
  simp only [UInt8.lt_iff_toNat_lt, UInt8.reduceToNat]
  omega

theorem decodeRune_two {b c lo hi : UInt8} (high : 0x80 ≤ b.toNat)
    (announced : lead b = some (2, lo, hi)) (inside : lo ≤ c ∧ c ≤ hi) (tail : Str) :
    decodeRune b (c :: tail) =
      ⟨b.toNat % 0x20 * 0x40 + c.toNat % 0x40, [b, c], true⟩ := by
  unfold decodeRune
  rw [if_neg (not_ascii high), announced]
  simp only [inside, and_self, ↓reduceIte]

theorem decodeRune_three {b c d lo hi : UInt8} (high : 0x80 ≤ b.toNat)
    (announced : lead b = some (3, lo, hi)) (inside : lo ≤ c ∧ c ≤ hi ∧ isTail d = true)
    (tail : Str) :
    decodeRune b (c :: d :: tail) =
      ⟨b.toNat % 0x10 * 0x1000 + c.toNat % 0x40 * 0x40 + d.toNat % 0x40, [b, c, d], true⟩ := by
  unfold decodeRune
  rw [if_neg (not_ascii high), announced]
  simp only [inside, and_self, ↓reduceIte]

theorem decodeRune_four {b c d e lo hi : UInt8} (high : 0x80 ≤ b.toNat)
    (announced : lead b = some (4, lo, hi))
    (inside : lo ≤ c ∧ c ≤ hi ∧ isTail d = true ∧ isTail e = true) (tail : Str) :
    decodeRune b (c :: d :: e :: tail) =
      ⟨b.toNat % 0x08 * 0x40000 + c.toNat % 0x40 * 0x1000 + d.toNat % 0x40 * 0x40 + e.toNat % 0x40,
        [b, c, d, e], true⟩ := by
  unfold decodeRune
  rw [if_neg (not_ascii high), announced]
  simp only [inside, and_self, ↓reduceIte]

/-- Everything a decoding step can do. -/
theorem decodeRune_cases (b : UInt8) (rest : Str) :
    b.toNat < 0x80 ∨
    (∃ c tail lo hi, rest = c :: tail ∧ 0x80 ≤ b.toNat ∧ lead b = some (2, lo, hi) ∧
      (lo ≤ c ∧ c ≤ hi)) ∨
    (∃ c d tail lo hi, rest = c :: d :: tail ∧ 0x80 ≤ b.toNat ∧ lead b = some (3, lo, hi) ∧
      (lo ≤ c ∧ c ≤ hi ∧ isTail d = true)) ∨
    (∃ c d e tail lo hi, rest = c :: d :: e :: tail ∧ 0x80 ≤ b.toNat ∧ lead b = some (4, lo, hi) ∧
      (lo ≤ c ∧ c ≤ hi ∧ isTail d = true ∧ isTail e = true)) ∨
    decodeRune b rest = invalidPiece b := by
  by_cases ascii : b.toNat < 0x80
  · exact .inl ascii
  have high : 0x80 ≤ b.toNat := by omega
  by_cases invalid : (decodeRune b rest).valid = false
  · exact .inr (.inr (.inr (.inr (decodeRune_invalid b rest invalid))))
  right
  unfold decodeRune at invalid
  rw [if_neg (not_ascii high)] at invalid
  split at invalid
  · rename_i lo hi c tail announced
    split at invalid
    · rename_i inside
      exact .inl ⟨c, tail, lo, hi, rfl, high, announced, inside⟩
    · exact absurd rfl invalid
  · rename_i lo hi c d tail announced
    split at invalid
    · rename_i inside
      exact .inr (.inl ⟨c, d, tail, lo, hi, rfl, high, announced, inside⟩)
    · exact absurd rfl invalid
  · rename_i lo hi c d e tail announced
    split at invalid
    · rename_i inside
      exact .inr (.inr (.inl ⟨c, d, e, tail, lo, hi, rfl, high, announced, inside⟩))
    · exact absurd rfl invalid
  · exact absurd rfl invalid

theorem decodeRune_scalar (b : UInt8) (rest : Str) : IsScalar (decodeRune b rest).rune := by
  unfold IsScalar
  rcases decodeRune_cases b rest with ascii | ⟨c, tail, lo, hi, rfl, high, announced, inside⟩ |
    ⟨c, d, tail, lo, hi, rfl, high, announced, inside⟩ |
    ⟨c, d, e, tail, lo, hi, rfl, high, announced, inside⟩ | invalid
  · rw [decodeRune_one ascii]
    dsimp only
    omega
  · rw [decodeRune_two high announced inside]
    dsimp only
    omega
  · rw [decodeRune_three high announced inside]
    have range := lead_cases announced
    rw [lead_three (by omega) (by omega), Option.some.injEq, Prod.mk.injEq, Prod.mk.injEq] at announced
    obtain ⟨-, -, rfl⟩ := announced
    simp only [UInt8.le_iff_toNat_le, apply_ite UInt8.toNat, UInt8.reduceToNat] at inside
    dsimp only
    have upper := inside.2.1
    split at upper <;> omega
  · rw [decodeRune_four high announced inside]
    have range := lead_cases announced
    rw [lead_four (by omega) (by omega), Option.some.injEq, Prod.mk.injEq, Prod.mk.injEq] at announced
    obtain ⟨-, rfl, rfl⟩ := announced
    simp only [UInt8.le_iff_toNat_le, apply_ite UInt8.toNat, UInt8.reduceToNat] at inside
    dsimp only
    have lower := inside.1
    have upper := inside.2.1
    split at lower <;> split at upper <;> omega
  · rw [invalid]
    simp [invalidPiece, runeError]

/-- A valid step reads nothing past its own bytes. -/
theorem decodeRune_append {b : UInt8} {rest : Str} (valid : (decodeRune b rest).valid = true)
    (more : Str) : decodeRune b (rest ++ more) = decodeRune b rest := by
  rcases decodeRune_cases b rest with ascii | ⟨c, tail, lo, hi, rfl, high, announced, inside⟩ |
    ⟨c, d, tail, lo, hi, rfl, high, announced, inside⟩ |
    ⟨c, d, e, tail, lo, hi, rfl, high, announced, inside⟩ | invalid
  · rw [decodeRune_one ascii, decodeRune_one ascii]
  · rw [decodeRune_two high announced inside]
    exact decodeRune_two high announced inside (tail ++ more)
  · rw [decodeRune_three high announced inside]
    exact decodeRune_three high announced inside (tail ++ more)
  · rw [decodeRune_four high announced inside]
    exact decodeRune_four high announced inside (tail ++ more)
  · rw [invalid] at valid
    cases valid

/-- A step whose bytes are all in front of the cut is not changed by the cut. -/
theorem decodeRune_cut {b : UInt8} {rest more : Str}
    (inFront : (decodeRune b (rest ++ more)).bytes.length ≤ rest.length + 1) :
    decodeRune b rest = decodeRune b (rest ++ more) := by
  by_cases valid : (decodeRune b rest).valid = true
  · exact (decodeRune_append valid more).symm
  have invalid : decodeRune b rest = invalidPiece b :=
    decodeRune_invalid b rest (by simpa using valid)
  rcases decodeRune_cases b (rest ++ more) with ascii | ⟨c, tail, lo, hi, eq, high, announced, inside⟩ |
    ⟨c, d, tail, lo, hi, eq, high, announced, inside⟩ |
    ⟨c, d, e, tail, lo, hi, eq, high, announced, inside⟩ | same
  · rw [decodeRune_one ascii, decodeRune_one ascii]
  · rw [eq, decodeRune_two high announced inside] at inFront ⊢
    rcases rest with _ | ⟨c', rest⟩
    · simp at inFront
    · rw [List.cons_append, List.cons.injEq] at eq
      obtain ⟨rfl, -⟩ := eq
      exact decodeRune_two high announced inside rest
  · rw [eq, decodeRune_three high announced inside] at inFront ⊢
    rcases rest with _ | ⟨c', _ | ⟨d', rest⟩⟩
    · simp at inFront
    · simp at inFront
    · rw [List.cons_append, List.cons_append, List.cons.injEq, List.cons.injEq] at eq
      obtain ⟨rfl, rfl, -⟩ := eq
      exact decodeRune_three high announced inside rest
  · rw [eq, decodeRune_four high announced inside] at inFront ⊢
    rcases rest with _ | ⟨c', _ | ⟨d', _ | ⟨e', rest⟩⟩⟩
    · simp at inFront
    · simp at inFront
    · simp at inFront
    · rw [List.cons_append, List.cons_append, List.cons_append, List.cons.injEq, List.cons.injEq,
        List.cons.injEq] at eq
      obtain ⟨rfl, rfl, rfl, -⟩ := eq
      exact decodeRune_four high announced inside rest
  · rw [invalid, same]

/-- What the encoding of a scalar value starts with decodes to it, whatever follows. -/
theorem decodeRune_encodeRune {r : Nat} (scalar : IsScalar r) (tail : Str) :
    ∃ b rest, encodeRune r ++ tail = b :: rest ∧ decodeRune b rest = validPiece r := by
  unfold IsScalar at scalar
  unfold validPiece
  by_cases one : r < 0x80
  · have byte : (UInt8.ofNat r).toNat = r := toNat_ofNat_byte (by omega)
    have encoded : encodeRune r = [UInt8.ofNat r] := by rw [encodeRune, if_pos one]
    refine ⟨UInt8.ofNat r, tail, by rw [encoded]; rfl, ?_⟩
    rw [decodeRune_one (by omega), encoded, byte]
  by_cases two : r < 0x800
  · generalize first : UInt8.ofNat (0xC0 + r / 0x40) = b
    generalize second : UInt8.ofNat (0x80 + r % 0x40) = c
    have hb : b.toNat = 0xC0 + r / 0x40 := first ▸ toNat_ofNat_byte (by omega)
    have hc : c.toNat = 0x80 + r % 0x40 := second ▸ toNat_ofNat_byte (by omega)
    have encoded : encodeRune r = [b, c] := by
      rw [encodeRune, if_neg one, if_pos two, first, second]
    have inside : (0x80 : UInt8) ≤ c ∧ c ≤ 0xBF := by
      simp only [UInt8.le_iff_toNat_le, UInt8.reduceToNat]
      omega
    have value : b.toNat % 0x20 * 0x40 + c.toNat % 0x40 = r := by omega
    refine ⟨b, c :: tail, by rw [encoded]; rfl, ?_⟩
    rw [decodeRune_two (by omega) (lead_two (by omega) (by omega)) inside, value, encoded]
  by_cases three : r < 0x10000
  · generalize first : UInt8.ofNat (0xE0 + r / 0x1000) = b
    generalize second : UInt8.ofNat (0x80 + r / 0x40 % 0x40) = c
    generalize third : UInt8.ofNat (0x80 + r % 0x40) = d
    have hb : b.toNat = 0xE0 + r / 0x1000 := first ▸ toNat_ofNat_byte (by omega)
    have hc : c.toNat = 0x80 + r / 0x40 % 0x40 := second ▸ toNat_ofNat_byte (by omega)
    have hd : d.toNat = 0x80 + r % 0x40 := third ▸ toNat_ofNat_byte (by omega)
    have encoded : encodeRune r = [b, c, d] := by
      rw [encodeRune, if_neg one, if_neg two, if_pos three, first, second, third]
    have inside : (if b.toNat = 0xE0 then (0xA0 : UInt8) else 0x80) ≤ c ∧
        c ≤ (if b.toNat = 0xED then (0x9F : UInt8) else 0xBF) ∧ isTail d = true := by
      simp only [isTail, Bool.and_eq_true, decide_eq_true_eq, UInt8.le_iff_toNat_le,
        apply_ite UInt8.toNat, UInt8.reduceToNat]
      split <;> split <;> omega
    have value : b.toNat % 0x10 * 0x1000 + c.toNat % 0x40 * 0x40 + d.toNat % 0x40 = r := by omega
    refine ⟨b, c :: d :: tail, by rw [encoded]; rfl, ?_⟩
    rw [decodeRune_three (by omega) (lead_three (by omega) (by omega)) inside, value, encoded]
  · generalize first : UInt8.ofNat (0xF0 + r / 0x40000) = b
    generalize second : UInt8.ofNat (0x80 + r / 0x1000 % 0x40) = c
    generalize third : UInt8.ofNat (0x80 + r / 0x40 % 0x40) = d
    generalize fourth : UInt8.ofNat (0x80 + r % 0x40) = e
    have hb : b.toNat = 0xF0 + r / 0x40000 := first ▸ toNat_ofNat_byte (by omega)
    have hc : c.toNat = 0x80 + r / 0x1000 % 0x40 := second ▸ toNat_ofNat_byte (by omega)
    have hd : d.toNat = 0x80 + r / 0x40 % 0x40 := third ▸ toNat_ofNat_byte (by omega)
    have he : e.toNat = 0x80 + r % 0x40 := fourth ▸ toNat_ofNat_byte (by omega)
    have encoded : encodeRune r = [b, c, d, e] := by
      rw [encodeRune, if_neg one, if_neg two, if_neg three, first, second, third, fourth]
    have inside : (if b.toNat = 0xF0 then (0x90 : UInt8) else 0x80) ≤ c ∧
        c ≤ (if b.toNat = 0xF4 then (0x8F : UInt8) else 0xBF) ∧ isTail d = true ∧
        isTail e = true := by
      simp only [isTail, Bool.and_eq_true, decide_eq_true_eq, UInt8.le_iff_toNat_le,
        apply_ite UInt8.toNat, UInt8.reduceToNat]
      split <;> split <;> omega
    have value : b.toNat % 0x08 * 0x40000 + c.toNat % 0x40 * 0x1000 + d.toNat % 0x40 * 0x40 +
        e.toNat % 0x40 = r := by omega
    refine ⟨b, c :: d :: e :: tail, by rw [encoded]; rfl, ?_⟩
    rw [decodeRune_four (by omega) (lead_four (by omega) (by omega)) inside, value, encoded]

theorem pieces_encodeRune_append {r : Nat} (scalar : IsScalar r) (tail : Str) :
    pieces (encodeRune r ++ tail) = validPiece r :: pieces tail := by
  obtain ⟨b, rest, split, decoded⟩ := decodeRune_encodeRune scalar tail
  have front : b :: rest = (decodeRune b rest).bytes ++ tail := by
    rw [decoded, ← split]
    rfl
  rw [split, pieces_cons front, decoded]

theorem pieces_encodeAll {rs : List Nat} (scalars : ∀ r ∈ rs, IsScalar r) :
    pieces (encodeAll rs) = rs.map validPiece := by
  induction rs with
  | nil => rfl
  | cons r rs ih =>
    have later : pieces (encodeAll rs) = rs.map validPiece :=
      ih fun x member => scalars x (List.mem_cons_of_mem r member)
    have split : encodeAll (r :: rs) = encodeRune r ++ encodeAll rs := List.flatMap_cons
    rw [split, pieces_encodeRune_append (scalars r List.mem_cons_self), later, List.map_cons]

theorem runes_encodeAll {rs : List Nat} (scalars : ∀ r ∈ rs, IsScalar r) :
    runes (encodeAll rs) = rs := by
  rw [runes, pieces_encodeAll scalars, List.map_map]
  exact List.map_id rs

theorem validString_encodeAll {rs : List Nat} (scalars : ∀ r ∈ rs, IsScalar r) :
    validString (encodeAll rs) = true := by
  rw [validString, pieces_encodeAll scalars, List.all_map, List.all_eq_true]
  intro r _
  rfl

theorem runes_scalar (s : Str) : ∀ r ∈ runes s, IsScalar r := by
  intro r member
  obtain ⟨piece, inside, rfl⟩ := List.mem_map.mp member
  obtain ⟨b, rest, rfl⟩ := piecesFrom_decoded s.length s piece inside
  exact decodeRune_scalar b rest

theorem mapRunes_eq (mapping : Nat → Option Nat) (s : Str) :
    mapRunes mapping s = encodeAll ((runes s).filterMap mapping) := by
  unfold mapRunes encodeAll runes
  induction pieces s with
  | nil => rfl
  | cons piece rest ih =>
    rw [List.flatMap_cons, ih, List.map_cons]
    cases mapped : mapping piece.rune with
    | none => rw [List.filterMap_cons_none mapped, List.nil_append]
    | some r => rw [List.filterMap_cons_some mapped, List.flatMap_cons]

theorem encodeAll_append (front back : List Nat) :
    encodeAll (front ++ back) = encodeAll front ++ encodeAll back := List.flatMap_append

theorem encodeAll_inj {rs rs' : List Nat} (scalars : ∀ r ∈ rs, IsScalar r)
    (scalars' : ∀ r ∈ rs', IsScalar r) (same : encodeAll rs = encodeAll rs') : rs = rs' := by
  rw [← runes_encodeAll scalars, same, runes_encodeAll scalars']

theorem encodeRune_length (r : Nat) : 0 < (encodeRune r).length ∧ (encodeRune r).length ≤ 4 := by
  unfold encodeRune
  split
  · simp
  split
  · simp
  split <;> simp

end Go
