import Tracium.Go.Cut

/-! ASCII inside strings of arbitrary bytes. An ASCII byte is a character by itself
wherever it stands, so a string splits at it into two strings decoded on their own. -/
namespace Go

def IsAscii (s : Str) : Prop := ∀ b ∈ s, b.toNat < 0x80

/-- The characters of printable ASCII, the space included. -/
def isPrintable (b : UInt8) : Bool := 0x20 ≤ b.toNat && b.toNat < 0x7F

/-- The piece of an ASCII byte. -/
def asciiPiece (b : UInt8) : Piece := ⟨b.toNat, [b], true⟩

theorem encodeRune_ascii {b : UInt8} (ascii : b.toNat < 0x80) : encodeRune b.toNat = [b] := by
  rw [encodeRune, if_pos ascii, ofNat_eq rfl]

theorem pieces_cons_ascii {b : UInt8} (ascii : b.toNat < 0x80) (tail : Str) :
    pieces (b :: tail) = asciiPiece b :: pieces tail := by
  have decoded : decodeRune b tail = asciiPiece b := decodeRune_one ascii tail
  have front : b :: tail = (decodeRune b tail).bytes ++ tail := by
    rw [decoded]
    rfl
  rw [pieces_cons front, decoded]

theorem pieces_append_of_ascii {s : Str} (ascii : IsAscii s) (tail : Str) :
    pieces (s ++ tail) = s.map asciiPiece ++ pieces tail := by
  induction s with
  | nil => rfl
  | cons b rest ih =>
    have later : IsAscii rest := fun c member => ascii c (List.mem_cons_of_mem b member)
    rw [List.cons_append, pieces_cons_ascii (ascii b List.mem_cons_self), ih later]
    rfl

theorem runes_append_of_ascii {s : Str} (ascii : IsAscii s) (tail : Str) :
    runes (s ++ tail) = s.map UInt8.toNat ++ runes tail := by
  rw [runes, pieces_append_of_ascii ascii, List.map_append, List.map_map]
  rfl

theorem runes_ascii {s : Str} (ascii : IsAscii s) : runes s = s.map UInt8.toNat := by
  have whole := runes_append_of_ascii ascii []
  have none : runes [] = [] := rfl
  rwa [List.append_nil, none, List.append_nil] at whole

theorem encodeAll_ascii {s : Str} (ascii : IsAscii s) : encodeAll (s.map UInt8.toNat) = s := by
  induction s with
  | nil => rfl
  | cons b rest ih =>
    have later : IsAscii rest := fun c member => ascii c (List.mem_cons_of_mem b member)
    have first : encodeRune b.toNat = [b] := encodeRune_ascii (ascii b List.mem_cons_self)
    have split : encodeAll ((b :: rest).map UInt8.toNat) =
        encodeRune b.toNat ++ encodeAll (rest.map UInt8.toNat) := List.flatMap_cons
    rw [split, first, ih later]
    rfl

/-! A decoding step never reads past an ASCII byte: the tail bytes of a character are
all above it. -/

theorem isTail_iff (b : UInt8) : isTail b = true ↔ 0x80 ≤ b.toNat ∧ b.toNat ≤ 0xBF := by
  simp [isTail, UInt8.le_iff_toNat_le]

/-- The bytes of a character behind its first one. -/
theorem decodeRune_tail (b : UInt8) (rest : Str) :
    ∃ own, (decodeRune b rest).bytes = b :: own ∧ ∀ c ∈ own, 0x80 ≤ c.toNat := by
  rcases decodeRune_cases b rest with ascii | ⟨c, tail, lo, hi, rfl, high, announced, inside⟩ |
    ⟨c, d, tail, lo, hi, rfl, high, announced, inside⟩ |
    ⟨c, d, e, tail, lo, hi, rfl, high, announced, inside⟩ | invalid
  · exact ⟨[], by rw [decodeRune_one ascii], by simp⟩
  · have range := lead_cases announced
    refine ⟨[c], by rw [decodeRune_two high announced inside], ?_⟩
    simp only [UInt8.le_iff_toNat_le] at inside
    simp only [List.mem_singleton, forall_eq]
    omega
  · have range := lead_cases announced
    refine ⟨[c, d], by rw [decodeRune_three high announced inside], ?_⟩
    simp only [UInt8.le_iff_toNat_le, isTail_iff] at inside
    simp only [List.mem_cons, List.not_mem_nil, or_false, forall_eq_or_imp, forall_eq]
    omega
  · have range := lead_cases announced
    refine ⟨[c, d, e], by rw [decodeRune_four high announced inside], ?_⟩
    simp only [UInt8.le_iff_toNat_le, isTail_iff] at inside
    simp only [List.mem_cons, List.not_mem_nil, or_false, forall_eq_or_imp, forall_eq]
    omega
  · exact ⟨[], by rw [invalid]; rfl, by simp⟩

theorem decodeRune_before_ascii (c : UInt8) (rest : Str) {b : UInt8} (ascii : b.toNat < 0x80)
    (tail : Str) : decodeRune c (rest ++ b :: tail) = decodeRune c rest := by
  obtain ⟨own, bytes, high⟩ := decodeRune_tail c (rest ++ b :: tail)
  obtain ⟨after, front, _⟩ := decodeRune_front c (rest ++ b :: tail)
  symm
  apply decodeRune_cut
  rw [bytes, List.cons_append, List.cons.injEq] at front
  rw [bytes, List.length_cons]
  by_contra long
  have reached : b ∈ own := by
    have position : (own ++ after)[rest.length]? = some b := by
      rw [← front.2]
      simp
    rw [List.getElem?_append_left (by omega)] at position
    exact List.mem_of_getElem? position
  exact absurd (high b reached) (by omega)

theorem pieces_append_ascii (s : Str) {b : UInt8} (ascii : b.toNat < 0x80) (tail : Str) :
    pieces (s ++ b :: tail) = pieces s ++ asciiPiece b :: pieces tail := by
  induction size : s.length using Nat.strong_induction_on generalizing s with
  | _ n ih =>
    cases s with
    | nil => exact pieces_cons_ascii ascii tail
    | cons c rest =>
      obtain ⟨after, front, nonempty⟩ := decodeRune_front c rest
      have positive := List.length_pos_of_ne_nil nonempty
      have lengths := congrArg List.length front
      rw [List.length_append] at lengths
      have same : decodeRune c (rest ++ b :: tail) = decodeRune c rest :=
        decodeRune_before_ascii c rest ascii tail
      have longer : c :: (rest ++ b :: tail) =
          (decodeRune c (rest ++ b :: tail)).bytes ++ (after ++ b :: tail) := by
        rw [same, ← List.append_assoc, ← front]
        rfl
      rw [List.cons_append, pieces_cons longer, same, pieces_cons front, List.cons_append,
        ih after.length (by omega) after rfl]

theorem runes_append_ascii (s : Str) {b : UInt8} (ascii : b.toNat < 0x80) (tail : Str) :
    runes (s ++ b :: tail) = runes s ++ b.toNat :: runes tail := by
  rw [runes, pieces_append_ascii s ascii, List.map_append, List.map_cons]
  rfl

/-! Trimming. -/

theorem trimSpace_eq_self_iff (s : Str) : trimSpace s = s ↔ Neat (runes s) := by
  rw [← trimRunes_eq_self_iff, ← runes_trimSpace]
  constructor
  · exact congrArg runes
  · intro same
    have inside : pieces (trimSpace s) <:+: pieces s := by
      rw [pieces_trimSpace]
      exact (List.rdropWhile_prefix _ _).isInfix.trans (List.dropWhile_suffix _).isInfix
    have lengths := congrArg List.length same
    simp only [runes, List.length_map] at lengths
    have whole : pieces (trimSpace s) = pieces s := inside.eq_of_length lengths
    rw [← pieces_bytes (trimSpace s), whole, pieces_bytes]

theorem neat_map {f : Nat → Nat} {rs : List Nat} (keeps : ∀ r, isSpace (f r) = isSpace r) :
    Neat (rs.map f) ↔ Neat rs := by
  simp [Neat, keeps]

/-! Lower case. -/

/-- unicode.ToLower on ASCII. -/
def asciiLowerRune (r : Nat) : Nat := if 0x41 ≤ r ∧ r ≤ 0x5A then r + 0x20 else r

theorem asciiLower_toNat (b : UInt8) : (asciiLower b).toNat = asciiLowerRune b.toNat := by
  simp only [asciiLower, asciiLowerRune, UInt8.le_iff_toNat_le, UInt8.reduceToNat]
  split
  · have added := UInt8.toNat_add b 0x20
    simp only [UInt8.reduceToNat] at added
    omega
  · rfl

theorem asciiLowerRune_idem (r : Nat) : asciiLowerRune (asciiLowerRune r) = asciiLowerRune r := by
  unfold asciiLowerRune
  split
  · rw [if_neg (by omega)]
  · rfl

@[simp] theorem asciiLower_idem (b : UInt8) : asciiLower (asciiLower b) = asciiLower b := by
  apply UInt8.toNat_inj.mp
  rw [asciiLower_toNat, asciiLower_toNat, asciiLowerRune_idem]

theorem isSpace_asciiLowerRune (r : Nat) : isSpace (asciiLowerRune r) = isSpace r := by
  unfold asciiLowerRune
  split
  · have letter : isSpace r = false := by
      simp [isSpace]
      omega
    have lower : isSpace (r + 0x20) = false := by
      simp [isSpace]
      omega
    rw [letter, lower]
  · rfl

theorem isAscii_lower {s : Str} (ascii : IsAscii s) : IsAscii (s.map asciiLower) := by
  intro b member
  obtain ⟨c, inside, rfl⟩ := List.mem_map.mp member
  have low := ascii c inside
  rw [asciiLower_toNat, asciiLowerRune]
  split <;> omega

theorem toLower_ascii (f : Nat → Nat) {s : Str} (ascii : IsAscii s) :
    toLower f s = s.map asciiLower := by
  apply if_pos
  rw [List.all_eq_true]
  intro b member
  have low := ascii b member
  simpa [UInt8.lt_iff_toNat_lt] using low

theorem runes_lower {s : Str} (ascii : IsAscii s) :
    runes (s.map asciiLower) = (runes s).map asciiLowerRune := by
  rw [runes_ascii (isAscii_lower ascii), runes_ascii ascii, List.map_map, List.map_map]
  apply List.map_congr_left
  intro b _
  exact asciiLower_toNat b

/-- Lower-casing leaves the white space of an ASCII string where it is. -/
theorem trimSpace_lower {s : Str} (ascii : IsAscii s) (trimmed : trimSpace s = s) :
    trimSpace (s.map asciiLower) = s.map asciiLower := by
  rw [trimSpace_eq_self_iff, runes_lower ascii, neat_map isSpace_asciiLowerRune]
  exact (trimSpace_eq_self_iff s).mp trimmed

/-! ASCII bytes are the ASCII runes. -/

theorem decodeRune_ascii_iff (c : UInt8) (rest : Str) {b : UInt8} (ascii : b.toNat < 0x80) :
    (decodeRune c rest).rune = b.toNat ↔ b ∈ (decodeRune c rest).bytes := by
  by_cases low : c.toNat < 0x80
  · rw [decodeRune_one low]
    simp [UInt8.toNat_inj, eq_comm]
  obtain ⟨own, bytes, high⟩ := decodeRune_tail c rest
  have absent : b ∉ (decodeRune c rest).bytes := by
    rw [bytes, List.mem_cons]
    rintro (rfl | inside)
    · exact low ascii
    · exact absurd (high b inside) (by omega)
  refine iff_of_false ?_ absent
  intro same
  by_cases valid : (decodeRune c rest).valid = true
  · have encoded := encodeRune_decodeRune c rest valid
    rw [same, encodeRune_ascii ascii] at encoded
    rw [← encoded] at absent
    exact absent List.mem_cons_self
  · rw [decodeRune_invalid c rest (by simpa using valid)] at same
    simp only [invalidPiece, runeError] at same
    omega

theorem ascii_mem_runes (s : Str) {b : UInt8} (ascii : b.toNat < 0x80) :
    b.toNat ∈ runes s ↔ b ∈ s := by
  have bytes : b ∈ s ↔ ∃ piece ∈ pieces s, b ∈ piece.bytes := by
    rw [← List.mem_flatMap, pieces_bytes]
  rw [bytes, runes, List.mem_map]
  apply exists_congr
  intro piece
  apply and_congr_right
  intro member
  obtain ⟨c, rest, rfl⟩ := piecesFrom_decoded s.length s piece member
  exact decodeRune_ascii_iff c rest ascii

theorem ascii_mem_encodeAll {rs : List Nat} (scalars : ∀ r ∈ rs, IsScalar r) {b : UInt8}
    (ascii : b.toNat < 0x80) : b ∈ encodeAll rs ↔ b.toNat ∈ rs := by
  rw [← ascii_mem_runes (encodeAll rs) ascii, runes_encodeAll scalars]

/-- What unicode.ToLower promises beside its table: ASCII is lower-cased as ASCII, a
character becomes a character, and none but the slash becomes a slash. -/
structure LowerTable (f : Nat → Nat) : Prop where
  ascii : ∀ r, r < 0x80 → f r = asciiLowerRune r
  scalar : ∀ r, IsScalar r → IsScalar (f r)
  slash : ∀ r, f r = 0x2F → r = 0x2F

/-- The ASCII path of strings.ToLower is a faster way to the same string. -/
theorem toLower_eq {f : Nat → Nat} (table : LowerTable f) (s : Str) :
    toLower f s = encodeAll ((runes s).map f) := by
  by_cases low : IsAscii s
  · have lowered : (runes s).map f = (s.map asciiLower).map UInt8.toNat := by
      rw [runes_ascii low, List.map_map, List.map_map]
      apply List.map_congr_left
      intro b member
      simp only [Function.comp_apply]
      rw [table.ascii _ (low b member), asciiLower_toNat]
    rw [toLower_ascii f low, lowered, encodeAll_ascii (isAscii_lower low)]
  · have mixed : ¬s.all (· < 0x80) = true := by
      intro all
      apply low
      intro b member
      have byte := List.all_eq_true.mp all b member
      simpa [UInt8.lt_iff_toNat_lt] using byte
    rw [toLower, if_neg mixed, mapRunes_eq]
    simp

end Go
