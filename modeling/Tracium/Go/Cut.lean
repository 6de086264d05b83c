import Tracium.Go.Runes
import Mathlib.Data.List.DropRight
import Mathlib.Data.List.Flatten

/-! Parts of a string: the pieces in front of and behind a cut at a character boundary,
trimming as an operation on runes, and cutting after a number of bytes, which may fall
inside a character. -/
namespace Go

/-! Pieces of a part of a string. -/

theorem pieces_behind {s : Str} {front back : List Piece} (split : pieces s = front ++ back) :
    pieces (back.flatMap Piece.bytes) = back := by
  induction front generalizing s with
  | nil =>
    rw [List.nil_append] at split
    rw [← split, pieces_bytes]
  | cons piece front ih =>
    cases s with
    | nil => simp at split
    | cons b rest =>
      obtain ⟨tail, whole, _⟩ := decodeRune_front b rest
      rw [pieces_cons whole, List.cons_append, List.cons.injEq] at split
      exact ih split.2

theorem pieces_ahead {s : Str} {front back : List Piece} (split : pieces s = front ++ back) :
    pieces (front.flatMap Piece.bytes) = front := by
  induction front generalizing s with
  | nil => rfl
  | cons piece front ih =>
    cases s with
    | nil => simp at split
    | cons b rest =>
      obtain ⟨tail, whole, nonempty⟩ := decodeRune_front b rest
      rw [pieces_cons whole, List.cons_append, List.cons.injEq] at split
      obtain ⟨rfl, later⟩ := split
      obtain ⟨head, own, bytes⟩ := List.exists_cons_of_ne_nil nonempty
      have whole' := whole
      rw [bytes, List.cons_append, List.cons.injEq] at whole'
      obtain ⟨rfl, restEq⟩ := whole'
      have tailEq : tail = front.flatMap Piece.bytes ++ back.flatMap Piece.bytes := by
        rw [← List.flatMap_append, ← later, pieces_bytes]
      have restSplit : rest = (own ++ front.flatMap Piece.bytes) ++ back.flatMap Piece.bytes := by
        rw [restEq, tailEq, List.append_assoc]
      -- the step read only its own bytes, all of them in front of the cut
      have same : decodeRune b (own ++ front.flatMap Piece.bytes) = decodeRune b rest := by
        have inFront : (decodeRune b ((own ++ front.flatMap Piece.bytes) ++
            back.flatMap Piece.bytes)).bytes.length ≤
            (own ++ front.flatMap Piece.bytes).length + 1 := by
          rw [← restSplit, bytes, List.length_cons, List.length_append]
          omega
        rw [decodeRune_cut inFront, ← restSplit]
      have shorter : b :: (own ++ front.flatMap Piece.bytes) =
          (decodeRune b (own ++ front.flatMap Piece.bytes)).bytes ++ front.flatMap Piece.bytes := by
        rw [same, bytes, List.cons_append]
      rw [List.flatMap_cons, bytes, List.cons_append, pieces_cons shorter, same, ih later]

/-- Leading and trailing white space removed. -/
def trimRunes (rs : List Nat) : List Nat := (rs.dropWhile isSpace).rdropWhile isSpace

theorem pieces_trimSpace (s : Str) : pieces (trimSpace s) =
    ((pieces s).dropWhile fun piece => isSpace piece.rune).rdropWhile
      fun piece => isSpace piece.rune := by
  generalize whole : (pieces s).dropWhile (fun piece => isSpace piece.rune) = front
  have behind : pieces s = (pieces s).takeWhile (fun piece => isSpace piece.rune) ++ front := by
    rw [← whole, List.takeWhile_append_dropWhile]
  have kept : pieces (front.flatMap Piece.bytes) = front := pieces_behind behind
  have ahead : pieces (front.flatMap Piece.bytes) =
      front.rdropWhile (fun piece => isSpace piece.rune) ++
        front.rtakeWhile fun piece => isSpace piece.rune := by
    rw [kept, List.rdropWhile_append_rtakeWhile]
  have trimmed : trimSpace s =
      (front.rdropWhile fun piece => isSpace piece.rune).flatMap Piece.bytes := by
    rw [← whole]
    rfl
  rw [trimmed, pieces_ahead ahead]

theorem runes_trimSpace (s : Str) : runes (trimSpace s) = trimRunes (runes s) := by
  unfold runes trimRunes
  rw [pieces_trimSpace, List.dropWhile_map]
  unfold List.rdropWhile
  rw [← List.map_reverse, List.dropWhile_map, ← List.map_reverse]
  rfl

theorem trimRunes_isInfix (rs : List Nat) : trimRunes rs <:+: rs :=
  (List.rdropWhile_prefix _ _).isInfix.trans (List.dropWhile_suffix _).isInfix

/-- Neither end of the sequence is white space. -/
def Neat (rs : List Nat) : Prop :=
  (∀ r ∈ rs.head?, isSpace r = false) ∧ ∀ r ∈ rs.getLast?, isSpace r = false

theorem dropWhile_space_eq_self_iff (rs : List Nat) :
    rs.dropWhile isSpace = rs ↔ ∀ r ∈ rs.head?, isSpace r = false := by
  rw [List.dropWhile_eq_self_iff]
  cases rs with
  | nil => simp
  | cons x rest => simp

theorem rdropWhile_space_eq_self_iff (rs : List Nat) :
    rs.rdropWhile isSpace = rs ↔ ∀ r ∈ rs.getLast?, isSpace r = false := by
  rw [List.rdropWhile_eq_self_iff]
  constructor
  · intro stays r last
    have nonempty : rs ≠ [] := by
      rintro rfl
      cases last
    have found : rs.getLast nonempty = r := by
      simpa [List.getLast?_eq_some_getLast nonempty] using last
    simpa [found] using stays nonempty
  · intro last nonempty
    simp [last (rs.getLast nonempty) (by simp [List.getLast?_eq_some_getLast nonempty])]

theorem trimRunes_eq_self_iff (rs : List Nat) : trimRunes rs = rs ↔ Neat rs := by
  rw [Neat, ← dropWhile_space_eq_self_iff, ← rdropWhile_space_eq_self_iff]
  constructor
  · intro same
    -- what is dropped in front would be missing in the end
    have front : rs.dropWhile isSpace = rs := by
      apply List.IsSuffix.eq_of_length (List.dropWhile_suffix _)
      have lengths := congrArg List.length same
      have shorter := (List.rdropWhile_prefix isSpace (rs.dropWhile isSpace)).length_le
      have also := (List.dropWhile_suffix isSpace (l := rs)).length_le
      unfold trimRunes at lengths
      omega
    rw [trimRunes, front] at same
    exact ⟨front, same⟩
  · rintro ⟨front, back⟩
    rw [trimRunes, front, back]

/-! Cutting a string after a number of bytes. -/

/-- The longest front part of a sequence whose encoding has at most `n` bytes. -/
def fitting : Nat → List Nat → List Nat
  | _, [] => []
  | n, r :: rs =>
    if (encodeRune r).length ≤ n then r :: fitting (n - (encodeRune r).length) rs else []

/-- Only invalid pieces are left out. -/
theorem toValidUTF8_sublist (s : Str) : (toValidUTF8 s).Sublist s := by
  have kept : ((pieces s).filter Piece.valid).Sublist (pieces s) := List.filter_sublist
  have bytes : (toValidUTF8 s).Sublist ((pieces s).flatMap Piece.bytes) := kept.flatMap _
  rwa [pieces_bytes] at bytes

/-- A byte that no encoding starts with decodes to nothing. -/
theorem toValidUTF8_continuation {s : Str}
    (continuation : ∀ c ∈ s, 0x80 ≤ c.toNat ∧ c.toNat ≤ 0xBF) : toValidUTF8 s = [] := by
  induction s with
  | nil => rfl
  | cons c rest ih =>
    obtain ⟨low, high⟩ := continuation c List.mem_cons_self
    have decoded : decodeRune c rest = invalidPiece c := by
      unfold decodeRune
      rw [if_neg (not_ascii low), lead_none low high]
    have front : c :: rest = (decodeRune c rest).bytes ++ rest := by
      rw [decoded]
      rfl
    have later := ih fun d member => continuation d (List.mem_cons_of_mem c member)
    unfold toValidUTF8 at later ⊢
    rw [pieces_cons front, decoded, List.filter_cons_of_neg (by simp [invalidPiece]), later]

theorem toValidUTF8_encodeRune_append {r : Nat} (scalar : IsScalar r) (tail : Str) :
    toValidUTF8 (encodeRune r ++ tail) = encodeRune r ++ toValidUTF8 tail := by
  unfold toValidUTF8
  rw [pieces_encodeRune_append scalar, List.filter_cons_of_pos rfl, List.flatMap_cons]
  rfl

/-- A lead byte whose sequence is cut short, followed by what is left of it. -/
theorem toValidUTF8_short {b : UInt8} {rest : Str} {width : Nat} {lo hi : UInt8}
    (announced : lead b = some (width, lo, hi)) (short : rest.length + 1 < width)
    (continuation : ∀ c ∈ rest, 0x80 ≤ c.toNat ∧ c.toNat ≤ 0xBF) :
    toValidUTF8 (b :: rest) = [] := by
  have range := lead_cases announced
  have decoded : decodeRune b rest = invalidPiece b := by
    rcases decodeRune_cases b rest with ascii | ⟨c, tail, lo, hi, rfl, high, again, inside⟩ |
      ⟨c, d, tail, lo, hi, rfl, high, again, inside⟩ |
      ⟨c, d, e, tail, lo, hi, rfl, high, again, inside⟩ | invalid
    · omega
    · simp only [announced, Option.some.injEq, Prod.mk.injEq, List.length_cons] at again short
      omega
    · simp only [announced, Option.some.injEq, Prod.mk.injEq, List.length_cons] at again short
      omega
    · simp only [announced, Option.some.injEq, Prod.mk.injEq, List.length_cons] at again short
      omega
    · exact invalid
  have front : b :: rest = (decodeRune b rest).bytes ++ rest := by
    rw [decoded]
    rfl
  have later := toValidUTF8_continuation continuation
  unfold toValidUTF8 at later ⊢
  rw [pieces_cons front, decoded, List.filter_cons_of_neg (by simp [invalidPiece]), later]

/-- An encoding is one ASCII byte, or a lead byte and the bytes it announces. -/
theorem encodeRune_shape {r : Nat} (scalar : IsScalar r) :
    (encodeRune r).length = 1 ∨ ∃ b rest lo hi, encodeRune r = b :: rest ∧
      lead b = some (rest.length + 1, lo, hi) ∧ ∀ c ∈ rest, 0x80 ≤ c.toNat ∧ c.toNat ≤ 0xBF := by
  obtain ⟨b, rest, split, decoded⟩ := decodeRune_encodeRune scalar []
  have bytes : encodeRune r = (decodeRune b rest).bytes := by rw [decoded]; rfl
  rcases decodeRune_cases b rest with ascii | ⟨c, tail, lo, hi, rfl, high, announced, inside⟩ |
    ⟨c, d, tail, lo, hi, rfl, high, announced, inside⟩ |
    ⟨c, d, e, tail, lo, hi, rfl, high, announced, inside⟩ | invalid
  · left
    rw [bytes, decodeRune_one ascii]
    rfl
  · right
    have range := lead_cases announced
    refine ⟨b, [c], lo, hi, by rw [bytes, decodeRune_two high announced inside], announced, ?_⟩
    simp only [UInt8.le_iff_toNat_le] at inside
    simp only [List.mem_singleton, forall_eq]
    omega
  · right
    have range := lead_cases announced
    refine ⟨b, [c, d], lo, hi, by rw [bytes, decodeRune_three high announced inside], announced, ?_⟩
    simp only [UInt8.le_iff_toNat_le, isTail, Bool.and_eq_true, decide_eq_true_eq,
      UInt8.reduceToNat] at inside
    simp only [List.mem_cons, List.not_mem_nil, or_false, forall_eq_or_imp, forall_eq]
    omega
  · right
    have range := lead_cases announced
    refine ⟨b, [c, d, e], lo, hi, by rw [bytes, decodeRune_four high announced inside], announced,
      ?_⟩
    simp only [UInt8.le_iff_toNat_le, isTail, Bool.and_eq_true, decide_eq_true_eq,
      UInt8.reduceToNat] at inside
    simp only [List.mem_cons, List.not_mem_nil, or_false, forall_eq_or_imp, forall_eq]
    omega
  · rw [invalid] at decoded
    cases decoded

/-- Part of an encoding is no character. -/
theorem toValidUTF8_partial {r n : Nat} (scalar : IsScalar r) (short : n < (encodeRune r).length) :
    toValidUTF8 ((encodeRune r).take n) = [] := by
  rcases encodeRune_shape scalar with one | ⟨b, rest, lo, hi, shape, announced, continuation⟩
  · have none : n = 0 := by omega
    rw [none]
    rfl
  · cases n with
    | zero => rfl
    | succ n =>
      rw [shape] at short ⊢
      rw [List.take_succ_cons]
      apply toValidUTF8_short announced
      · rw [List.length_cons] at short
        rw [List.length_take]
        omega
      · intro c member
        exact continuation c (List.mem_of_mem_take member)

/-- Cutting after `n` bytes keeps the characters that fit. -/
theorem toValidUTF8_take {rs : List Nat} (scalars : ∀ r ∈ rs, IsScalar r) (n : Nat) :
    toValidUTF8 ((encodeAll rs).take n) = encodeAll (fitting n rs) := by
  induction rs generalizing n with
  | nil => cases n <;> rfl
  | cons r rs ih =>
    have scalar : IsScalar r := scalars r List.mem_cons_self
    have later := ih fun x member => scalars x (List.mem_cons_of_mem r member)
    have split : encodeAll (r :: rs) = encodeRune r ++ encodeAll rs := List.flatMap_cons
    rw [split, fitting]
    by_cases room : (encodeRune r).length ≤ n
    · rw [if_pos room, List.take_append, List.take_of_length_le room,
        toValidUTF8_encodeRune_append scalar, later]
      rfl
    · rw [if_neg room, List.take_append_of_le_length (by omega)]
      exact toValidUTF8_partial scalar (by omega)

theorem fitting_isPrefix (n : Nat) (rs : List Nat) : fitting n rs <+: rs := by
  induction rs generalizing n with
  | nil => exact List.prefix_rfl
  | cons r rs ih =>
    rw [fitting]
    split
    · exact List.cons_prefix_cons.mpr ⟨rfl, ih _⟩
    · exact List.nil_prefix

theorem fitting_length (n : Nat) (rs : List Nat) : (encodeAll (fitting n rs)).length ≤ n := by
  induction rs generalizing n with
  | nil => exact Nat.zero_le n
  | cons r rs ih =>
    rw [fitting]
    split
    · have later := ih (n - (encodeRune r).length)
      have split : encodeAll (r :: fitting (n - (encodeRune r).length) rs) =
          encodeRune r ++ encodeAll (fitting (n - (encodeRune r).length) rs) := List.flatMap_cons
      rw [split, List.length_append]
      omega
    · exact Nat.zero_le n

/-- No longer part from the front fits. -/
theorem fitting_longest {front rs : List Nat} {n : Nat} (ahead : front <+: rs)
    (fits : (encodeAll front).length ≤ n) : front <+: fitting n rs := by
  induction rs generalizing front n with
  | nil => exact ahead
  | cons r rs ih =>
    cases front with
    | nil => exact List.nil_prefix
    | cons x front =>
      obtain ⟨rfl, later⟩ := List.cons_prefix_cons.mp ahead
      have split : encodeAll (x :: front) = encodeRune x ++ encodeAll front := List.flatMap_cons
      rw [split, List.length_append] at fits
      rw [fitting, if_pos (by omega)]
      exact List.cons_prefix_cons.mpr ⟨rfl, ih later (by omega)⟩

theorem fitting_of_le {n : Nat} {rs : List Nat} (fits : (encodeAll rs).length ≤ n) :
    fitting n rs = rs := by
  induction rs generalizing n with
  | nil => rfl
  | cons r rs ih =>
    have split : encodeAll (r :: rs) = encodeRune r ++ encodeAll rs := List.flatMap_cons
    rw [split, List.length_append] at fits
    rw [fitting, if_pos (by omega), ih (by omega)]

/-! Parts from the front that end on a character boundary. -/

/-- A part from the front that ends between two characters: decoding the string decodes
this part and then the rest. -/
def EndsOnBoundary (front s : Str) : Prop :=
  ∃ back, s = front ++ back ∧ pieces s = pieces front ++ pieces back

theorem endsOnBoundary_encodeAll {front rs : List Nat} (scalars : ∀ r ∈ rs, IsScalar r)
    (ahead : front <+: rs) : EndsOnBoundary (encodeAll front) (encodeAll rs) := by
  obtain ⟨back, rfl⟩ := ahead
  refine ⟨encodeAll back, encodeAll_append front back, ?_⟩
  rw [pieces_encodeAll scalars, List.map_append, pieces_encodeAll, pieces_encodeAll]
  · exact fun r member => scalars r (List.mem_append_right front member)
  · exact fun r member => scalars r (List.mem_append_left back member)

/-- Of a string of encoded characters, such a part is the encoding of some from the
front. -/
theorem EndsOnBoundary.encodes {s : Str} {rs : List Nat} (scalars : ∀ r ∈ rs, IsScalar r)
    (boundary : EndsOnBoundary s (encodeAll rs)) : ∃ front, front <+: rs ∧ s = encodeAll front := by
  obtain ⟨back, -, decoded⟩ := boundary
  rw [pieces_encodeAll scalars] at decoded
  obtain ⟨front, rest, rfl, own, -⟩ := List.map_eq_append_iff.mp decoded
  refine ⟨front, List.prefix_append front rest, ?_⟩
  calc s = (pieces s).flatMap Piece.bytes := (pieces_bytes s).symm
    _ = (front.map validPiece).flatMap Piece.bytes := by rw [own]
    _ = encodeAll front := List.flatMap_map validPiece Piece.bytes front

theorem encodeAll_isPrefix {front rs : List Nat} (ahead : front <+: rs) :
    encodeAll front <+: encodeAll rs := by
  obtain ⟨back, rfl⟩ := ahead
  exact ⟨encodeAll back, (encodeAll_append front back).symm⟩

/-- A valid string is the encoding of its runes. -/
theorem encodeAll_runes {s : Str} (valid : validString s = true) : encodeAll (runes s) = s := by
  have same := (mapRunes_some_iff s).mpr valid
  rwa [mapRunes_eq, List.filterMap_some] at same

end Go
