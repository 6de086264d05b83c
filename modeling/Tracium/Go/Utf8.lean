import Tracium.Go.Bytes

/-! Decoding splits a string into its own bytes, and encoding undoes a valid decoding
step, so a string survives a decode and encode round exactly when it is valid UTF-8. -/
namespace Go

/-- What a lead byte promises about its sequence. -/
theorem lead_cases (announced : lead b = some (width, lo, hi)) :
    (width = 2 ∧ 0xC2 ≤ b.toNat ∧ b.toNat ≤ 0xDF ∧ 0x80 ≤ lo.toNat ∧ hi.toNat ≤ 0xBF) ∨
      (width = 3 ∧ 0xE0 ≤ b.toNat ∧ b.toNat ≤ 0xEF ∧ 0x80 ≤ lo.toNat ∧ hi.toNat ≤ 0xBF ∧
        (0xE0 < b.toNat ∨ 0xA0 ≤ lo.toNat)) ∨
      (width = 4 ∧ 0xF0 ≤ b.toNat ∧ b.toNat ≤ 0xF4 ∧ 0x80 ≤ lo.toNat ∧ hi.toNat ≤ 0xBF ∧
        (0xF0 < b.toNat ∨ 0x90 ≤ lo.toNat)) := by
  simp only [lead, UInt8.le_iff_toNat_le, ← UInt8.toNat_inj, UInt8.reduceToNat] at announced
  repeat' split at announced
  all_goals cases announced
  all_goals
    simp
    omega

theorem ofNat_eq (h : n = b.toNat) : UInt8.ofNat n = b := by
  subst h
  simp

theorem encodeRune_decodeRune (b : UInt8) (rest : Str) (valid : (decodeRune b rest).valid = true) :
    encodeRune (decodeRune b rest).rune = (decodeRune b rest).bytes := by
  unfold decodeRune at valid ⊢
  split
  · next ascii =>
    simp only [UInt8.lt_iff_toNat_lt, UInt8.reduceToNat] at ascii
    simp [encodeRune, ascii]
  · next high =>
    simp only [high, ↓reduceIte] at valid
    simp only [UInt8.le_iff_toNat_le, isTail, Bool.and_eq_true, decide_eq_true_eq,
      UInt8.reduceToNat] at valid ⊢
    split at valid
    -- one case per announced width; the ranges of the lead byte fix the encoded width
    · next lo hi c tail announced =>
      have range := lead_cases announced
      split at valid
      · next inside =>
        simp only [inside, and_self, ↓reduceIte]
        generalize rune : b.toNat % 32 * 64 + c.toNat % 64 = r
        rw [encodeRune, if_neg (by omega), if_pos (by omega), ofNat_eq (b := b) (by omega),
          ofNat_eq (b := c) (by omega)]
      · cases valid
    · next lo hi c d tail announced =>
      have range := lead_cases announced
      split at valid
      · next inside =>
        simp only [inside, and_self, ↓reduceIte]
        generalize rune : b.toNat % 16 * 4096 + c.toNat % 64 * 64 + d.toNat % 64 = r
        rw [encodeRune, if_neg (by omega), if_neg (by omega), if_pos (by omega),
          ofNat_eq (b := b) (by omega), ofNat_eq (b := c) (by omega), ofNat_eq (b := d) (by omega)]
      · cases valid
    · next lo hi c d e tail announced =>
      have range := lead_cases announced
      split at valid
      · next inside =>
        simp only [inside, and_self, ↓reduceIte]
        generalize rune : b.toNat % 8 * 262144 + c.toNat % 64 * 4096 + d.toNat % 64 * 64 +
          e.toNat % 64 = r
        rw [encodeRune, if_neg (by omega), if_neg (by omega), if_neg (by omega),
          ofNat_eq (b := b) (by omega), ofNat_eq (b := c) (by omega), ofNat_eq (b := d) (by omega),
          ofNat_eq (b := e) (by omega)]
      · cases valid
    · cases valid

/-- An invalid step is one byte wide and reports U+FFFD. -/
theorem decodeRune_invalid (b : UInt8) (rest : Str) (invalid : (decodeRune b rest).valid = false) :
    decodeRune b rest = invalidPiece b := by
  unfold decodeRune at invalid ⊢
  split
  · next ascii => simp [ascii] at invalid
  · next high =>
    simp only [high, ↓reduceIte] at invalid
    split at invalid
    all_goals first
      | rfl
      | split at invalid
        · cases invalid
        · next outside => simp only [outside, ↓reduceIte]

/-- A decoding step reads a nonempty front part of the string. -/
theorem decodeRune_front (b : UInt8) (rest : Str) :
    ∃ tail, b :: rest = (decodeRune b rest).bytes ++ tail ∧ (decodeRune b rest).bytes ≠ [] := by
  unfold decodeRune
  split
  · exact ⟨rest, rfl, by simp⟩
  · split
    all_goals first
      | exact ⟨_, rfl, by simp [invalidPiece]⟩
      | split
        · exact ⟨_, rfl, by simp⟩
        · exact ⟨_, rfl, by simp [invalidPiece]⟩

theorem piecesFrom_bytes (fuel : Nat) (s : Str) (enough : s.length ≤ fuel) :
    (piecesFrom fuel s).flatMap Piece.bytes = s := by
  induction fuel generalizing s with
  | zero =>
    have : s = [] := List.eq_nil_of_length_eq_zero (by omega)
    subst this
    rfl
  | succ fuel ih =>
    cases s with
    | nil => rfl
    | cons b rest =>
      obtain ⟨tail, front, nonempty⟩ := decodeRune_front b rest
      have shorter : tail.length ≤ fuel := by
        have lengths := congrArg List.length front
        have := List.length_pos_of_ne_nil nonempty
        simp only [List.length_cons, List.length_append] at lengths enough
        omega
      have dropped : (b :: rest).drop (decodeRune b rest).bytes.length = tail := by
        rw [front, List.drop_left]
      rw [piecesFrom, dropped, List.flatMap_cons, ih tail shorter, ← front]

theorem pieces_bytes (s : Str) : (pieces s).flatMap Piece.bytes = s :=
  piecesFrom_bytes _ s (Nat.le_refl _)

/-- Every piece comes from a decoding step. -/
theorem piecesFrom_decoded (fuel : Nat) (s : Str) :
    ∀ piece ∈ piecesFrom fuel s, ∃ b rest, piece = decodeRune b rest := by
  induction fuel generalizing s with
  | zero => simp [piecesFrom]
  | succ fuel ih =>
    cases s with
    | nil => simp [piecesFrom]
    | cons b rest =>
      intro piece member
      rw [piecesFrom] at member
      rcases List.mem_cons.mp member with rfl | later
      · exact ⟨b, rest, rfl⟩
      · exact ih _ piece later

/-- Re-encoding never shortens a piece, and lengthens an invalid one. -/
theorem encodeRune_grows (list : List Piece)
    (decoded : ∀ piece ∈ list, ∃ b rest, piece = decodeRune b rest) :
    (list.flatMap Piece.bytes).length ≤ (list.flatMap fun piece => encodeRune piece.rune).length ∧
      (list.all Piece.valid = false → (list.flatMap Piece.bytes).length <
        (list.flatMap fun piece => encodeRune piece.rune).length) := by
  induction list with
  | nil => simp
  | cons piece list ih =>
    obtain ⟨grows, strictly⟩ := ih fun piece member => decoded piece (List.mem_cons_of_mem _ member)
    obtain ⟨b, rest, rfl⟩ := decoded piece (List.mem_cons_self ..)
    simp only [List.flatMap_cons, List.length_append, List.all_cons]
    cases valid : (decodeRune b rest).valid with
    | true =>
      rw [encodeRune_decodeRune b rest valid]
      simp only [Bool.true_and]
      exact ⟨by omega, fun some => by have := strictly some; omega⟩
    | false =>
      have single : (decodeRune b rest).bytes.length = 1 := by
        rw [decodeRune_invalid b rest valid]
        rfl
      have triple : (encodeRune (decodeRune b rest).rune).length = 3 := by
        rw [decodeRune_invalid b rest valid]
        rfl
      omega

/-- Valid UTF-8 is what decoding and encoding again leaves unchanged. -/
theorem mapRunes_some_iff (s : Str) : mapRunes some s = s ↔ validString s = true := by
  have decoded := piecesFrom_decoded s.length s
  have bytes := pieces_bytes s
  constructor
  · intro same
    by_contra invalid
    have strictly := (encodeRune_grows (pieces s) decoded).2 (by simpa [validString] using invalid)
    rw [bytes] at strictly
    have lengths := congrArg List.length same
    simp only [mapRunes] at lengths
    omega
  · intro valid
    calc mapRunes some s = (pieces s).flatMap Piece.bytes := by
          apply List.flatMap_congr
          intro piece member
          obtain ⟨b, rest, rfl⟩ := decoded piece member
          exact encodeRune_decodeRune b rest (List.all_eq_true.mp valid _ member)
      _ = s := bytes

end Go
