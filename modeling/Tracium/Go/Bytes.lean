import Mathlib.Data.List.Basic

/-! Go strings are byte sequences with no validity promise. This module embeds the
`strings` and `unicode/utf8` operations the verified programs call, on arbitrary
bytes: decoding follows utf8.DecodeRune, so an invalid byte is a piece of width one. -/
namespace Go

abbrev Str := List UInt8

/-- The bytes of a source literal. -/
def lit (s : String) : Str := s.toUTF8.data.toList

def hasPrefix (s pre : Str) : Bool := pre.isPrefixOf s

/-- strings.Contains. -/
def contains (s sub : Str) : Bool :=
  match s with
  | [] => sub.isEmpty
  | b :: rest => sub.isPrefixOf (b :: rest) || contains rest sub

/-- strings.TrimRight for a one-byte cutset. -/
def trimRightByte (b : UInt8) (s : Str) : Str := (s.reverse.dropWhile (· == b)).reverse

theorem hasPrefix_iff : hasPrefix s pre = true ↔ ∃ rest, s = pre ++ rest := by
  unfold hasPrefix
  rw [List.isPrefixOf_iff_prefix]
  exact ⟨fun ⟨rest, h⟩ => ⟨rest, h.symm⟩, fun ⟨rest, h⟩ => ⟨rest, h.symm⟩⟩

@[simp] theorem hasPrefix_append (pre rest : Str) : hasPrefix (pre ++ rest) pre = true :=
  hasPrefix_iff.mpr ⟨rest, rfl⟩

/-- The rune utf8.DecodeRune reports for an invalid byte. -/
def runeError : Nat := 0xFFFD

/-- One decoding step. `valid` tells a genuine U+FFFD from a decoding error. -/
structure Piece where
  rune : Nat
  bytes : Str
  valid : Bool
  deriving DecidableEq, Repr

def invalidPiece (b : UInt8) : Piece := ⟨runeError, [b], false⟩

/-- Width and second-byte range a lead byte announces (Go's `first` table). -/
def lead (b : UInt8) : Option (Nat × UInt8 × UInt8) :=
  if 0xC2 ≤ b ∧ b ≤ 0xDF then some (2, 0x80, 0xBF)
  else if b = 0xE0 then some (3, 0xA0, 0xBF)
  else if b = 0xED then some (3, 0x80, 0x9F)
  else if 0xE1 ≤ b ∧ b ≤ 0xEF then some (3, 0x80, 0xBF)
  else if b = 0xF0 then some (4, 0x90, 0xBF)
  else if 0xF1 ≤ b ∧ b ≤ 0xF3 then some (4, 0x80, 0xBF)
  else if b = 0xF4 then some (4, 0x80, 0x8F)
  else none

def isTail (b : UInt8) : Bool := 0x80 ≤ b && b ≤ 0xBF

/-- utf8.DecodeRune on a nonempty string, given as its first byte and the rest. -/
def decodeRune (b : UInt8) (rest : Str) : Piece :=
  if b < 0x80 then ⟨b.toNat, [b], true⟩
  else match lead b, rest with
    | some (2, lo, hi), c :: _ =>
      if lo ≤ c ∧ c ≤ hi then
        ⟨b.toNat % 0x20 * 0x40 + c.toNat % 0x40, [b, c], true⟩
      else invalidPiece b
    | some (3, lo, hi), c :: d :: _ =>
      if lo ≤ c ∧ c ≤ hi ∧ isTail d then
        ⟨b.toNat % 0x10 * 0x1000 + c.toNat % 0x40 * 0x40 + d.toNat % 0x40, [b, c, d], true⟩
      else invalidPiece b
    | some (4, lo, hi), c :: d :: e :: _ =>
      if lo ≤ c ∧ c ≤ hi ∧ isTail d ∧ isTail e then
        ⟨b.toNat % 0x08 * 0x40000 + c.toNat % 0x40 * 0x1000 + d.toNat % 0x40 * 0x40 +
          e.toNat % 0x40, [b, c, d, e], true⟩
      else invalidPiece b
    | _, _ => invalidPiece b

/-- Range over a string: at most `fuel` decoding steps. -/
def piecesFrom : Nat → Str → List Piece
  | 0, _ => []
  | _ + 1, [] => []
  | fuel + 1, b :: rest =>
    let piece := decodeRune b rest
    piece :: piecesFrom fuel ((b :: rest).drop piece.bytes.length)

/-- Every piece consumes a byte, so the length is always enough fuel. -/
def pieces (s : Str) : List Piece := piecesFrom s.length s

def validString (s : Str) : Bool := (pieces s).all Piece.valid

def encodeRune (r : Nat) : Str :=
  if r < 0x80 then [UInt8.ofNat r]
  else if r < 0x800 then [UInt8.ofNat (0xC0 + r / 0x40), UInt8.ofNat (0x80 + r % 0x40)]
  else if r < 0x10000 then
    [UInt8.ofNat (0xE0 + r / 0x1000), UInt8.ofNat (0x80 + r / 0x40 % 0x40),
      UInt8.ofNat (0x80 + r % 0x40)]
  else
    [UInt8.ofNat (0xF0 + r / 0x40000), UInt8.ofNat (0x80 + r / 0x1000 % 0x40),
      UInt8.ofNat (0x80 + r / 0x40 % 0x40), UInt8.ofNat (0x80 + r % 0x40)]

/-- strings.Map; `none` drops the character, and an invalid byte arrives as U+FFFD. -/
def mapRunes (mapping : Nat → Option Nat) (s : Str) : Str :=
  (pieces s).flatMap fun piece =>
    match mapping piece.rune with
    | none => []
    | some r => encodeRune r

/-- strings.ToValidUTF8 with an empty replacement. -/
def toValidUTF8 (s : Str) : Str := ((pieces s).filter Piece.valid).flatMap Piece.bytes

/-- unicode.IsControl: the category Cc. -/
def isControl (r : Nat) : Bool := r < 0x20 || (0x7F ≤ r && r < 0xA0)

/-- unicode.IsSpace: the property White_Space. -/
def isSpace (r : Nat) : Bool :=
  (0x09 ≤ r && r ≤ 0x0D) || r == 0x20 || r == 0x85 || r == 0xA0 || r == 0x1680 ||
    (0x2000 ≤ r && r ≤ 0x200A) || r == 0x2028 || r == 0x2029 || r == 0x202F ||
    r == 0x205F || r == 0x3000

/-- strings.TrimSpace. -/
def trimSpace (s : Str) : Str :=
  let front := (pieces s).dropWhile fun piece => isSpace piece.rune
  (front.reverse.dropWhile fun piece => isSpace piece.rune).reverse.flatMap Piece.bytes

def asciiLower (b : UInt8) : UInt8 := if 0x41 ≤ b ∧ b ≤ 0x5A then b + 0x20 else b

/-- strings.ToLower. The rune table is Unicode data and stays a parameter; pure
ASCII takes the byte path, as in Go. -/
def toLower (toLowerRune : Nat → Nat) (s : Str) : Str :=
  if s.all (· < 0x80) then s.map asciiLower
  else mapRunes (fun r => some (toLowerRune r)) s

/-- strings.EqualFold against a lower-case ASCII word without `k` or `s`, the only
ASCII letters that fold to something outside ASCII. -/
def equalFoldWord (s word : Str) : Bool := s.map asciiLower == word

end Go
