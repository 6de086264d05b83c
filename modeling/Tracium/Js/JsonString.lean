import Tracium.Js.Json

/-! String literals of JSON: what QuoteJSONString writes reads back as the string, does not
end inside the literal, and is one way of writing among many. -/
namespace Js.Json

/-! String literals. -/

/-- A unit that stands for itself in a string literal. -/
def Plain (u : UInt16) : Prop := u ≠ backslash ∧ u ≠ quoteUnit ∧ ¬u < 0x20

theorem plain_of_le {u : UInt16} (large : 0x5D ≤ u.toNat) : Plain u := by
  refine ⟨?_, ?_, ?_⟩
  · rintro rfl
    exact absurd large (by decide)
  · rintro rfl
    exact absurd large (by decide)
  · simp only [UInt16.lt_iff_toNat_lt, UInt16.reduceToNat]
    omega

theorem plain_of_high {u : UInt16} (high : isHigh u = true) : Plain u := by
  simp only [isHigh, Bool.and_eq_true, decide_eq_true_eq, UInt16.le_iff_toNat_le, UInt16.reduceToNat] at high
  exact plain_of_le (by omega)

theorem plain_of_low {u : UInt16} (low : isLow u = true) : Plain u := by
  simp only [isLow, Bool.and_eq_true, decide_eq_true_eq, UInt16.le_iff_toNat_le, UInt16.reduceToNat] at low
  exact plain_of_le (by omega)

theorem decodeString_plain {u : UInt16} (plain : Plain u) (rest : Text) :
    decodeString (u :: rest) = (decodeString rest).map (u :: ·) := by
  obtain ⟨noEscape, noQuote, noControl⟩ := plain
  have allowed : ¬(u < 0x20 ∨ u = quoteUnit) := by
    rintro (control | quote)
    · exact noControl control
    · exact noQuote quote
  rw [decodeString.eq_def]
  simp only [if_neg noEscape, if_neg allowed]
  cases decodeString rest <;> rfl

theorem stringRun_plain {u : UInt16} (plain : Plain u) (rest : Text) :
    stringRun false (u :: rest) = stringRun false rest := by
  obtain ⟨noEscape, noQuote, -⟩ := plain
  rw [stringRun, if_neg noEscape, if_neg noQuote]

theorem hexValue_hexDigit {n : Nat} (small : n < 16) : hexValue (hexDigit n) = some n := by
  decide +revert

theorem hexDigit_plain {n : Nat} (small : n < 16) : Plain (hexDigit n) := by
  unfold Plain
  decide +revert

theorem hexUnit_digits (u : UInt16) : hexUnit (hexDigit (u.toNat / 0x1000)) (hexDigit (u.toNat / 0x100 % 0x10))
    (hexDigit (u.toNat / 0x10 % 0x10)) (hexDigit (u.toNat % 0x10)) = some u := by
  have bound := u.toNat_lt
  have value : u.toNat / 0x1000 * 0x1000 + u.toNat / 0x100 % 0x10 * 0x100 + u.toNat / 0x10 % 0x10 * 0x10 +
      u.toNat % 0x10 = u.toNat := by omega
  unfold hexUnit
  rw [hexValue_hexDigit (by omega), hexValue_hexDigit (by omega), hexValue_hexDigit (by omega),
    hexValue_hexDigit (by omega)]
  simp only [Option.bind_eq_bind, Option.bind_some, value, UInt16.ofNat_toNat]

/-- A unit that QuoteJSONString writes as a Unicode escape when it is no half of a pair. -/
def NeedsUnicode (u : UInt16) : Prop :=
  (∀ e ∈ shortEscapes, e.2 ≠ u) ∧ (u < 0x20 ∨ isHigh u = true ∨ isLow u = true)

/-- A unit that stands for itself and is no half of a surrogate pair. -/
structure Ordinary (u : UInt16) : Prop where
  plain : Plain u
  notHigh : isHigh u = false
  notLow : isLow u = false

/-- What the table of short escapes says of one of its entries. -/
structure ShortEscape (e : UInt16 × UInt16) : Prop where
  letter : e.1 ≠ 0x75
  value : escapeValue e.1 = some e.2
  printed : quoteOne e.2 = [backslash, e.1]
  notHigh : isHigh e.2 = false
  inside : Inside [backslash, e.1]
  notPlain : ¬Plain e.2

theorem shortEscape {e : UInt16 × UInt16} (member : e ∈ shortEscapes) : ShortEscape e := by
  simp only [shortEscapes, List.mem_cons, List.not_mem_nil, or_false] at member
  rcases member with rfl | rfl | rfl | rfl | rfl | rfl | rfl
  · exact ⟨by decide, rfl, rfl, rfl, rfl, fun plain => plain.2.1 rfl⟩
  · exact ⟨by decide, rfl, rfl, rfl, rfl, fun plain => plain.1 rfl⟩
  · exact ⟨by decide, rfl, rfl, rfl, rfl, fun plain => plain.2.2 (by decide)⟩
  · exact ⟨by decide, rfl, rfl, rfl, rfl, fun plain => plain.2.2 (by decide)⟩
  · exact ⟨by decide, rfl, rfl, rfl, rfl, fun plain => plain.2.2 (by decide)⟩
  · exact ⟨by decide, rfl, rfl, rfl, rfl, fun plain => plain.2.2 (by decide)⟩
  · exact ⟨by decide, rfl, rfl, rfl, rfl, fun plain => plain.2.2 (by decide)⟩

theorem quoteOne_unicode {u : UInt16} (needs : NeedsUnicode u) : quoteOne u = unicodeEscape u := by
  obtain ⟨long, special⟩ := needs
  have none : (shortEscapes.find? fun e => e.2 = u) = none := by
    rw [List.find?_eq_none]
    intro e member
    simpa using long e member
  have escape : (u < 0x20 || isHigh u || isLow u) = true := by
    simp only [Bool.or_eq_true, decide_eq_true_eq, or_assoc]
    exact special
  rw [quoteOne, none]
  exact if_pos escape

theorem quoteOne_ordinary {u : UInt16} (ordinary : Ordinary u) : quoteOne u = [u] := by
  have none : (shortEscapes.find? fun e => e.2 = u) = none := by
    rw [List.find?_eq_none]
    intro e member same
    have own : e.2 = u := by simpa using same
    exact (shortEscape member).notPlain (own ▸ ordinary.plain)
  obtain ⟨⟨-, -, noControl⟩, notHigh, notLow⟩ := ordinary
  rw [quoteOne, none]
  simp [noControl, notHigh, notLow]

/-- The three ways to write a unit. -/
theorem quoteOne_cases (u : UInt16) : (∃ e ∈ shortEscapes, e.2 = u) ∨ NeedsUnicode u ∨ Ordinary u := by
  cases found : shortEscapes.find? fun e => e.2 = u with
  | some e =>
    have same := List.find?_some found
    exact Or.inl ⟨e, List.mem_of_find?_eq_some found, by simpa using same⟩
  | none =>
    right
    have long : ∀ e ∈ shortEscapes, e.2 ≠ u := by
      intro e member
      simpa using List.find?_eq_none.mp found e member
    by_cases special : u < 0x20 ∨ isHigh u = true ∨ isLow u = true
    · exact Or.inl ⟨long, special⟩
    · simp only [not_or, Bool.not_eq_true] at special
      obtain ⟨noControl, notHigh, notLow⟩ := special
      refine Or.inr ⟨⟨?_, ?_, noControl⟩, notHigh, notLow⟩
      · exact fun same => long (0x5C, 0x5C) (List.mem_cons_of_mem _ List.mem_cons_self) same.symm
      · exact fun same => long (0x22, 0x22) List.mem_cons_self same.symm

theorem decodeString_quoteOne (u : UInt16) (rest : Text) :
    decodeString (quoteOne u ++ rest) = (decodeString rest).map (u :: ·) := by
  rcases quoteOne_cases u with ⟨e, member, rfl⟩ | needs | ordinary
  · have escape := shortEscape member
    rw [escape.printed, List.cons_append, List.cons_append, List.nil_append, decodeString.eq_def]
    simp only [↓reduceIte, if_neg escape.letter, escape.value]
    cases decodeString rest <;> rfl
  · rw [quoteOne_unicode needs]
    simp only [unicodeEscape, List.cons_append, List.nil_append]
    rw [decodeString.eq_def]
    simp only [↓reduceIte, hexUnit_digits]
    cases decodeString rest <;> rfl
  · rw [quoteOne_ordinary ordinary]
    exact decodeString_plain ordinary.plain rest

theorem inside_quoteOne (u : UInt16) : Inside (quoteOne u) := by
  rcases quoteOne_cases u with ⟨e, member, rfl⟩ | needs | ordinary
  · have escape := shortEscape member
    rw [escape.printed]
    exact escape.inside
  · have bound := u.toNat_lt
    have first : Plain (hexDigit (u.toNat / 0x1000)) := hexDigit_plain (by omega)
    have second : Plain (hexDigit (u.toNat / 0x100 % 0x10)) := hexDigit_plain (by omega)
    have third : Plain (hexDigit (u.toNat / 0x10 % 0x10)) := hexDigit_plain (by omega)
    have fourth : Plain (hexDigit (u.toNat % 0x10)) := hexDigit_plain (by omega)
    rw [quoteOne_unicode needs, Inside, unicodeEscape, stringRun, if_pos rfl, stringRun, stringRun_plain first,
      stringRun_plain second, stringRun_plain third, stringRun_plain fourth]
    rfl
  · rw [quoteOne_ordinary ordinary, Inside, stringRun_plain ordinary.plain]
    rfl

/-- In front of the second half of a pair there is one. -/
def Paired (pair : Bool) (s : Text) : Prop := pair = true → s.head?.any isLow = true

theorem paired_false (s : Text) : Paired false s := by
  intro wrong
  cases wrong

theorem quoteFrom_spec {pair : Bool} {s : Text} (paired : Paired pair s) :
    decodeString (quoteFrom pair s) = some s ∧ Inside (quoteFrom pair s) := by
  induction s generalizing pair with
  | nil => cases pair <;> exact ⟨rfl, rfl⟩
  | cons u rest ih =>
    cases pair with
    | true =>
      have plain : Plain u := plain_of_low (paired rfl)
      obtain ⟨decoded, inside⟩ := ih (paired_false rest)
      rw [quoteFrom, Inside, decodeString_plain plain, stringRun_plain plain, decoded]
      exact ⟨rfl, inside⟩
    | false =>
      rw [quoteFrom]
      by_cases first : (isHigh u && rest.head?.any isLow) = true
      · obtain ⟨high, low⟩ := Bool.and_eq_true_iff.mp first
        have plain : Plain u := plain_of_high high
        have second : Paired true rest := fun _ => low
        obtain ⟨decoded, inside⟩ := ih second
        rw [if_pos first, Inside, decodeString_plain plain, stringRun_plain plain, decoded]
        exact ⟨rfl, inside⟩
      · obtain ⟨decoded, inside⟩ := ih (paired_false rest)
        rw [if_neg first, decodeString_quoteOne, decoded]
        exact ⟨rfl, (inside_quoteOne u).append inside⟩

theorem decodeString_quoteBody (s : Text) : decodeString (quoteBody s) = some s :=
  (quoteFrom_spec (paired_false s)).1

theorem inside_quoteBody (s : Text) : Inside (quoteBody s) := (quoteFrom_spec (paired_false s)).2

theorem stringValue_quoteBody (s : Text) : stringValue (quoteBody s) = s := by
  rw [stringValue, decodeString_quoteBody]
  rfl

/-- A string literal as QuoteJSONString writes it, from between its quotes: short escapes
where there are, lower-case Unicode escapes for the other control characters and for halves
of surrogate pairs that stand alone, and everything else as it is. -/
inductive Quoted : Text → Prop where
  | nil : Quoted []
  | ordinary {u : UInt16} {rest : Text} : Ordinary u → Quoted rest → Quoted (u :: rest)
  | pair {high low : UInt16} {rest : Text} : isHigh high = true → isLow low = true → Quoted rest →
      Quoted (high :: low :: rest)
  | short {e : UInt16 × UInt16} {rest : Text} : e ∈ shortEscapes → Quoted rest → Quoted (backslash :: e.1 :: rest)
  | unicode {u : UInt16} {rest : Text} : NeedsUnicode u →
      ¬(isHigh u = true ∧ (stringValue rest).head?.any isLow = true) → Quoted rest → Quoted (unicodeEscape u ++ rest)

theorem quoted_quoteFrom (s : Text) : Quoted (quoteFrom false s) ∧
    (s.head?.any isLow = true → ∀ high, isHigh high = true → Quoted (high :: quoteFrom true s)) := by
  induction s with
  | nil => exact ⟨.nil, by intro wrong; cases wrong⟩
  | cons u rest ih =>
    obtain ⟨single, second⟩ := ih
    constructor
    · rw [quoteFrom]
      by_cases first : (isHigh u && rest.head?.any isLow) = true
      · rw [if_pos first]
        obtain ⟨high, low⟩ := Bool.and_eq_true_iff.mp first
        exact second low u high
      · rw [if_neg first]
        rcases quoteOne_cases u with ⟨e, member, rfl⟩ | needs | ordinary
        · rw [(shortEscape member).printed]
          exact .short member single
        · rw [quoteOne_unicode needs]
          refine .unicode needs ?_ single
          have value : stringValue (quoteFrom false rest) = rest := stringValue_quoteBody rest
          rwa [value, ← Bool.and_eq_true_iff]
        · rw [quoteOne_ordinary ordinary]
          exact .ordinary ordinary single
    · intro low high isHigh
      exact .pair isHigh low single

theorem Quoted.read {raw : Text} (quoted : Quoted raw) : ∃ s, decodeString raw = some s ∧ quoteFrom false s = raw := by
  induction quoted with
  | nil => exact ⟨[], rfl, rfl⟩
  | @ordinary u rest ordinary _ ih =>
    obtain ⟨s, decoded, back⟩ := ih
    refine ⟨u :: s, by rw [decodeString_plain ordinary.plain, decoded]; rfl, ?_⟩
    rw [quoteFrom, ordinary.notHigh, Bool.false_and, if_neg Bool.false_ne_true, quoteOne_ordinary ordinary, back]
    rfl
  | @pair high low rest isHigh isLow _ ih =>
    obtain ⟨s, decoded, back⟩ := ih
    refine ⟨high :: low :: s, ?_, ?_⟩
    · rw [decodeString_plain (plain_of_high isHigh), decodeString_plain (plain_of_low isLow), decoded]
      rfl
    · have first : (Json.isHigh high && (low :: s).head?.any Json.isLow) = true := by simp [isHigh, isLow]
      rw [quoteFrom, if_pos first, quoteFrom, back]
  | @short e rest member _ ih =>
    obtain ⟨s, decoded, back⟩ := ih
    have escape := shortEscape member
    refine ⟨e.2 :: s, ?_, ?_⟩
    · have read := decodeString_quoteOne e.2 rest
      rw [escape.printed, decoded] at read
      exact read
    · rw [quoteFrom, escape.notHigh, Bool.false_and, if_neg Bool.false_ne_true, escape.printed, back]
      rfl
  | @unicode u rest needs alone _ ih =>
    obtain ⟨s, decoded, back⟩ := ih
    have value : stringValue rest = s := by rw [stringValue, decoded]; rfl
    rw [value, ← Bool.and_eq_true_iff] at alone
    refine ⟨u :: s, ?_, ?_⟩
    · have read := decodeString_quoteOne u rest
      rwa [quoteOne_unicode needs, decoded] at read
    · rw [quoteFrom, if_neg alone, quoteOne_unicode needs, back]

theorem quoteBody_stringValue_iff (raw : Text) : quoteBody (stringValue raw) = raw ↔ Quoted raw := by
  constructor
  · intro same
    rw [← same]
    exact (quoted_quoteFrom _).1
  · intro quoted
    obtain ⟨s, decoded, back⟩ := quoted.read
    rw [stringValue, decoded]
    exact back

end Js.Json
