import Tracium.Go.Float64
import Tracium.Js.Text

/-! Numbers that come out of a decimal literal, and Number::toString. -/
namespace Js

/-- A finite double, or one of the infinities. The zeros are one, since both print as 0. -/
inductive Number where
  | finite (value : ℚ)
  | infinite
  deriving DecidableEq

/-- The distance between neighbouring doubles of this size, the subnormal ones included. -/
def spacing (q : ℚ) : ℚ := 2 ^ max (Int.log 2 |q| - 52) (-1074)

/-- RoundMVResult: the nearest double, a tie to the even one. -/
def toNumber (q : ℚ) : Number :=
  let size : ℚ := Go.nearestEven (|q| / spacing q) * spacing q
  if size < 2 ^ 1024 then .finite (if q < 0 then -size else size) else .infinite

/-- A decimal s × 10^(n - k) of k digits. -/
structure Decimal where
  k : Nat
  s : Nat
  n : Int
  deriving DecidableEq

def Decimal.value (d : Decimal) : ℚ := d.s * 10 ^ (d.n - d.k)

/-- The decimals of k digits next to x that read back as x. Past a power of ten there is
one digit more in front of the point. -/
def decimals (x : ℚ) (k : Nat) : List Decimal :=
  let e := Int.log 10 x + 1
  let next (n : Int) : List Decimal :=
    let s := ⌊x / 10 ^ (n - k)⌋.toNat
    [⟨k, s, n⟩, ⟨k, s + 1, n⟩]
  (next e ++ next (e + 1)).filter fun d =>
    10 ^ (k - 1) ≤ d.s ∧ d.s < 10 ^ k ∧ toNumber d.value = .finite x

/-- The decimal closest to x; of two, the even one. -/
def closest (x : ℚ) : List Decimal → Option Decimal
  | [] => none
  | d :: rest =>
    match closest x rest with
    | none => some d
    | some best =>
      if |d.value - x| < |best.value - x| ∨ |d.value - x| = |best.value - x| ∧ d.s % 2 = 0 then some d
      else some best

/-- The n, k and s of Number::toString. Seventeen digits tell any two doubles apart. -/
def shortest (x : ℚ) : Option Decimal :=
  (List.range 17).findSome? fun i => closest x (decimals x (i + 1))

def Decimal.text (d : Decimal) : Text :=
  let digits := natString d.s
  if d.k ≤ d.n ∧ d.n ≤ 21 then digits ++ List.replicate (d.n - d.k).toNat (digit 0)
  else if 0 < d.n ∧ d.n ≤ 21 then digits.take d.n.toNat ++ lit "." ++ digits.drop d.n.toNat
  else if -6 < d.n ∧ d.n ≤ 0 then lit "0." ++ List.replicate (-d.n).toNat (digit 0) ++ digits
  else
    let exponent := lit "e" ++ (if d.n - 1 < 0 then lit "-" else lit "+") ++ natString (d.n - 1).natAbs
    if d.k = 1 then digits ++ exponent else digits.take 1 ++ lit "." ++ digits.drop 1 ++ exponent

/-- Number::toString of a number that is not negative. -/
def magnitudeString (x : ℚ) : Text :=
  if x = 0 then lit "0" else ((shortest x).map Decimal.text).getD (lit "0")

/-- Number::toString of a finite number. -/
def numberToString (x : ℚ) : Text := if x < 0 then lit "-" ++ magnitudeString (-x) else magnitudeString x

/-! The units of a printed number. -/

/-- A digit, a point, a sign or the letter of the exponent. -/
def NumberUnit (u : UInt16) : Prop := isDigit u = true ∨ u = 0x2E ∨ u = 0x2D ∨ u = 0x2B ∨ u = 0x65

def NumberUnits (text : Text) : Prop := ∀ u ∈ text, NumberUnit u

theorem NumberUnits.append {a b : Text} (ha : NumberUnits a) (hb : NumberUnits b) : NumberUnits (a ++ b) := by
  intro u member
  rcases List.mem_append.mp member with left | right
  · exact ha u left
  · exact hb u right

theorem NumberUnits.take {a : Text} (ha : NumberUnits a) (n : Nat) : NumberUnits (a.take n) :=
  fun u member => ha u (List.mem_of_mem_take member)

theorem NumberUnits.drop {a : Text} (ha : NumberUnits a) (n : Nat) : NumberUnits (a.drop n) :=
  fun u member => ha u (List.mem_of_mem_drop member)

theorem numberUnits_one {u : UInt16} (unit : NumberUnit u) : NumberUnits [u] := by
  intro v member
  rwa [List.mem_singleton.mp member]

theorem numberUnits_natString (n : Nat) : NumberUnits (natString n) :=
  fun u member => Or.inl (isDigit_natString n u member)

theorem numberUnits_zeros (n : Nat) : NumberUnits (List.replicate n (digit 0)) := by
  intro u member
  rw [(List.mem_replicate.mp member).2]
  exact Or.inl (isDigit_digit (by omega))

theorem numberUnits_point : NumberUnits (lit ".") := numberUnits_one (Or.inr (Or.inl rfl))

theorem numberUnits_minus : NumberUnits (lit "-") := numberUnits_one (Or.inr (Or.inr (Or.inl rfl)))

theorem numberUnits_plus : NumberUnits (lit "+") := numberUnits_one (Or.inr (Or.inr (Or.inr (Or.inl rfl))))

theorem numberUnits_letter : NumberUnits (lit "e") := numberUnits_one (Or.inr (Or.inr (Or.inr (Or.inr rfl))))

theorem numberUnits_zero : NumberUnits (lit "0") := numberUnits_one (Or.inl rfl)

theorem Decimal.text_units (d : Decimal) : NumberUnits d.text := by
  have digits := numberUnits_natString d.s
  have exponent : NumberUnits (lit "e" ++ (if d.n - 1 < 0 then lit "-" else lit "+") ++
      natString (d.n - 1).natAbs) := by
    refine (numberUnits_letter.append ?_).append (numberUnits_natString _)
    split
    · exact numberUnits_minus
    · exact numberUnits_plus
  unfold Decimal.text
  split
  · exact digits.append (numberUnits_zeros _)
  split
  · exact ((digits.take _).append numberUnits_point).append (digits.drop _)
  split
  · exact ((numberUnits_zero.append numberUnits_point).append (numberUnits_zeros _)).append digits
  dsimp only
  split
  · exact digits.append exponent
  · exact (((digits.take 1).append numberUnits_point).append (digits.drop 1)).append exponent

theorem Decimal.text_ne_nil (d : Decimal) : d.text ≠ [] := by
  have digits := natString_ne_nil d.s
  have point : ∀ a b : Text, a ++ lit "." ++ b ≠ [] := by
    intro a b
    simp [lit]
  unfold Decimal.text
  split
  · exact fun empty => digits (List.append_eq_nil_iff.mp empty).1
  split
  · exact point _ _
  split
  · exact fun empty => digits (List.append_eq_nil_iff.mp empty).2
  dsimp only
  split
  · exact fun empty => digits (List.append_eq_nil_iff.mp empty).1
  · rw [List.append_assoc (_ ++ lit ".")]
    exact point _ _

theorem magnitudeString_spec (x : ℚ) : NumberUnits (magnitudeString x) ∧ magnitudeString x ≠ [] := by
  have zero : NumberUnits (lit "0") ∧ lit "0" ≠ [] := ⟨numberUnits_zero, by simp [lit]⟩
  unfold magnitudeString
  split
  · exact zero
  · cases shortest x with
    | none => exact zero
    | some d => exact ⟨d.text_units, d.text_ne_nil⟩

theorem numberToString_spec (x : ℚ) : NumberUnits (numberToString x) ∧ numberToString x ≠ [] := by
  unfold numberToString
  split
  · obtain ⟨units, nonempty⟩ := magnitudeString_spec (-x)
    exact ⟨numberUnits_minus.append units, fun empty => nonempty (List.append_eq_nil_iff.mp empty).2⟩
  · exact magnitudeString_spec x

end Js
