import Tracium.Go.Bytes

/-! Machine integers and `strconv`. An int64 is an integer in its range; arithmetic
that can leave the range is written with `wrap64`. -/
namespace Go

def minInt64 : Int := -9223372036854775808
def maxInt64 : Int := 9223372036854775807

def InInt64 (n : Int) : Prop := minInt64 ≤ n ∧ n ≤ maxInt64

instance (n : Int) : Decidable (InInt64 n) := inferInstanceAs (Decidable (_ ∧ _))

/-- Two's complement reduction of an exact integer result to int64. -/
def wrap64 (n : Int) : Int :=
  (n + 9223372036854775808) % 18446744073709551616 - 9223372036854775808

@[simp] theorem wrap64_of_range (h : InInt64 n) : wrap64 n = n := by
  simp only [InInt64, minInt64, maxInt64] at h
  simp only [wrap64]
  omega

/-- Wrapping commutes with an addition whose operand was already wrapped. -/
theorem wrap64_add_wrap64 (a b : Int) : wrap64 (a + wrap64 b) = wrap64 (a + b) := by
  simp only [wrap64]
  omega

theorem wrap64_sub_right (a b : Int) : wrap64 (wrap64 a - b) = wrap64 (a - b) := by
  simp only [wrap64]
  omega

/-- A difference that leaves the range below by less than one period becomes positive. -/
theorem wrap64_pos_iff (lo : -18446744073709551616 < n) (hi : n ≤ maxInt64) :
    0 < wrap64 n ↔ 0 < n ∨ n < minInt64 := by
  simp only [minInt64, maxInt64, wrap64] at *
  omega

def digit (n : Nat) : UInt8 := UInt8.ofNat (0x30 + n % 10)

/-- Decimal digits, most significant last; at most `fuel` of them. -/
def digitsRev : Nat → Nat → Str
  | 0, _ => []
  | fuel + 1, n => digit n :: if n / 10 = 0 then [] else digitsRev fuel (n / 10)

/-- strconv.Itoa on a natural number. -/
def natString (n : Nat) : Str := (digitsRev (n + 1) n).reverse

/-- strconv.FormatInt in base ten, as `%d` prints it. -/
def itoa (n : Int) : Str := if n < 0 then 0x2D :: natString n.natAbs else natString n.natAbs

def digitValue (b : UInt8) : Option Nat :=
  if 0x30 ≤ b ∧ b ≤ 0x39 then some (b.toNat - 0x30) else none

/-- The value of a digit string, most significant first, accumulated on `acc`. -/
def parseDigitsFrom (acc : Nat) : Str → Option Nat
  | [] => some acc
  | b :: rest => (digitValue b).bind fun d => parseDigitsFrom (acc * 10 + d) rest

def parseDigits : Str → Option Nat
  | [] => none
  | s => parseDigitsFrom 0 s

def signed (negative : Bool) (s : Str) : Option Int :=
  (parseDigits s).map fun n => if negative then -(n : Int) else n

/-- strconv.ParseInt(s, 10, 64); `none` is a syntax or a range error. -/
def parseInt64 (s : Str) : Option Int :=
  let parsed := match s with
    | 0x2B :: rest => signed false rest
    | 0x2D :: rest => signed true rest
    | _ => signed false s
  parsed.filter fun n => decide (InInt64 n)

theorem parseInt64_range (parsed : parseInt64 s = some n) : InInt64 n := by
  simp only [parseInt64, Option.filter_eq_some_iff, decide_eq_true_eq] at parsed
  exact parsed.2

/-! What is printed is read back. -/

theorem digitValue_digit (n : Nat) : digitValue (digit n) = some (n % 10) := by
  have small : n % 10 < 10 := Nat.mod_lt n (by omega)
  have value : (digit n).toNat = 0x30 + n % 10 := by
    simp only [digit, UInt8.toNat_ofNat']
    omega
  have range : 0x30 ≤ digit n ∧ digit n ≤ 0x39 := by
    simp only [UInt8.le_iff_toNat_le, value, UInt8.toNat_ofNat]
    omega
  rw [digitValue, if_pos range, value, Nat.add_sub_cancel_left]

theorem parseDigitsFrom_append (acc : Nat) (s t : Str) :
    parseDigitsFrom acc (s ++ t) = (parseDigitsFrom acc s).bind fun m => parseDigitsFrom m t := by
  induction s generalizing acc with
  | nil => rfl
  | cons b rest ih =>
    rw [List.cons_append, parseDigitsFrom, parseDigitsFrom, Option.bind_assoc]
    exact Option.bind_congr fun d _ => ih (acc * 10 + d)

theorem parseDigitsFrom_digitsRev {fuel n : Nat} (enough : n < fuel) :
    parseDigitsFrom 0 (digitsRev fuel n).reverse = some n := by
  induction fuel generalizing n with
  | zero => omega
  | succ fuel ih =>
    have leading : parseDigitsFrom 0 (if n / 10 = 0 then [] else digitsRev fuel (n / 10)).reverse =
        some (n / 10) := by
      split
      · next none => rw [none, List.reverse_nil, parseDigitsFrom]
      · exact ih (by omega)
    rw [digitsRev, List.reverse_cons, parseDigitsFrom_append, leading, Option.bind_some,
      parseDigitsFrom, digitValue_digit, Option.bind_some, parseDigitsFrom, Option.some.injEq]
    omega

theorem parseDigits_natString (n : Nat) : parseDigits (natString n) = some n := by
  have parsed : parseDigitsFrom 0 (natString n) = some n := parseDigitsFrom_digitsRev (Nat.lt_succ_self n)
  cases shown : natString n with
  | nil => simp [natString, digitsRev] at shown
  | cons b rest => rwa [shown] at parsed

/-- A digit string is read as a number without a sign. -/
theorem parseInt64_of_digits {s : Str} {n : Nat} (digits : parseDigits s = some n)
    (range : InInt64 n) : parseInt64 s = some (n : Int) := by
  have plain : signed false s = some (n : Int) := by rw [signed, digits]; rfl
  unfold parseInt64
  split
  · rw [parseDigits, parseDigitsFrom] at digits
    · cases digits
    · simp
  · rw [parseDigits, parseDigitsFrom] at digits
    · cases digits
    · simp
  · rw [plain]
    exact Option.filter_eq_some_iff.mpr ⟨rfl, decide_eq_true range⟩

theorem parseInt64_itoa (range : InInt64 n) : parseInt64 (itoa n) = some n := by
  by_cases negative : n < 0
  · have abs : -((n.natAbs : Nat) : Int) = n := by omega
    have read : signed true (natString n.natAbs) = some n := by
      rw [signed, parseDigits_natString]
      exact congrArg some abs
    rw [itoa, if_pos negative, parseInt64, read]
    exact Option.filter_eq_some_iff.mpr ⟨rfl, decide_eq_true range⟩
  · have abs : ((n.natAbs : Nat) : Int) = n := by omega
    have read := parseInt64_of_digits (parseDigits_natString n.natAbs) (by rwa [abs])
    rw [itoa, if_neg negative]
    rwa [abs] at read

example : parseInt64 (lit "-42") = some (-42) := by decide
example : parseInt64 (lit "9223372036854775808") = none := by decide

end Go
