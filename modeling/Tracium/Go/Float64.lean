import Mathlib.Data.Int.Log
import Mathlib.Data.Rat.Floor
import Mathlib.Tactic.Linarith
import Mathlib.Tactic.FieldSimp
import Mathlib.Tactic.Ring
import Mathlib.Tactic.NormNum

/-! Rounding to binary64, on the rationals. The numbers rounded here are never negative
and lie inside the normal range, so a double is a multiple of its unit in the last place. -/
namespace Go

/-- The nearest integer; a tie goes to the even one. -/
def nearestEven (q : ℚ) : Int :=
  if q - ⌊q⌋ < 1 / 2 then ⌊q⌋
  else if 1 / 2 < q - ⌊q⌋ then ⌊q⌋ + 1
  else if ⌊q⌋ % 2 = 0 then ⌊q⌋
  else ⌊q⌋ + 1

/-- The distance between neighbouring doubles of this size. -/
def ulp (q : ℚ) : ℚ := 2 ^ (Int.log 2 q - 52)

/-- The double nearest to a number. -/
def float64 (q : ℚ) : ℚ := if q = 0 then 0 else nearestEven (q / ulp q) * ulp q

theorem nearestEven_cases (q : ℚ) : nearestEven q = ⌊q⌋ ∧ q - ⌊q⌋ ≤ 1 / 2 ∨
    nearestEven q = ⌊q⌋ + 1 ∧ 1 / 2 ≤ q - ⌊q⌋ := by
  unfold nearestEven
  split
  · rename_i low
    exact .inl ⟨rfl, low.le⟩
  split
  · rename_i high
    exact .inr ⟨rfl, high.le⟩
  · rename_i high low
    split
    · exact .inl ⟨rfl, not_lt.mp low⟩
    · exact .inr ⟨rfl, not_lt.mp high⟩

theorem nearestEven_error (q : ℚ) : |(nearestEven q : ℚ) - q| ≤ 1 / 2 := by
  have floor_le := Int.floor_le q
  have lt_succ := Int.lt_floor_add_one q
  rw [abs_le]
  rcases nearestEven_cases q with ⟨same, low⟩ | ⟨same, high⟩
  · rw [same]
    constructor <;> linarith
  · rw [same]
    push_cast
    constructor <;> linarith

theorem le_nearestEven {n : Int} {q : ℚ} (le : (n : ℚ) ≤ q) : n ≤ nearestEven q := by
  have floor : n ≤ ⌊q⌋ := Int.le_floor.mpr le
  rcases nearestEven_cases q with ⟨same, _⟩ | ⟨same, _⟩ <;> omega

theorem nearestEven_le {n : Int} {q : ℚ} (le : q ≤ n) : nearestEven q ≤ n := by
  rcases nearestEven_cases q with ⟨same, _⟩ | ⟨same, high⟩
  · rw [same]
    exact Int.floor_le_iff.mpr (le.trans_lt (by linarith))
  · rw [same]
    have strict : (⌊q⌋ : ℚ) < n := by linarith
    exact_mod_cast strict

@[simp] theorem nearestEven_int (n : Int) : nearestEven n = n :=
  le_antisymm (nearestEven_le le_rfl) (le_nearestEven le_rfl)

/-- Just below an even integer the last half rounds up to it, the tie included. -/
theorem le_nearestEven_iff {n : Int} (even : n % 2 = 0) {q : ℚ} (below : q < n) :
    n ≤ nearestEven q ↔ (n : ℚ) - 1 / 2 ≤ q := by
  constructor
  · intro up
    have error := (abs_le.mp (nearestEven_error q)).2
    have cast : (n : ℚ) ≤ nearestEven q := Int.cast_le.mpr up
    linarith
  · intro close
    have floor : ⌊q⌋ = n - 1 := by
      rw [Int.floor_eq_iff]
      push_cast
      constructor <;> linarith
    unfold nearestEven
    rw [floor]
    push_cast
    rw [if_neg (by linarith)]
    split
    · omega
    · rw [if_neg (by omega)]
      omega

/-! Doubles. -/

theorem ulp_pos (q : ℚ) : 0 < ulp q := zpow_pos (by norm_num) _

theorem ulp_le {q : ℚ} (pos : 0 < q) : ulp q ≤ q / 2 ^ 52 := by
  have log : ((2 : ℕ) : ℚ) ^ Int.log 2 q ≤ q := Int.zpow_log_le_self (by norm_num) pos
  have split : ulp q = 2 ^ Int.log 2 q / 2 ^ 52 := by
    rw [ulp, zpow_sub₀ (by norm_num)]
    norm_num
  rw [split]
  exact div_le_div_of_nonneg_right (by exact_mod_cast log) (by norm_num)

/-- The relative error of a rounding. -/
theorem float64_error {q : ℚ} (pos : 0 < q) : |float64 q - q| ≤ q / 2 ^ 53 := by
  have unit := ulp_pos q
  have small := ulp_le pos
  have error := nearestEven_error (q / ulp q)
  have scaled : float64 q - q = (nearestEven (q / ulp q) - q / ulp q) * ulp q := by
    rw [float64, if_neg pos.ne', sub_mul, div_mul_cancel₀ q unit.ne']
  have half : |float64 q - q| ≤ 1 / 2 * ulp q := by
    rw [scaled, abs_mul, abs_of_pos unit]
    exact mul_le_mul_of_nonneg_right error unit.le
  have halved : q / 2 ^ 53 = 1 / 2 * (q / 2 ^ 52) := by ring
  rw [halved]
  exact half.trans (by linarith)

/-- Rounding a number between two powers of two. -/
theorem float64_of_log {q : ℚ} {k : ℕ} (log : Int.log 2 q = k) (le : k ≤ 52) (pos : 0 < q) :
    float64 q = nearestEven (q * 2 ^ (52 - k)) / 2 ^ (52 - k) := by
  have unit : ulp q = (2 ^ (52 - k))⁻¹ := by
    rw [ulp, log, ← zpow_natCast, ← zpow_neg]
    congr 1
    push_cast [le]
    ring
  rw [float64, if_neg pos.ne', unit, div_inv_eq_mul, div_eq_mul_inv]

/-- A whole number below 2^53 is a double. -/
theorem float64_nat {n : ℕ} (small : n < 2 ^ 53) : float64 n = n := by
  by_cases zero : n = 0
  · subst zero
    simp [float64]
  have pos : (0 : ℚ) < n := by exact_mod_cast Nat.pos_of_ne_zero zero
  have log : Nat.log 2 n ≤ 52 := Nat.lt_succ_iff.mp (Nat.log_lt_of_lt_pow zero small)
  rw [float64_of_log (Int.log_natCast 2 n) log pos]
  have whole : (n : ℚ) * 2 ^ (52 - Nat.log 2 n) = ((n * 2 ^ (52 - Nat.log 2 n) : ℕ) : ℤ) := by
    push_cast
    ring
  rw [whole, nearestEven_int]
  push_cast
  field_simp

/-- On a grid of `m` points to the whole, an even number of them, a number is rounded up to
the next whole one when it is closer to it than half a step. -/
theorem floor_grid {n m : ℤ} (pos : 0 < m) (even : m % 2 = 0) {f : ℚ} (nonneg : 0 ≤ f)
    (lt_one : f < 1) :
    ⌊(nearestEven ((n + f) * m) : ℚ) / m⌋ = if 1 - f ≤ 1 / ((m : ℚ) * 2) then n + 1 else n := by
  have mpos : (0 : ℚ) < m := by exact_mod_cast pos
  have evenNext : ((n + 1) * m) % 2 = 0 := by
    rw [Int.mul_emod, even, mul_zero, Int.zero_emod]
  have below : ((n : ℚ) + f) * m < ((n + 1) * m : ℤ) := by
    push_cast
    nlinarith
  have low : n * m ≤ nearestEven (((n : ℚ) + f) * m) := by
    apply le_nearestEven
    push_cast
    nlinarith
  have high : nearestEven (((n : ℚ) + f) * m) ≤ (n + 1) * m := nearestEven_le below.le
  have closeIff : (n + 1) * m ≤ nearestEven (((n : ℚ) + f) * m) ↔ 1 - f ≤ 1 / ((m : ℚ) * 2) := by
    rw [le_nearestEven_iff evenNext below, le_div_iff₀ (by positivity)]
    push_cast
    constructor <;> intro close <;> linarith
  by_cases close : 1 - f ≤ 1 / ((m : ℚ) * 2)
  · have reached : nearestEven (((n : ℚ) + f) * m) = (n + 1) * m :=
      le_antisymm high (closeIff.mpr close)
    have value : (((n + 1) * m : ℤ) : ℚ) / m = ((n + 1 : ℤ) : ℚ) := by
      push_cast
      field_simp
    rw [if_pos close, reached, value, Int.floor_intCast]
  · have short : nearestEven (((n : ℚ) + f) * m) < (n + 1) * m :=
      not_le.mp fun reached => close (closeIff.mp reached)
    rw [if_neg close, Int.floor_eq_iff, le_div_iff₀ mpos, div_lt_iff₀ mpos]
    exact ⟨by exact_mod_cast low, by exact_mod_cast short⟩

/-- The whole part of a double nearest to a whole number and a fraction is the number,
unless the fraction is closer to one than half the distance between doubles there. -/
theorem floor_float64 {n : ℕ} (pos : 0 < n) {f : ℚ} (nonneg : 0 ≤ f) (lt_one : f < 1)
    (log : Nat.log 2 n < 52) :
    ⌊float64 (n + f)⌋ = if 1 - f ≤ 1 / 2 ^ (53 - Nat.log 2 n) then (n : ℤ) + 1 else n := by
  have one : (1 : ℚ) ≤ n := by exact_mod_cast pos
  have whole : ⌊(n : ℚ) + f⌋₊ = n := by
    rw [Nat.floor_eq_iff (by linarith)]
    constructor <;> linarith
  have size : Int.log 2 ((n : ℚ) + f) = Nat.log 2 n := by
    rw [Int.log_of_one_le_right 2 (by linarith), whole]
  obtain ⟨j, exponent⟩ : ∃ j, 52 - Nat.log 2 n = j + 1 := ⟨51 - Nat.log 2 n, by omega⟩
  have doubled : 53 - Nat.log 2 n = j + 1 + 1 := by omega
  have even : (2 : ℤ) ^ (j + 1) % 2 = 0 := by
    rw [pow_succ]
    exact Int.mul_emod_left _ 2
  have grid := floor_grid (n := n) (by positivity) even nonneg lt_one
  push_cast at grid
  rw [float64_of_log size log.le (by linarith), exponent, doubled, grid]
  norm_num [pow_succ]

/-! Durations. -/

/-- Duration.Seconds, on a duration that is not negative. -/
def seconds (d : Int) : ℚ :=
  float64 (float64 (d.tdiv 1000000000) + float64 (float64 (d.tmod 1000000000) / 1000000000))

/-- So far from the start of its second that the double is the next whole second. -/
def RoundsUp (d : Int) : Prop :=
  (1000000000 - d % 1000000000) * 2 ^ (53 - Nat.log 2 (d / 1000000000).toNat) ≤ 1000000000

instance (d : Int) : Decidable (RoundsUp d) := inferInstanceAs (Decidable (_ ≤ _))

/-- A power of two from 2^10 on times a whole number is never close to a billion. -/
theorem billion_apart (a : Int) {p : ℕ} (large : 10 ≤ p) :
    a * 2 ^ p ≤ 1000000000 - 512 ∨ 1000000000 + 512 ≤ a * 2 ^ p := by
  obtain ⟨j, rfl⟩ : ∃ j, p = j + 10 := ⟨p - 10, by omega⟩
  have split : a * 2 ^ (j + 10) = a * 2 ^ j * 1024 := by ring
  rw [split]
  generalize a * 2 ^ j = b
  omega

/-- The rounding error of a fraction of a second. -/
theorem fraction_error {nsec : ℕ} (small : nsec < 1000000000) :
    (1 : ℚ) - nsec / 1000000000 - 1 / 2 ^ 53 ≤ 1 - float64 (nsec / 1000000000) ∧
      1 - float64 (nsec / 1000000000) ≤ (1 : ℚ) - nsec / 1000000000 + 1 / 2 ^ 53 := by
  by_cases zero : nsec = 0
  · subst zero
    norm_num [float64]
  · have pos : (0 : ℚ) < nsec / 1000000000 := by
      have positive : (0 : ℚ) < nsec := by exact_mod_cast Nat.pos_of_ne_zero zero
      positivity
    have below : (nsec : ℚ) / 1000000000 ≤ 1 := by
      rw [div_le_one (by norm_num)]
      exact_mod_cast small.le
    have error := abs_le.mp (float64_error pos)
    have bound : (nsec : ℚ) / 1000000000 / 2 ^ 53 ≤ 1 / 2 ^ 53 :=
      div_le_div_of_nonneg_right below (by norm_num)
    constructor <;> linarith [error.1, error.2]

/-- Rounding the fraction of a second does not move it across a power of two. -/
theorem fraction_close_iff {nsec : ℕ} (small : nsec < 1000000000) {p : ℕ} (large : 10 ≤ p) :
    1 - float64 (float64 nsec / 1000000000) ≤ 1 / 2 ^ p ↔
      (1000000000 - nsec : ℤ) * 2 ^ p ≤ 1000000000 := by
  have exact_ : float64 nsec = nsec := float64_nat (by omega)
  have power : (0 : ℚ) < 2 ^ p := by positivity
  rw [exact_, le_div_iff₀ power]
  have near := fraction_error small
  have least : (1 : ℚ) ≤ 1000000000 - nsec := by
    have step : (nsec : ℚ) + 1 ≤ 1000000000 := by exact_mod_cast small
    linarith
  have lower := mul_le_mul_of_nonneg_right near.1 power.le
  have upper := mul_le_mul_of_nonneg_right near.2 power.le
  have cast : (((1000000000 - nsec : ℤ) * 2 ^ p : ℤ) : ℚ) = (1000000000 - nsec) * 2 ^ p := by
    push_cast
    ring
  rcases billion_apart (1000000000 - nsec) large with few | many
  · have few' : ((1000000000 : ℚ) - nsec) * 2 ^ p ≤ 1000000000 - 512 := by
      rw [← cast]
      exact_mod_cast few
    have bounded : (2 : ℚ) ^ p ≤ 1000000000 := by nlinarith
    refine iff_of_true ?_ (by omega)
    linarith
  · have many' : (1000000000 : ℚ) + 512 ≤ (1000000000 - nsec) * 2 ^ p := by
      rw [← cast]
      exact_mod_cast many
    refine iff_of_false ?_ (by omega)
    rw [not_le]
    by_cases huge : (2 : ℚ) ^ p ≤ 2 ^ 32
    · linarith
    · have scaled : (2 : ℚ) ^ p ≤ (1000000000 - nsec) * 2 ^ p := by nlinarith
      linarith

theorem float64_nonneg {q : ℚ} (nonneg : 0 ≤ q) : 0 ≤ float64 q := by
  rw [float64]
  split
  · exact le_rfl
  · have unit := ulp_pos q
    have whole : (0 : ℤ) ≤ nearestEven (q / ulp q) :=
      le_nearestEven (by exact_mod_cast div_nonneg nonneg unit.le)
    exact mul_nonneg (by exact_mod_cast whole) unit.le

/-- A duration that is not negative splits into its seconds and nanoseconds. -/
theorem seconds_parts {d : Int} (nonneg : 0 ≤ d) {n nsec : ℕ} (sec : d / 1000000000 = n)
    (rest : d % 1000000000 = nsec) :
    seconds d = float64 (float64 n + float64 (float64 nsec / 1000000000)) := by
  have splitSec : ((d.tdiv 1000000000 : ℤ) : ℚ) = (n : ℚ) := by
    rw [Int.tdiv_eq_ediv_of_nonneg nonneg, sec]
    norm_cast
  have splitRest : ((d.tmod 1000000000 : ℤ) : ℚ) = (nsec : ℚ) := by
    rw [Int.tmod_eq_emod_of_nonneg nonneg, rest]
    norm_cast
  rw [seconds, splitSec, splitRest]

theorem fraction_nonneg (nsec : ℕ) : (0 : ℚ) ≤ float64 (float64 nsec / 1000000000) :=
  float64_nonneg (div_nonneg (float64_nonneg (by positivity)) (by norm_num))

theorem fraction_lt_one {nsec : ℕ} (small : nsec < 1000000000) :
    float64 (float64 nsec / 1000000000) < 1 := by
  by_contra reached
  have none : 1 - float64 (float64 nsec / 1000000000) ≤ 0 := by linarith
  have close : 1 - float64 (float64 nsec / 1000000000) ≤ 1 / 2 ^ 30 := none.trans (by positivity)
  have bound := (fraction_close_iff small (by norm_num)).mp close
  omega

/-- The whole part of the seconds of a duration of a second or more. -/
theorem floor_seconds {d : Int} (whole : 1000000000 ≤ d) (range : d ≤ 9223372036854775807) :
    ⌊seconds d⌋ = d / 1000000000 + if RoundsUp d then 1 else 0 := by
  obtain ⟨n, sec⟩ : ∃ n : ℕ, d / 1000000000 = n := ⟨(d / 1000000000).toNat, by omega⟩
  obtain ⟨nsec, rest⟩ : ∃ nsec : ℕ, d % 1000000000 = nsec := ⟨(d % 1000000000).toNat, by omega⟩
  have small : nsec < 1000000000 := by omega
  have nbound : n < 2 ^ 34 := by omega
  have pos : 0 < n := by omega
  have log : Nat.log 2 n < 34 := Nat.log_lt_of_lt_pow (by omega) nbound
  rw [seconds_parts (by omega) sec rest, float64_nat (by omega),
    floor_float64 pos (fraction_nonneg nsec) (fraction_lt_one small) (by omega), sec]
  have same : RoundsUp d ↔ 1 - float64 (float64 nsec / 1000000000) ≤ 1 / 2 ^ (53 - Nat.log 2 n) := by
    rw [fraction_close_iff small (by omega), RoundsUp, sec, rest, Int.toNat_natCast]
  by_cases up : RoundsUp d
  · rw [if_pos (same.mp up), if_pos up]
  · rw [if_neg fun close => up (same.mpr close), if_neg up, add_zero]

/-- A duration of less than a second reads as at most one. -/
theorem floor_seconds_le_one {d : Int} (nonneg : 0 ≤ d) (short : d < 1000000000) :
    ⌊seconds d⌋ ≤ 1 := by
  obtain ⟨nsec, rest⟩ : ∃ nsec : ℕ, d % 1000000000 = nsec := ⟨(d % 1000000000).toNat, by omega⟩
  have sec : d / 1000000000 = (0 : ℕ) := by omega
  have ltOne : float64 (float64 nsec / 1000000000) < 1 := fraction_lt_one (by omega)
  rw [seconds_parts nonneg sec rest, float64_nat (by norm_num), Nat.cast_zero, zero_add]
  apply Int.le_of_lt_add_one
  rw [Int.floor_lt]
  rcases (fraction_nonneg nsec).eq_or_lt with zero | pos
  · rw [← zero, float64, if_pos rfl]
    norm_num
  · have error := le_of_abs_le (float64_error pos)
    have half : float64 (float64 nsec / 1000000000) / 2 ^ 53 < 1 := by
      apply (div_lt_one (by positivity)).mpr
      exact ltOne.trans (by norm_num)
    push_cast
    linarith

end Go
