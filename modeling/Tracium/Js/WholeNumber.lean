import Tracium.Js.Number
import Mathlib.Data.Nat.Digits.Lemmas

/-! Whole numbers below 2^53 in size print their digits: a double holds them exactly, and no
shorter decimal reads as the same double. -/
namespace Js

/-! A double holds them. -/

theorem spacing_eq {q : ℚ} (one_le : 1 ≤ q) : spacing q = Go.ulp q := by
  have log : 0 ≤ Int.log 2 q := by
    have lower := Int.log_mono_right (b := 2) (by norm_num) one_le
    rwa [Int.log_one_right] at lower
  rw [spacing, Go.ulp, abs_of_nonneg (by linarith), max_eq_left (by omega)]

theorem size_nat {n : ℕ} (small : n < 2 ^ 53) : (Go.nearestEven (n / spacing n) : ℚ) * spacing n = n := by
  by_cases zero : n = 0
  · subst zero
    have none : Go.nearestEven 0 = 0 := Go.nearestEven_int 0
    simp [none]
  · have one_le : (1 : ℚ) ≤ n := by exact_mod_cast Nat.one_le_iff_ne_zero.mpr zero
    have held := Go.float64_nat small
    rwa [Go.float64, if_neg (by exact_mod_cast zero), ← spacing_eq one_le] at held

theorem spacing_abs (q : ℚ) : spacing |q| = spacing q := by rw [spacing, spacing, abs_abs]

/-- Rounding keeps the sign. -/
theorem toNumber_signed {q size : ℚ} (rounded : Go.nearestEven (|q| / spacing |q|) * spacing |q| = size)
    (finite : size < 2 ^ 1024) : toNumber q = .finite (if q < 0 then -size else size) := by
  rw [spacing_abs] at rounded
  simp only [toNumber, rounded, if_pos finite]

theorem toNumber_int {z : Int} (small : z.natAbs < 2 ^ 53) : toNumber z = .finite z := by
  have size : |(z : ℚ)| = (z.natAbs : ℚ) := by rw [Nat.cast_natAbs, Int.cast_abs]
  have bound : (z.natAbs : ℚ) < 2 ^ 53 := by exact_mod_cast small
  have larger : (2 : ℚ) ^ 53 ≤ 2 ^ 1024 := pow_le_pow_right₀ (by norm_num) (by norm_num)
  have rounded := size_nat small
  rw [← size] at rounded bound
  rw [toNumber_signed rounded (lt_of_lt_of_le bound larger), Number.finite.injEq]
  by_cases negative : (z : ℚ) < 0
  · rw [if_pos negative, abs_of_neg negative, neg_neg]
  · rw [if_neg negative, abs_of_nonneg (not_lt.mp negative)]

theorem toNumber_nat {n : ℕ} (small : n < 2 ^ 53) : toNumber n = .finite n := by
  have size : (n : Int).natAbs < 2 ^ 53 := by rwa [Int.natAbs_natCast]
  have same := toNumber_int size
  rwa [Int.cast_natCast] at same

/-- Larger numbers are not rounded below 2^53. -/
theorem le_toNumber {m : ℕ} (large : 2 ^ 53 ≤ m) {x : ℚ} (read : toNumber m = .finite x) : 2 ^ 53 ≤ x := by
  have cast : (2 : ℚ) ^ 53 ≤ m := by exact_mod_cast large
  have pos : (0 : ℚ) < m := by linarith [show (0 : ℚ) < 2 ^ 53 by positivity]
  have log : 53 ≤ Int.log 2 (m : ℚ) := (Int.zpow_le_iff_le_log (by norm_num) pos).mp (by exact_mod_cast cast)
  have units : (2 : ℚ) ^ (52 : ℤ) * spacing m = 2 ^ Int.log 2 (m : ℚ) := by
    rw [spacing, abs_of_pos pos, max_eq_left (by omega), ← zpow_add₀ (by norm_num)]
    congr 1
    omega
  have spaced : 0 < spacing (m : ℚ) := zpow_pos (by norm_num) _
  have below : (2 : ℚ) ^ Int.log 2 (m : ℚ) ≤ m := Int.zpow_log_le_self (by norm_num) pos
  have whole : ((2 ^ 52 : ℤ) : ℚ) ≤ m / spacing m := by
    rw [le_div_iff₀ spaced]
    exact_mod_cast units.trans_le below
  have rounded := Go.le_nearestEven whole
  have size : (2 : ℚ) ^ 53 ≤ Go.nearestEven (m / spacing m) * spacing m := by
    calc (2 : ℚ) ^ 53 ≤ 2 ^ Int.log 2 (m : ℚ) := by
          exact_mod_cast zpow_le_zpow_right₀ (by norm_num : (1 : ℚ) ≤ 2) log
      _ = 2 ^ (52 : ℤ) * spacing m := units.symm
      _ ≤ Go.nearestEven (m / spacing m) * spacing m := by
          apply mul_le_mul_of_nonneg_right _ (le_of_lt spaced)
          exact_mod_cast rounded
  simp only [toNumber, abs_of_pos pos, not_lt.mpr (le_of_lt pos), if_false] at read
  split at read
  · rw [← Number.finite.inj read]
    exact size
  · cases read

theorem nat_of_toNumber {m n : ℕ} (small : n < 2 ^ 53) (read : toNumber m = .finite n) : m = n := by
  by_cases large : 2 ^ 53 ≤ m
  · have wrong : ((2 ^ 53 : ℕ) : ℚ) ≤ n := by exact_mod_cast le_toNumber large read
    have wrong' : 2 ^ 53 ≤ n := by exact_mod_cast wrong
    omega
  · rw [toNumber_nat (not_le.mp large)] at read
    exact_mod_cast Number.finite.inj read

/-! The shortest decimal is the number. -/

theorem closest_mem {x : ℚ} {l : List Decimal} {d : Decimal} (found : closest x l = some d) : d ∈ l := by
  induction l generalizing d with
  | nil => cases found
  | cons first rest ih =>
    rw [closest] at found
    cases best : closest x rest with
    | none =>
      rw [best] at found
      rw [← Option.some.inj found]
      exact List.mem_cons_self
    | some b =>
      rw [best] at found
      dsimp only at found
      split at found
      · rw [← Option.some.inj found]
        exact List.mem_cons_self
      · rw [← Option.some.inj found]
        exact List.mem_cons_of_mem first (ih best)

theorem closest_isSome {x : ℚ} {l : List Decimal} {d : Decimal} (member : d ∈ l) : (closest x l).isSome = true := by
  cases l with
  | nil => cases member
  | cons first rest =>
    rw [closest]
    cases closest x rest with
    | none => rfl
    | some b =>
      dsimp only
      split <;> rfl

/-- What a candidate promises. -/
structure ReadsAs (x : ℚ) (k : ℕ) (d : Decimal) : Prop where
  digits : d.k = k
  place : d.n = Int.log 10 x + 1 ∨ d.n = Int.log 10 x + 2
  least : 10 ^ (k - 1) ≤ d.s
  read : toNumber d.value = .finite x

theorem readsAs_of_mem {x : ℚ} {k : ℕ} {d : Decimal} (member : d ∈ decimals x k) : ReadsAs x k d := by
  simp only [decimals, List.mem_filter, List.mem_append, List.mem_cons, List.not_mem_nil, or_false,
    decide_eq_true_eq] at member
  obtain ⟨shape, least, -, read⟩ := member
  rcases shape with (rfl | rfl) | rfl | rfl
  · exact ⟨rfl, Or.inl rfl, least, read⟩
  · exact ⟨rfl, Or.inl rfl, least, read⟩
  · exact ⟨rfl, Or.inr (by dsimp only; omega), least, read⟩
  · exact ⟨rfl, Or.inr (by dsimp only; omega), least, read⟩

/-- All the digits of a whole number are a candidate. -/
theorem mem_decimals_nat {n : ℕ} (positive : n ≠ 0) (small : n < 2 ^ 53) :
    (⟨Nat.log 10 n + 1, n, Nat.log 10 n + 1⟩ : Decimal) ∈ decimals n (Nat.log 10 n + 1) := by
  have floor : ⌊(n : ℚ) / 10 ^ ((Int.log 10 (n : ℚ) + 1) - ((Nat.log 10 n + 1 : ℕ) : ℤ))⌋.toNat = n := by
    rw [Int.log_natCast]
    push_cast
    rw [sub_self, zpow_zero, div_one, Int.floor_natCast, Int.toNat_natCast]
  have value : Decimal.value ⟨Nat.log 10 n + 1, n, Nat.log 10 n + 1⟩ = n := by
    rw [Decimal.value]
    push_cast
    rw [sub_self, zpow_zero, mul_one]
  simp only [decimals, List.mem_filter, List.mem_append, List.mem_cons, decide_eq_true_eq]
  refine ⟨Or.inl (Or.inl ?_), ?_, ?_, ?_⟩
  · rw [floor, Int.log_natCast]
  · exact Nat.pow_log_le_self 10 positive
  · exact Nat.lt_pow_succ_log_self (by norm_num) n
  · rw [value]
    exact toNumber_nat small

/-- The numbers before the first one of some kind. -/
theorem mem_before_of_range {n i j : ℕ} {before after : List ℕ} (order : List.range n = before ++ i :: after)
    (earlier : j < i) : j ∈ before := by
  rw [List.range_eq_range', List.range'_eq_append_iff] at order
  obtain ⟨k, -, rfl, rest⟩ := order
  have first := congrArg List.head? rest
  rw [List.head?_cons, List.head?_range'] at first
  split at first
  · cases first
  · rw [List.mem_range'_1]
    have reached := Option.some.inj first
    omega

theorem shortest_nat {n : ℕ} (positive : n ≠ 0) (small : n < 2 ^ 53) :
    ∃ d k, shortest n = some d ∧ ReadsAs n k d ∧ k ≤ Nat.log 10 n + 1 := by
  have digits : Nat.log 10 n < 17 := Nat.log_lt_of_lt_pow positive (by omega)
  have found := closest_isSome (x := n) (mem_decimals_nat positive small)
  have some' : (shortest n).isSome = true := by
    rw [shortest, List.findSome?_isSome_iff]
    exact ⟨Nat.log 10 n, List.mem_range.mpr digits, found⟩
  obtain ⟨d, first⟩ := Option.isSome_iff_exists.mp some'
  obtain ⟨before, i, after, split, own, none⟩ := List.findSome?_eq_some_iff.mp first
  refine ⟨d, i + 1, first, readsAs_of_mem (closest_mem own), ?_⟩
  -- no later than with all the digits
  by_contra later
  have earlier : Nat.log 10 n ∈ before := mem_before_of_range split (by omega)
  rw [none _ earlier] at found
  cases found

/-! Its digits. -/

theorem natString_mul_pow {s : ℕ} (positive : s ≠ 0) (j : ℕ) :
    natString (s * 10 ^ j) = natString s ++ List.replicate j (digit 0) := by
  have nonzero : s * 10 ^ j ≠ 0 := Nat.mul_ne_zero positive (by positivity)
  rw [natString, natString, if_neg nonzero, if_neg positive, Nat.mul_comm,
    Nat.digits_base_pow_mul (by norm_num) (Nat.pos_of_ne_zero positive), List.reverse_append, List.reverse_replicate,
    List.map_append, List.map_replicate]

theorem text_of_reads {n : ℕ} (small : n < 2 ^ 53) {d : Decimal} {k : ℕ} (reads : ReadsAs n k d)
    (short : k ≤ Nat.log 10 n + 1) : d.text = natString n := by
  have log : Nat.log 10 n ≤ 15 := by
    have below : Nat.log 10 n < 16 := by
      by_cases positive : n = 0
      · rw [positive, Nat.log_zero_right]
        norm_num
      · exact Nat.log_lt_of_lt_pow positive (by omega)
    omega
  obtain ⟨digits, place, least, read⟩ := reads
  rw [Int.log_natCast] at place
  have positive : d.s ≠ 0 := by
    have one : 0 < 10 ^ (k - 1) := by positivity
    omega
  have gap : ∃ j : ℕ, d.n - d.k = j := ⟨(d.n - d.k).toNat, by omega⟩
  obtain ⟨j, gap⟩ := gap
  have value : d.value = ((d.s * 10 ^ j : ℕ) : ℚ) := by
    rw [Decimal.value, gap]
    push_cast
    rw [zpow_natCast]
  rw [value] at read
  have same := nat_of_toNumber small read
  have shape : (d.k : ℤ) ≤ d.n ∧ d.n ≤ 21 := by omega
  rw [← same, natString_mul_pow positive, Decimal.text, if_pos shape, gap, Int.toNat_natCast]

theorem magnitudeString_nat {n : ℕ} (small : n < 2 ^ 53) : magnitudeString n = natString n := by
  by_cases zero : n = 0
  · subst zero
    rw [magnitudeString, if_pos Nat.cast_zero]
    rfl
  · obtain ⟨d, k, found, reads, short⟩ := shortest_nat zero small
    rw [magnitudeString, if_neg (by exact_mod_cast zero), found, Option.map_some, Option.getD_some,
      text_of_reads small reads short]

theorem numberToString_int {z : Int} (small : z.natAbs < 2 ^ 53) : numberToString z = intString z := by
  have digits := magnitudeString_nat small
  rw [numberToString, intString]
  by_cases negative : z < 0
  · have size : -(z : ℚ) = (z.natAbs : ℚ) := by
      rw [Nat.cast_natAbs, abs_of_neg negative, Int.cast_neg]
    rw [if_pos (by exact_mod_cast negative), if_pos negative, size, digits]
    rfl
  · have size : (z : ℚ) = (z.natAbs : ℚ) := by
      rw [Nat.cast_natAbs, abs_of_nonneg (not_lt.mp negative)]
    rw [if_neg (by exact_mod_cast negative), if_neg negative, size, digits]

end Js
