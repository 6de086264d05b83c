import Mathlib.Data.List.Sort
import Mathlib.Data.Nat.Digits.Defs
import Mathlib.Data.Rat.Defs
import Mathlib.Algebra.Order.Ring.Rat

/-! ECMAScript strings, the printing of whole numbers and Array.prototype.sort. -/
namespace Js

/-- A string: its UTF-16 code units, lone surrogates included. -/
abbrev Text := List UInt16

/-- A literal of characters below U+10000. -/
def lit (s : String) : Text := s.toList.map fun c => UInt16.ofNat c.toNat

/-! Whole numbers. -/

def digit (n : Nat) : UInt16 := UInt16.ofNat (0x30 + n)

def isDigit (u : UInt16) : Bool := 0x30 ≤ u && u ≤ 0x39

/-- Number::toString of a whole number below 10^21 that is not negative. -/
def natString (n : Nat) : Text := if n = 0 then [digit 0] else (Nat.digits 10 n).reverse.map digit

/-- Number::toString of a whole number between -10^21 and 10^21. -/
def intString (n : Int) : Text := if n < 0 then 0x2D :: natString n.natAbs else natString n.natAbs

theorem digit_toNat {n : Nat} (small : n < 10) : (digit n).toNat = 0x30 + n := by
  rw [digit, UInt16.toNat_ofNat']
  omega

theorem isDigit_iff (u : UInt16) : isDigit u = true ↔ 0x30 ≤ u.toNat ∧ u.toNat ≤ 0x39 := by
  simp [isDigit, UInt16.le_iff_toNat_le]

theorem isDigit_digit {n : Nat} (small : n < 10) : isDigit (digit n) = true := by
  have value := digit_toNat small
  rw [isDigit_iff]
  omega

theorem digit_inj {m n : Nat} (hm : m < 10) (hn : n < 10) (same : digit m = digit n) : m = n := by
  have values := congrArg UInt16.toNat same
  rw [digit_toNat hm, digit_toNat hn] at values
  omega

theorem isDigit_natString (n : Nat) : ∀ u ∈ natString n, isDigit u = true := by
  intro u member
  unfold natString at member
  split at member
  · obtain rfl : u = digit 0 := by simpa using member
    exact isDigit_digit (by omega)
  · obtain ⟨d, inside, rfl⟩ := List.mem_map.mp member
    exact isDigit_digit (Nat.digits_lt_base (by omega) (List.mem_reverse.mp inside))

theorem natString_ne_nil (n : Nat) : natString n ≠ [] := by
  unfold natString
  split
  · exact List.cons_ne_nil _ _
  · rename_i positive
    simp [Nat.digits_ne_nil_iff_ne_zero.mpr positive]

theorem map_digit_inj {l l' : List Nat} (hl : ∀ d ∈ l, d < 10) (hl' : ∀ d ∈ l', d < 10)
    (same : l.map digit = l'.map digit) : l = l' := by
  induction l generalizing l' with
  | nil =>
    cases l' with
    | nil => rfl
    | cons d' l' => cases same
  | cons d l ih =>
    cases l' with
    | nil => cases same
    | cons d' l' =>
      obtain ⟨head, tail⟩ := List.cons.inj same
      have first := digit_inj (hl d List.mem_cons_self) (hl' d' List.mem_cons_self) head
      have rest := ih (fun x member => hl x (List.mem_cons_of_mem d member))
        (fun x member => hl' x (List.mem_cons_of_mem d' member)) tail
      rw [first, rest]

theorem natString_inj {m n : Nat} (same : natString m = natString n) : m = n := by
  have small : ∀ k, ∀ d ∈ (Nat.digits 10 k).reverse, d < 10 := fun k d member =>
    Nat.digits_lt_base (by omega) (List.mem_reverse.mp member)
  have zero : ∀ k, k ≠ 0 → [digit 0] ≠ (Nat.digits 10 k).reverse.map digit := by
    intro k positive same
    have digits := map_digit_inj (l := [0]) (by simp) (small k) same
    have value : Nat.digits 10 k = [0] := by rw [← List.reverse_reverse (Nat.digits 10 k), ← digits]; rfl
    have back := Nat.ofDigits_digits 10 k
    rw [value, Nat.ofDigits_singleton] at back
    exact positive back.symm
  unfold natString at same
  split at same <;> split at same
  · omega
  · rename_i positive
    exact absurd same (zero n positive)
  · rename_i positive _
    exact absurd same.symm (zero m positive)
  · have digits := map_digit_inj (small m) (small n) same
    exact Nat.digits_inj_iff.mp (List.reverse_injective digits)

theorem minus_notMem_natString (n : Nat) : (0x2D : UInt16) ∉ natString n := by
  intro member
  have wrong := isDigit_natString n 0x2D member
  exact absurd wrong (by decide)

theorem intString_inj {m n : Int} (same : intString m = intString n) : m = n := by
  unfold intString at same
  split at same <;> split at same
  · have size := natString_inj (List.cons.inj same).2
    omega
  · have minus : (0x2D : UInt16) ∈ natString n.natAbs := same ▸ List.mem_cons_self
    exact absurd minus (minus_notMem_natString _)
  · have minus : (0x2D : UInt16) ∈ natString m.natAbs := same ▸ List.mem_cons_self
    exact absurd minus (minus_notMem_natString _)
  · have size := natString_inj same
    omega

theorem intString_units (n : Int) : ∀ u ∈ intString n, u = 0x2D ∨ isDigit u = true := by
  intro u member
  unfold intString at member
  split at member
  · rcases List.mem_cons.mp member with minus | inside
    · exact Or.inl minus
    · exact Or.inr (isDigit_natString _ u inside)
  · exact Or.inr (isDigit_natString _ u member)

/-- The last of two parts is found from the last separator. -/
theorem last_separator {α : Type} {separator : α} {a b x y : List α} (hx : separator ∉ x)
    (hy : separator ∉ y) (same : a ++ separator :: x = b ++ separator :: y) : a = b ∧ x = y := by
  rcases List.append_eq_append_iff.mp same with ⟨more, front, back⟩ | ⟨more, front, back⟩
  · cases more with
    | nil => exact ⟨by rw [front, List.append_nil], (List.cons.inj back).2⟩
    | cons u more =>
      have inside : separator ∈ x := by
        rw [(List.cons.inj back).2]
        exact List.mem_append_right more List.mem_cons_self
      exact absurd inside hx
  · cases more with
    | nil => exact ⟨by rw [front, List.append_nil], ((List.cons.inj back).2).symm⟩
    | cons u more =>
      have inside : separator ∈ y := by
        rw [(List.cons.inj back).2]
        exact List.mem_append_right more List.mem_cons_self
      exact absurd inside hy

/-! Sorting. -/

section Sorting

variable {α : Type}

/-- Array.prototype.sort, which is stable. -/
def sort (compare : α → α → ℚ) (l : List α) : List α := l.insertionSort fun a b => compare a b ≤ 0

/-- A comparator that orders the values by a key. -/
def OrdersBy {κ : Type} [LinearOrder κ] (compare : α → α → ℚ) (key : α → κ) : Prop :=
  ∀ a b, compare a b ≤ 0 ↔ key a ≤ key b

theorem sort_perm (compare : α → α → ℚ) (l : List α) : (sort compare l).Perm l :=
  List.perm_insertionSort _ l

theorem sort_ne_nil (compare : α → α → ℚ) {l : List α} (nonempty : l ≠ []) :
    sort compare l ≠ [] :=
  fun empty => nonempty ((sort_perm compare l).symm.trans (by rw [empty])).eq_nil

theorem sort_of_sorted {compare : α → α → ℚ} {l : List α}
    (sorted : l.Pairwise fun a b => compare a b ≤ 0) : sort compare l = l :=
  sorted.insertionSort_eq

theorem sort_pairwise {κ : Type} [LinearOrder κ] {compare : α → α → ℚ} {key : α → κ}
    (orders : OrdersBy compare key) (l : List α) :
    (sort compare l).Pairwise fun a b => compare a b ≤ 0 := by
  have total : Std.Total fun a b => compare a b ≤ 0 := ⟨fun a b => by
    rw [orders, orders]
    exact le_total (key a) (key b)⟩
  have trans : IsTrans α fun a b => compare a b ≤ 0 := ⟨fun a b c hab hbc => by
    rw [orders] at hab hbc ⊢
    exact le_trans hab hbc⟩
  exact List.pairwise_insertionSort _ l

end Sorting

end Js
