import Mathlib.Algebra.Order.Field.Basic
import Mathlib.Data.List.GetD
import Mathlib.Data.List.Sort

/-! The median of a list over an ordered field, and what a majority of equal entries makes
of it: they fill the middle of the sorted list, wherever the others go. -/
namespace OrderStatistics

section Sorted

variable {α : Type} [LinearOrder α]

theorem count_le_of_not_mem_take {l : List α} {v : α} {k : Nat} (absent : v ∉ l.take k) :
    l.count v ≤ l.length - k := by
  have split : l.count v = (l.take k).count v + (l.drop k).count v := by
    rw [← List.count_append, List.take_append_drop]
  have tail : (l.drop k).count v ≤ l.length - k := by
    rw [← List.length_drop]
    exact List.count_le_length
  rw [split, List.count_eq_zero.mpr absent]
  omega

theorem count_le_of_not_mem_drop {l : List α} {v : α} {k : Nat} (absent : v ∉ l.drop k) :
    l.count v ≤ k := by
  have split : l.count v = (l.take k).count v + (l.drop k).count v := by
    rw [← List.count_append, List.take_append_drop]
  have head : (l.take k).count v ≤ k := List.count_le_length.trans (List.length_take_le k l)
  rw [split, List.count_eq_zero.mpr absent]
  omega

/-- More than i entries are v and no more than i are not: then v is at index i. -/
theorem getElem_of_count {sorted : List α} (order : sorted.SortedLE) {v : α} {i : Nat}
    (inside : i < sorted.length) (below : i < sorted.count v)
    (above : sorted.length ≤ sorted.count v + i) : sorted[i] = v := by
  rcases lt_trichotomy sorted[i] v with less | same | more
  · -- v is only found after index i
    have absent : v ∉ sorted.take (i + 1) := by
      intro member
      obtain ⟨j, bound, rfl⟩ := List.mem_take_iff_getElem.mp member
      have le : sorted[j] ≤ sorted[i] := order.getElem_le_getElem_of_le (by omega)
      exact absurd less (not_lt_of_ge le)
    have few := count_le_of_not_mem_take absent
    omega
  · exact same
  · -- v is only found before index i
    have absent : v ∉ sorted.drop i := by
      intro member
      obtain ⟨j, bound, rfl⟩ := List.mem_drop_iff_getElem.mp member
      have le : sorted[i] ≤ sorted[i + j] := order.getElem_le_getElem_of_le (by omega)
      exact absurd more (not_lt_of_ge le)
    have few := count_le_of_not_mem_drop absent
    omega

end Sorted

section Median

variable {α : Type} [Field α] [LinearOrder α]

/-- The middle entry of the sorted list, or half way between the two; 0 of no entries. -/
def median (l : List α) : α :=
  let s := l.insertionSort (· ≤ ·)
  if l.length = 0 then 0
  else if l.length % 2 = 1 then s.getD (l.length / 2) 0
  else (s.getD (l.length / 2 - 1) 0 + s.getD (l.length / 2) 0) / 2

/-- More than half of the entries are v: so is the median. -/
theorem median_of_majority [IsStrictOrderedRing α] {l : List α} {v : α}
    (majority : l.length < 2 * l.count v) : median l = v := by
  have length : (l.insertionSort (· ≤ ·)).length = l.length := List.length_insertionSort _ _
  have count : (l.insertionSort (· ≤ ·)).count v = l.count v := (List.perm_insertionSort _ l).count_eq v
  have order : (l.insertionSort (· ≤ ·)).SortedLE := (List.pairwise_insertionSort _ l).sortedLE
  have middle : ∀ i, i < l.count v → l.length ≤ l.count v + i → i < l.length →
      (l.insertionSort (· ≤ ·)).getD i 0 = v := by
    intro i below above inside
    have bound : i < (l.insertionSort (· ≤ ·)).length := by omega
    rw [List.getD_eq_getElem _ _ bound]
    apply getElem_of_count order bound
    · omega
    · omega
  have most : l.count v ≤ l.length := List.count_le_length
  have some : ¬ l.length = 0 := by omega
  rw [median, if_neg some]
  by_cases odd : l.length % 2 = 1
  · rw [if_pos odd]
    exact middle _ (by omega) (by omega) (by omega)
  · rw [if_neg odd, middle _ (by omega) (by omega) (by omega), middle _ (by omega) (by omega) (by omega)]
    exact add_self_div_two v

end Median

end OrderStatistics
