import Mathlib.Data.List.Nodup
import Mathlib.Data.List.Perm.Basic
import Mathlib.Order.Lattice

/-! Pages cut out of a listing that is sorted by a key on which rows may tie. Every page is
cut from a listing of its own, and two listings may order tied rows differently; the pages
still make up the rows when no page boundary falls inside a tie. -/
namespace Paging

variable {α κ : Type} [LinearOrder κ]

section Definitions

variable (key : α → κ) (rows : List α)

/-- One listing of the rows, highest key first. -/
structure Ordered (order : List α) : Prop where
  perm : order.Perm rows
  sorted : order.Pairwise fun a b => key b ≤ key a

/-- The `i`-th page of a listing. -/
def page (order : List α) (size i : Nat) : List α := (order.drop (i * size)).take size

/-- Rows of one key stand on both sides of position `b`. -/
def Cut (b : Nat) : Prop :=
  ∃ r ∈ rows, (rows.countP fun q => decide (key r < key q)) < b ∧
    b < rows.countP fun q => decide (key r ≤ key q)

end Definitions

variable {key : α → κ} {rows order order' : List α}

/-! The rows a sorted listing starts with. -/

section Sorted

variable {p : α → Bool} (upward : ∀ a b, key b ≤ key a → p b = true → p a = true)
include upward

theorem countP_below {a : α} {rest : List α} (sorted : (a :: rest).Pairwise fun a b => key b ≤ key a)
    (low : p a = false) : rest.countP p = 0 := by
  rw [List.countP_eq_zero]
  intro b member high
  have up := upward a b (List.rel_of_pairwise_cons sorted member) high
  rw [low] at up
  cases up

theorem sorted_getElem (sorted : order.Pairwise fun a b => key b ≤ key a) {b : Nat}
    (bound : b < order.length) : p order[b] = true ↔ b < order.countP p := by
  induction order generalizing b with
  | nil => simp at bound
  | cons a rest ih =>
    have tail := List.Pairwise.of_cons sorted
    cases high : p a with
    | true =>
      cases b with
      | zero => simp [high]
      | succ b =>
        have inTail : b < rest.length := by simpa using bound
        rw [List.getElem_cons_succ, ih tail inTail, List.countP_cons_of_pos high]
        omega
    | false =>
      have none := countP_below upward sorted high
      cases b with
      | zero => simp [high, none]
      | succ b =>
        have inTail : b < rest.length := by simpa using bound
        rw [List.getElem_cons_succ, ih tail inTail, List.countP_cons_of_neg (by simp [high]), none]
        omega

theorem sorted_take (sorted : order.Pairwise fun a b => key b ≤ key a) :
    order.take (order.countP p) = order.filter p := by
  induction order with
  | nil => rfl
  | cons a rest ih =>
    cases high : p a with
    | true =>
      rw [List.countP_cons_of_pos high, List.filter_cons_of_pos high, List.take_succ_cons,
        ih (List.Pairwise.of_cons sorted)]
    | false =>
      have none := countP_below upward sorted high
      rw [List.countP_cons_of_neg (by simp [high]), List.filter_cons_of_neg (by simp [high]), none,
        List.take_zero, eq_comm, List.filter_eq_nil_iff]
      exact List.countP_eq_zero.mp none

end Sorted

theorem above_upward (t : κ) (a b : α) (le : key b ≤ key a) (high : decide (t < key b) = true) :
    decide (t < key a) = true := by
  simp only [decide_eq_true_eq] at high ⊢
  exact lt_of_lt_of_le high le

theorem atLeast_upward (t : κ) (a b : α) (le : key b ≤ key a) (high : decide (t ≤ key b) = true) :
    decide (t ≤ key a) = true := by
  simp only [decide_eq_true_eq] at high ⊢
  exact le_trans high le

namespace Ordered

theorem above_iff (ordered : Ordered key rows order) {b : Nat} (bound : b < order.length) (t : κ) :
    t < key order[b] ↔ b < rows.countP fun q => decide (t < key q) := by
  have at_ := sorted_getElem (above_upward t) ordered.sorted bound
  rwa [decide_eq_true_eq, ordered.perm.countP_eq] at at_

theorem atLeast_iff (ordered : Ordered key rows order) {b : Nat} (bound : b < order.length) (t : κ) :
    t ≤ key order[b] ↔ b < rows.countP fun q => decide (t ≤ key q) := by
  have at_ := sorted_getElem (atLeast_upward t) ordered.sorted bound
  rwa [decide_eq_true_eq, ordered.perm.countP_eq] at at_

theorem take_above (ordered : Ordered key rows order) (t : κ) :
    order.take (rows.countP fun q => decide (t < key q)) = order.filter fun q => decide (t < key q) := by
  rw [← ordered.perm.countP_eq]
  exact sorted_take (above_upward t) ordered.sorted

/-- A boundary outside every tie cuts the same rows off every listing. -/
theorem take_perm (ordered : Ordered key rows order) (ordered' : Ordered key rows order') {b : Nat}
    (whole : ¬ Cut key rows b) : (order.take b).Perm (order'.take b) := by
  have same := ordered.perm.trans ordered'.perm.symm
  by_cases bound : b < order.length
  · have first : ¬ b < rows.countP fun q => decide (key order[b] < key q) := by
      rw [← ordered.above_iff bound]
      exact lt_irrefl _
    have last : b < rows.countP fun q => decide (key order[b] ≤ key q) := by
      rw [← ordered.atLeast_iff bound]
    have member : order[b] ∈ rows := ordered.perm.mem_iff.mp (List.getElem_mem bound)
    have edge : (rows.countP fun q => decide (key order[b] < key q)) = b := by
      by_contra apart
      exact whole ⟨order[b], member, by omega, last⟩
    rw [← edge, ordered.take_above, ordered'.take_above]
    exact same.filter _
  · have length := same.length_eq
    rw [List.take_of_length_le (by omega), List.take_of_length_le (by omega)]
    exact same

theorem page_perm (ordered : Ordered key rows order) (ordered' : Ordered key rows order')
    {size i : Nat} (whole : ∀ i, ¬ Cut key rows (i * size)) :
    (page order size i).Perm (page order' size i) := by
  have here := ordered.take_perm ordered' (whole i)
  have next := ordered.take_perm ordered' (whole (i + 1))
  rw [Nat.succ_mul, List.take_add, List.take_add] at next
  exact (List.perm_append_left_iff _).mp ((here.symm.append_right _).trans next)

end Ordered

/-- The pages before the `n`-th are the head of any listing. -/
theorem pages_take {orders : Nat → List α} (each : ∀ i, Ordered key rows (orders i))
    (ordered : Ordered key rows order) {size : Nat} (whole : ∀ i, ¬ Cut key rows (i * size)) (n : Nat) :
    ((List.range n).flatMap fun i => page (orders i) size i).Perm (order.take (n * size)) := by
  induction n with
  | zero => simp
  | succ n ih =>
    rw [List.range_succ, List.flatMap_append, List.flatMap_singleton, Nat.succ_mul, List.take_add]
    exact ih.append ((each n).page_perm ordered whole)

/-! A cut tie: two rows of one key change places between two pages. -/

/-- Some listing exists. -/
theorem exists_ordered (key : α → κ) (rows : List α) : ∃ order, Ordered key rows order := by
  refine ⟨rows.mergeSort fun a b => decide (key b ≤ key a), List.mergeSort_perm .., ?_⟩
  have sorted : (rows.mergeSort fun a b => decide (key b ≤ key a)).Pairwise
      fun a b => decide (key b ≤ key a) = true := by
    apply List.pairwise_mergeSort
    · intro a b c first second
      simp only [decide_eq_true_eq] at first second ⊢
      exact le_trans second first
    · intro a b
      simp only [Bool.or_eq_true, decide_eq_true_eq]
      exact le_total _ _
  exact sorted.imp fun le => by simpa using le

theorem Ordered.swap {before after : List α} {x y : α}
    (ordered : Ordered key rows (before ++ x :: y :: after)) (tie : key x = key y) :
    Ordered key rows (before ++ y :: x :: after) := by
  refine ⟨((List.Perm.swap x y after).append_left before).trans ordered.perm, ?_⟩
  have sorted := ordered.sorted
  simp only [List.pairwise_append, List.pairwise_cons, List.mem_cons] at sorted ⊢
  obtain ⟨head, ⟨fromX, fromY, tail⟩, across⟩ := sorted
  refine ⟨head, ⟨?_, ?_, tail⟩, ?_⟩
  · rintro b (rfl | later)
    · exact le_of_eq tie
    · exact fromY b later
  · intro b later
    exact fromX b (.inr later)
  · rintro a earlier b (rfl | rfl | later)
    · exact across a earlier b (.inr (.inl rfl))
    · exact across a earlier b (.inl rfl)
    · exact across a earlier b (.inr (.inr later))

/-- The last row before a cut and the first one after it tie. -/
theorem Ordered.split_cut (ordered : Ordered key rows order) {b : Nat} (cut : Cut key rows b) :
    ∃ before x y after, order = before ++ x :: y :: after ∧ before.length + 1 = b ∧ key x = key y := by
  obtain ⟨r, _, low, high⟩ := cut
  have within : (rows.countP fun q => decide (key r ≤ key q)) ≤ order.length := by
    rw [← ordered.perm.countP_eq]
    exact List.countP_le_length
  have tied : ∀ i, (rows.countP fun q => decide (key r < key q)) ≤ i → i ≤ b →
      ∀ bound : i < order.length, key order[i] = key r := by
    intro i from_ upto bound
    have notAbove := (ordered.above_iff bound (key r)).not.mpr (by omega)
    have atLeast := (ordered.atLeast_iff bound (key r)).mpr (by omega)
    exact le_antisymm (not_lt.mp notAbove) atLeast
  have boundX : b - 1 < order.length := by omega
  have boundY : b < order.length := by omega
  refine ⟨order.take (b - 1), order[b - 1], order[b], order.drop (b + 1), ?_, ?_, ?_⟩
  · have next : b - 1 + 1 = b := by omega
    rw [← List.drop_eq_getElem_cons boundY]
    nth_rewrite 3 [← next]
    rw [← List.drop_eq_getElem_cons boundX, List.take_append_drop]
  · rw [List.length_take]
    omega
  · rw [tied (b - 1) (by omega) (by omega) boundX, tied b (by omega) (by omega) boundY]

theorem mem_page {x : α} {size i : Nat} (pos : Nat) (found : order[pos]? = some x) (from_ : i * size ≤ pos)
    (upto : pos < i * size + size) : x ∈ page order size i := by
  apply List.mem_of_getElem? (i := pos - i * size)
  rw [page, List.getElem?_take_of_lt (by omega), List.getElem?_drop, Nat.add_sub_cancel' from_]
  exact found

/-- The row that ends one page of a listing starts the next page of the other. -/
theorem mem_both_pages {before after : List α} {x y : α} {size i : Nat}
    (length : before.length + 1 = (i + 1) * size) :
    x ∈ page (before ++ x :: y :: after) size i ∧ x ∈ page (before ++ y :: x :: after) size (i + 1) := by
  have next : (i + 1) * size = i * size + size := Nat.succ_mul i size
  have positive : 0 < size := by
    by_contra zero
    have none : size = 0 := by omega
    rw [none, Nat.mul_zero] at length
    omega
  constructor
  · apply mem_page before.length
    · simp
    · omega
    · omega
  · apply mem_page (before.length + 1)
    · simp
    · omega
    · omega

/-- The pages of every choice of listings make up the rows exactly when no page boundary
falls inside a tie. -/
theorem pages_perm_iff (distinct : rows.Nodup) {size n : Nat} (enough : rows.length ≤ n * size) :
    (∀ orders : Nat → List α, (∀ i, Ordered key rows (orders i)) →
      ((List.range n).flatMap fun i => page (orders i) size i).Perm rows) ↔
    ∀ i, ¬ Cut key rows (i * size) := by
  obtain ⟨order, ordered⟩ := exists_ordered key rows
  constructor
  · intro complete i cut
    obtain ⟨before, x, y, after, rfl, length, tie⟩ := ordered.split_cut cut
    cases i with
    | zero => simp at length
    | succ i =>
      have each : ∀ j, Ordered key rows
          (if j = i + 1 then before ++ y :: x :: after else before ++ x :: y :: after) := by
        intro j
        split
        · exact ordered.swap tie
        · exact ordered
      have total := ordered.perm.length_eq
      simp only [List.length_append, List.length_cons] at total
      have inside : i + 1 < n := by
        apply Nat.lt_of_mul_lt_mul_right (a := size)
        omega
      -- the pages are disjoint, and two of them share a row
      obtain ⟨_, disjoint⟩ := List.nodup_flatMap.mp ((complete _ each).nodup_iff.mpr distinct)
      have apart := List.pairwise_iff_getElem.mp disjoint i (i + 1) (by simp; omega) (by simpa using inside)
        (by omega)
      obtain ⟨last, first⟩ := mem_both_pages length
      simp only [List.getElem_range, Function.onFun, Nat.left_eq_add, Nat.one_ne_zero, ↓reduceIte] at apart
      exact apart last first
  · intro whole orders each
    have pages := pages_take each ordered whole n
    have length := ordered.perm.length_eq
    rw [List.take_of_length_le (by omega)] at pages
    exact pages.trans ordered.perm

end Paging
