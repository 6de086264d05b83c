import Tracium.OrderedMap
import Mathlib.Algebra.BigOperators.Group.List.Basic
import Mathlib.Algebra.GroupWithZero.Nat
import Mathlib.Data.Finset.Card

/-! Counts per key in a map that holds a bounded number of keys, in machine words. An
addition under a new key is refused once the map is full; `refused` remembers how much of
each key that was, so that nothing leaves the sum of the two except whole words. -/
namespace Tracium.CappedCounts

open OrderedMap

variable {κ : Type} [DecidableEq κ]

def count (m : List (κ × Nat)) (k : κ) : Nat := (get m k).getD 0

structure Held (κ : Type) where
  counts : List (κ × Nat)
  refused : κ → Nat

/-- `word` is the number of values a count can take, `cap` the number of keys held. -/
def Held.add (cap word : Nat) (h : Held κ) (k : κ) (n : Nat) : Held κ :=
  if (get h.counts k).isSome ∨ h.counts.length < cap then
    { h with counts := put h.counts k ((count h.counts k + n) % word) }
  else
    { h with refused := Function.update h.refused k (h.refused k + n) }

/-- Adding the entries of another map one by one. -/
def Held.addAll (cap word : Nat) (h : Held κ) (entries : List (κ × Nat)) : Held κ :=
  entries.foldl (fun h e => h.add cap word e.1 e.2) h

/-- What has been added under `k`, up to whole words. -/
def Held.sum (h : Held κ) (k : κ) : Nat := count h.counts k + h.refused k

def Held.keys (h : Held κ) : List κ := h.counts.map Prod.fst

theorem count_put (m : List (κ × Nat)) (k : κ) (n : Nat) (other : κ) :
    count (put m k n) other = if other = k then n else count m other := by
  unfold count
  by_cases same : other = k
  · rw [if_pos same, same, get_put_same, Option.getD_some]
  · rw [if_neg same, get_put_other m n (Ne.symm same)]

@[simp] theorem count_nil (k : κ) : count ([] : List (κ × Nat)) k = 0 := rfl

/-- In a map without duplicates the entries of a key add up to its count. -/
theorem sum_entries (m : List (κ × Nat)) (distinct : DistinctKeys m) (k : κ) :
    (m.map fun e => if e.1 = k then e.2 else 0).sum = count m k := by
  induction m with
  | nil => rfl
  | cons e rest ih =>
    obtain ⟨fresh, tail⟩ := List.nodup_cons.mp distinct
    rw [List.map_cons, List.sum_cons, ih tail, count, count, get_cons]
    by_cases same : e.1 = k
    · have absent : get rest k = none := get_eq_none (same ▸ fresh)
      simp [same, absent]
    · simp [same]

/-! What one addition does. -/

variable {cap word : Nat}

theorem Held.add_sum (h : Held κ) (k : κ) (n : Nat) (other : κ) :
    ∃ wraps, h.sum other + (if k = other then n else 0) =
      (h.add cap word k n).sum other + word * wraps := by
  unfold Held.add Held.sum
  by_cases same : k = other
  · subst same
    rw [if_pos rfl]
    split
    · have split := Nat.mod_add_div (count h.counts k + n) word
      refine ⟨(count h.counts k + n) / word, ?_⟩
      dsimp only
      rw [count_put, if_pos rfl]
      omega
    · refine ⟨0, ?_⟩
      dsimp only
      rw [Function.update_self]
      omega
  · rw [if_neg same]
    refine ⟨0, ?_⟩
    split
    · dsimp only
      rw [count_put, if_neg (Ne.symm same)]
      omega
    · dsimp only
      rw [Function.update_of_ne (Ne.symm same)]
      omega

theorem Held.add_keys (h : Held κ) (k : κ) (n : Nat) :
    (h.add cap word k n).keys =
      if k ∈ h.keys ∨ cap ≤ h.counts.length then h.keys else h.keys ++ [k] := by
  have present := get_isSome_iff h.counts k
  unfold Held.add Held.keys
  by_cases found : k ∈ h.counts.map Prod.fst
  · rw [if_pos (.inl (present.mpr found)), if_pos (.inl found)]
    exact (keys_put h.counts k _).trans (if_neg fun absent => (get_eq_none_iff _ k).mp absent found)
  · by_cases room : h.counts.length < cap
    · have notFull : ¬(k ∈ h.counts.map Prod.fst ∨ cap ≤ h.counts.length) := by
        rintro (member | full)
        · exact found member
        · omega
      rw [if_pos (.inr room), if_neg notFull]
      exact (keys_put h.counts k _).trans (if_pos (get_eq_none found))
    · have shut : ¬((get h.counts k).isSome ∨ h.counts.length < cap) := by
        rintro (member | free)
        · exact found (present.mp member)
        · exact room free
      rw [if_neg shut, if_pos (.inr (by omega))]

/-- Distinct keys, and no more of them than the cap. -/
structure Held.Bounded (cap : Nat) (h : Held κ) : Prop where
  distinct : DistinctKeys h.counts
  length : h.counts.length ≤ cap

omit [DecidableEq κ] in
theorem Held.keys_length (h : Held κ) : h.keys.length = h.counts.length := List.length_map _

theorem Held.add_bounded {h : Held κ} (bounded : h.Bounded cap) (k : κ) (n : Nat) :
    (h.add cap word k n).Bounded cap := by
  have keys : (h.add cap word k n).keys =
      if k ∈ h.keys ∨ cap ≤ h.counts.length then h.keys else h.keys ++ [k] := h.add_keys k n
  have distinct : h.keys.Nodup := bounded.distinct
  have length := bounded.length
  constructor
  · show (h.add cap word k n).keys.Nodup
    rw [keys]
    split
    · exact distinct
    · rename_i room
      rw [List.nodup_append]
      refine ⟨distinct, List.nodup_singleton k, ?_⟩
      rintro x member y last rfl
      rw [List.mem_singleton] at last
      exact room (.inl (last ▸ member))
  · rw [← Held.keys_length, keys]
    split
    · rw [Held.keys_length]
      exact length
    · rename_i room
      rw [List.length_append, Held.keys_length, List.length_singleton]
      omega

theorem Held.add_keys_subset {h : Held κ} {all : List κ} (inside : h.keys ⊆ all)
    (k : κ) (n : Nat) (known : k ∈ all) : (h.add cap word k n).keys ⊆ all := by
  rw [h.add_keys]
  split
  · exact inside
  · apply List.append_subset.mpr
    exact ⟨inside, List.cons_subset.mpr ⟨known, List.nil_subset all⟩⟩

/-- An addition is refused only when the keys held and the new one exceed the cap. -/
theorem Held.add_refused {h : Held κ} (bounded : h.Bounded cap) {all : List κ}
    (inside : h.keys ⊆ all) (k : κ) (n : Nat) (known : k ∈ all)
    (few : all.toFinset.card ≤ cap) : (h.add cap word k n).refused = h.refused := by
  unfold Held.add
  split
  · rfl
  · rename_i shut
    rw [get_isSome_iff] at shut
    exfalso
    have fresh : k ∉ h.keys := fun found => shut (.inl found)
    have full : cap ≤ h.counts.length := by omega
    have wider : (insert k h.keys.toFinset).card ≤ all.toFinset.card := by
      apply Finset.card_le_card
      intro x member
      rw [Finset.mem_insert, List.mem_toFinset] at member
      rw [List.mem_toFinset]
      rcases member with rfl | member
      · exact known
      · exact inside member
    have distinct : h.keys.Nodup := bounded.distinct
    rw [Finset.card_insert_of_notMem (by rwa [List.mem_toFinset]), List.toFinset_card_of_nodup distinct,
      Held.keys_length] at wider
    omega

/-! What a merge does, in whatever order the entries come. -/

theorem Held.addAll_sum (h : Held κ) (entries : List (κ × Nat)) (k : κ) :
    ∃ wraps, h.sum k + (entries.map fun e => if e.1 = k then e.2 else 0).sum =
      (h.addAll cap word entries).sum k + word * wraps := by
  induction entries generalizing h with
  | nil => exact ⟨0, by simp [Held.addAll]⟩
  | cons e rest ih =>
    obtain ⟨later, many⟩ := ih (h.add cap word e.1 e.2)
    obtain ⟨first, one⟩ : ∃ wraps, h.sum k + (if e.1 = k then e.2 else 0) =
        (h.add cap word e.1 e.2).sum k + word * wraps := h.add_sum e.1 e.2 k
    have unfolded : h.addAll cap word (e :: rest) =
        (h.add cap word e.1 e.2).addAll cap word rest := rfl
    refine ⟨first + later, ?_⟩
    rw [unfolded, List.map_cons, List.sum_cons, Nat.mul_add]
    omega

/-- What every single addition keeps, a merge keeps. -/
theorem Held.addAll_invariant {P : Held κ → Prop} {entries : List (κ × Nat)}
    (kept : ∀ h : Held κ, P h → ∀ e ∈ entries, P (h.add cap word e.1 e.2))
    {h : Held κ} (start : P h) : P (h.addAll cap word entries) := by
  induction entries generalizing h with
  | nil => exact start
  | cons e rest ih =>
    apply ih
    · intro h holds entry member
      exact kept h holds entry (List.mem_cons_of_mem e member)
    · exact kept h start e List.mem_cons_self

theorem Held.addAll_bounded {h : Held κ} (bounded : h.Bounded cap) (entries : List (κ × Nat)) :
    (h.addAll cap word entries).Bounded cap := by
  apply Held.addAll_invariant _ bounded
  intro h bounded e _
  exact Held.add_bounded bounded e.1 e.2

theorem Held.addAll_keys_subset {h : Held κ} {all : List κ} (inside : h.keys ⊆ all)
    {entries : List (κ × Nat)} (known : ∀ e ∈ entries, e.1 ∈ all) :
    (h.addAll cap word entries).keys ⊆ all := by
  have kept : ∀ h : Held κ, h.keys ⊆ all → ∀ e ∈ entries, (h.add cap word e.1 e.2).keys ⊆ all := by
    intro h inside e member
    exact Held.add_keys_subset inside e.1 e.2 (known e member)
  exact Held.addAll_invariant kept inside

/-- A merge refuses nothing while all keys there are fit under the cap. -/
theorem Held.addAll_refused {h : Held κ} (bounded : h.Bounded cap) {all : List κ}
    (inside : h.keys ⊆ all) {entries : List (κ × Nat)} (known : ∀ e ∈ entries, e.1 ∈ all)
    (few : all.toFinset.card ≤ cap) : (h.addAll cap word entries).refused = h.refused := by
  induction entries generalizing h with
  | nil => rfl
  | cons e rest ih =>
    have first : e.1 ∈ all := known e List.mem_cons_self
    have later : ∀ x ∈ rest, x.1 ∈ all := fun x member => known x (List.mem_cons_of_mem e member)
    have unfolded : h.addAll cap word (e :: rest) =
        (h.add cap word e.1 e.2).addAll cap word rest := rfl
    rw [unfolded, ih (Held.add_bounded bounded e.1 e.2)
      (Held.add_keys_subset inside e.1 e.2 first) later]
    exact Held.add_refused bounded inside e.1 e.2 first few

end Tracium.CappedCounts
