import Tracium.OrderedMap
import Mathlib.Data.Finset.Card

/-! A map with room for `n` keys, filled from a sequence of entries. A key it holds may
be written again at any time, a new key only while there is room, so a key that comes too
late stays out for good. -/
namespace CappedMap

open OrderedMap

variable {κ ν : Type} [DecidableEq κ]

def put (n : Nat) (m : List (κ × ν)) (k : κ) (v : ν) : List (κ × ν) :=
  if (get m k).isNone && m.length ≥ n then m else OrderedMap.put m k v

def fill (n : Nat) (m entries : List (κ × ν)) : List (κ × ν) :=
  entries.foldl (fun m e => put n m e.1 e.2) m

def keys (m : List (κ × ν)) : Finset κ := (m.map Prod.fst).toFinset

@[simp] theorem mem_keys {m : List (κ × ν)} : k ∈ keys m ↔ ∃ e ∈ m, e.1 = k := by
  simp [keys]

@[simp] theorem keys_cons (e : κ × ν) (m : List (κ × ν)) : keys (e :: m) = insert e.1 (keys m) := by
  simp [keys]

theorem fill_cons (n : Nat) (m entries : List (κ × ν)) (e : κ × ν) :
    fill n m (e :: entries) = fill n (put n m e.1 e.2) entries := rfl

theorem fill_append (n : Nat) (m front back : List (κ × ν)) :
    fill n (fill n m front) back = fill n m (front ++ back) := (List.foldl_append ..).symm

/-- With distinct keys the entries count the keys. -/
theorem card_keys {m : List (κ × ν)} (distinct : DistinctKeys m) : (keys m).card = m.length := by
  rw [keys, List.toFinset_card_of_nodup distinct, List.length_map]

theorem keys_put_eq (m : List (κ × ν)) (k : κ) (v : ν) :
    keys (OrderedMap.put m k v) = insert k (keys m) := by
  ext other
  rw [keys, OrderedMap.keys_put]
  split
  · simp [keys]
  · rename_i held
    have inside : k ∈ m.map Prod.fst := (get_isSome_iff m k).mp (Option.isSome_iff_ne_none.mpr held)
    rw [← List.mem_toFinset] at inside
    rw [Finset.insert_eq_of_mem (s := keys m) inside, keys]

/-! What one write does: it is refused and nothing changes, or it is the plain write. -/

theorem put_cases (n : Nat) (m : List (κ × ν)) (k : κ) (v : ν) :
    (get m k = none ∧ n ≤ m.length ∧ put n m k v = m) ∨
    ((get m k ≠ none ∨ m.length < n) ∧ put n m k v = OrderedMap.put m k v) := by
  unfold put
  by_cases refused : get m k = none ∧ n ≤ m.length
  · left
    simp [refused]
  · right
    have taken : get m k ≠ none ∨ m.length < n := by
      by_cases absent : get m k = none
      · exact .inr (by by_contra full; exact refused ⟨absent, by omega⟩)
      · exact .inl absent
    refine ⟨taken, if_neg ?_⟩
    simpa using refused

theorem put_distinct {m : List (κ × ν)} (distinct : DistinctKeys m) (n : Nat) (k : κ) (v : ν) :
    DistinctKeys (put n m k v) := by
  obtain ⟨_, _, same⟩ | ⟨_, written⟩ := put_cases n m k v
  · rwa [same]
  · rw [written]
    exact distinct.put k v

theorem put_length {n : Nat} {m : List (κ × ν)} (bounded : m.length ≤ n) (k : κ) (v : ν) :
    (put n m k v).length ≤ n := by
  obtain ⟨_, _, same⟩ | ⟨taken, written⟩ := put_cases n m k v
  · rwa [same]
  · have counted := congrArg List.length (OrderedMap.keys_put m k v)
    rw [List.length_map] at counted
    rw [written, counted]
    split
    · rename_i absent
      have room : m.length < n := taken.resolve_left (absurd absent)
      rw [List.length_append, List.length_map, List.length_singleton]
      exact room
    · simpa using bounded

/-- A full map takes no new key. -/
theorem put_full {n : Nat} {m : List (κ × ν)} (full : n ≤ m.length) (absent : get m k = none)
    (other : κ) (v : ν) :
    n ≤ (put n m other v).length ∧ get (put n m other v) k = none := by
  obtain ⟨_, _, same⟩ | ⟨taken, written⟩ := put_cases n m other v
  · rw [same]
    exact ⟨full, absent⟩
  · have held : get m other ≠ none := taken.resolve_right (by omega)
    have counted := congrArg List.length (OrderedMap.keys_put m other v)
    rw [if_neg held, List.length_map, List.length_map] at counted
    have apart : other ≠ k := fun same => held (same ▸ absent)
    rw [written, counted, get_put_other m v apart]
    exact ⟨full, absent⟩

/-! What a whole sequence of entries leaves. -/

theorem fill_distinct {m : List (κ × ν)} (distinct : DistinctKeys m) (n : Nat)
    (entries : List (κ × ν)) : DistinctKeys (fill n m entries) := by
  induction entries generalizing m with
  | nil => exact distinct
  | cons e rest ih => exact ih (put_distinct distinct n e.1 e.2)

theorem fill_length {n : Nat} {m : List (κ × ν)} (bounded : m.length ≤ n)
    (entries : List (κ × ν)) : (fill n m entries).length ≤ n := by
  induction entries generalizing m with
  | nil => exact bounded
  | cons e rest ih => exact ih (put_length bounded e.1 e.2)

theorem fill_full {n : Nat} {m : List (κ × ν)} (full : n ≤ m.length) (absent : get m k = none)
    (entries : List (κ × ν)) : get (fill n m entries) k = none := by
  induction entries generalizing m with
  | nil => exact absent
  | cons e rest ih =>
    obtain ⟨stillFull, stillAbsent⟩ := put_full full absent e.1 e.2
    exact ih stillFull stillAbsent

/-- A write before later ones counts where none of them has its key. -/
theorem or_get_put (later m : List (κ × ν)) (e : κ × ν) (k : κ) :
    (get later k).or (get (OrderedMap.put m e.1 e.2) k) = (get (later ++ [e]) k).or (get m k) := by
  rw [get_append_one]
  by_cases same : e.1 = k
  · subst same
    rw [get_put_same, if_pos rfl]
    cases get later e.1 <;> rfl
  · rw [get_put_other m e.2 same, if_neg same, Option.or_none]

/-- A key in the map carries the last value it was written with. -/
theorem get_fill {n : Nat} {m entries : List (κ × ν)} (held : get (fill n m entries) k ≠ none) :
    get (fill n m entries) k = (get entries.reverse k).or (get m k) := by
  induction entries generalizing m with
  | nil => simp [fill]
  | cons e rest ih =>
    rw [fill_cons] at held ⊢
    rw [ih held, List.reverse_cons]
    obtain ⟨absent, full, same⟩ | ⟨_, written⟩ := put_cases n m e.1 e.2
    · -- the refused key is another one, since it would stay out
      have apart : e.1 ≠ k := by
        rintro rfl
        rw [same] at held
        exact held (fill_full full absent rest)
      rw [same, get_append_one, if_neg apart, Option.or_none]
    · rw [written, or_get_put]

/-- While all keys together fit, nothing is refused. -/
theorem get_fill_of_room {n : Nat} {m entries : List (κ × ν)} (distinct : DistinctKeys m)
    (room : (keys m ∪ keys entries).card ≤ n) (k : κ) :
    get (fill n m entries) k = (get entries.reverse k).or (get m k) := by
  induction entries generalizing m with
  | nil => simp [fill]
  | cons e rest ih =>
    have written : put n m e.1 e.2 = OrderedMap.put m e.1 e.2 := by
      obtain ⟨absent, full, _⟩ | ⟨_, written⟩ := put_cases n m e.1 e.2
      · have fresh : e.1 ∉ keys m := by
          rw [keys, List.mem_toFinset]
          exact (get_eq_none_iff m e.1).mp absent
        have grown : insert e.1 (keys m) ⊆ keys m ∪ keys (e :: rest) := by
          intro x member
          rcases Finset.mem_insert.mp member with rfl | old
          · exact Finset.mem_union_right _ (by simp)
          · exact Finset.mem_union_left _ old
        have counted := Finset.card_le_card grown
        rw [Finset.card_insert_of_notMem fresh, card_keys distinct] at counted
        omega
      · exact written
    have sameKeys : keys (OrderedMap.put m e.1 e.2) ∪ keys rest = keys m ∪ keys (e :: rest) := by
      rw [keys_put_eq, keys_cons, Finset.insert_union, Finset.union_insert]
    rw [fill_cons, written, ih (distinct.put e.1 e.2) (by rwa [sameKeys]), List.reverse_cons,
      or_get_put]

end CappedMap
