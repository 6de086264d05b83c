import Mathlib.Data.List.Basic
import Mathlib.Data.List.Nodup
import Mathlib.Logic.Function.Basic

/-! A bounded least-recently-used map: a list of nodes, most recently used first, and an
index from keys to the identity of the node that holds them. -/
namespace Tracium

structure Node (κ α : Type) where
  id : Nat
  key : κ
  value : α

structure Lru (κ α : Type) where
  ll : List (Node κ α)
  items : κ → Option Nat
  next : Nat

namespace Lru

variable {κ α : Type}

def empty : Lru κ α := ⟨[], fun _ => none, 0⟩

/-- The node an index entry points to. -/
def deref (c : Lru κ α) (id : Nat) : Option (Node κ α) := c.ll.find? (·.id = id)

/-- The node of a key, through the index. -/
def node (c : Lru κ α) (k : κ) : Option (Node κ α) := (c.items k).bind c.deref

/-- The value of a key; reading it moves nothing. -/
def peek (c : Lru κ α) (k : κ) : Option α := (c.node k).map (·.value)

/-- list.MoveToFront. -/
def moveToFront (c : Lru κ α) (n : Node κ α) : Lru κ α :=
  { c with ll := n :: c.ll.filter (·.id ≠ n.id) }

def touch (c : Lru κ α) (k : κ) : Lru κ α :=
  match c.node k with
  | some n => c.moveToFront n
  | none => c

def pushFront [DecidableEq κ] (c : Lru κ α) (k : κ) (v : α) : Lru κ α :=
  ⟨⟨c.next, k, v⟩ :: c.ll, Function.update c.items k (some c.next), c.next + 1⟩

/-- Drops a node from the list and its key from the index. -/
def removeElement [DecidableEq κ] (c : Lru κ α) (n : Node κ α) : Lru κ α :=
  { c with ll := c.ll.filter (·.id ≠ n.id), items := Function.update c.items n.key none }

def evict [DecidableEq κ] (c : Lru κ α) (capacity : Nat) : Lru κ α :=
  if capacity < c.ll.length then
    match c.ll.getLast? with
    | some back => c.removeElement back
    | none => c
  else c

/-- An insertion or an update in place; either way the key is the most recently used. -/
def put [DecidableEq κ] (c : Lru κ α) (capacity : Nat) (k : κ) (v : α) : Lru κ α :=
  match c.node k with
  | some n => c.moveToFront { n with value := v }
  | none => (c.pushFront k v).evict capacity

/-- Index and list hold the same keys, each once, and identities are never reused. -/
structure WellFormed (c : Lru κ α) : Prop where
  ids : (c.ll.map (·.id)).Nodup
  keys : (c.ll.map (·.key)).Nodup
  points : ∀ k id, c.items k = some id ↔ ∃ n ∈ c.ll, n.key = k ∧ n.id = id
  fresh : ∀ n ∈ c.ll, n.id < c.next

theorem empty_wellFormed : (empty : Lru κ α).WellFormed := by
  refine ⟨List.nodup_nil, List.nodup_nil, ?_, ?_⟩ <;> simp [empty]

namespace WellFormed

variable {c : Lru κ α}

theorem eq_of_id (wf : c.WellFormed) {m n : Node κ α} (hm : m ∈ c.ll) (hn : n ∈ c.ll)
    (same : m.id = n.id) : m = n := List.inj_on_of_nodup_map wf.ids hm hn same

theorem eq_of_key (wf : c.WellFormed) {m n : Node κ α} (hm : m ∈ c.ll) (hn : n ∈ c.ll)
    (same : m.key = n.key) : m = n := List.inj_on_of_nodup_map wf.keys hm hn same

/-- The index finds a node exactly when the list holds one with that key. -/
theorem node_eq_some_iff (wf : c.WellFormed) {k : κ} {n : Node κ α} :
    c.node k = some n ↔ n ∈ c.ll ∧ n.key = k := by
  constructor
  · intro found
    obtain ⟨id, indexed, held⟩ := Option.bind_eq_some_iff.mp found
    obtain ⟨m, hm, key, hid⟩ := (wf.points k id).mp indexed
    have member : n ∈ c.ll := List.mem_of_find?_eq_some held
    have same : n.id = id := by simpa using List.find?_some held
    rw [wf.eq_of_id member hm (same.trans hid.symm)]
    exact ⟨hm, key⟩
  · rintro ⟨hn, rfl⟩
    refine Option.bind_eq_some_iff.mpr ⟨n.id, (wf.points _ _).mpr ⟨n, hn, rfl, rfl⟩, ?_⟩
    cases found : c.deref n.id with
    | none => exact absurd hn (by simpa using fun h => List.find?_eq_none.mp found n h (by simp))
    | some m =>
      have same : m.id = n.id := by simpa using List.find?_some found
      rw [wf.eq_of_id (List.mem_of_find?_eq_some found) hn same]

theorem node_eq_none_iff (wf : c.WellFormed) {k : κ} :
    c.node k = none ↔ ∀ n ∈ c.ll, n.key ≠ k := by
  rw [Option.eq_none_iff_forall_ne_some]
  constructor
  · intro missing n hn key
    exact missing n (wf.node_eq_some_iff.mpr ⟨hn, key⟩)
  · intro missing n found
    obtain ⟨hn, key⟩ := wf.node_eq_some_iff.mp found
    exact missing n hn key

theorem peek_eq_some_iff (wf : c.WellFormed) {k : κ} {v : α} :
    c.peek k = some v ↔ ∃ n ∈ c.ll, n.key = k ∧ n.value = v := by
  simp only [peek, Option.map_eq_some_iff, wf.node_eq_some_iff, and_assoc]

/-- A node with the identity and key of a held one takes its place at the front. -/
theorem moveToFront (wf : c.WellFormed) {n m : Node κ α} (hn : n ∈ c.ll) (id : m.id = n.id)
    (key : m.key = n.key) : (c.moveToFront m).WellFormed := by
  have other : ∀ x ∈ c.ll.filter (·.id ≠ m.id), x ∈ c.ll ∧ x.key ≠ m.key := by
    intro x hx
    obtain ⟨member, ne⟩ := List.mem_filter.mp hx
    refine ⟨member, fun same => ?_⟩
    rw [wf.eq_of_key member hn (same.trans key), id] at ne
    simp at ne
  refine ⟨?_, ?_, ?_, ?_⟩
  · refine List.nodup_cons.mpr ⟨?_, (List.filter_sublist.map _).nodup wf.ids⟩
    rw [List.mem_map]
    rintro ⟨x, hx, same⟩
    simp [same] at hx
  · refine List.nodup_cons.mpr ⟨?_, (List.filter_sublist.map _).nodup wf.keys⟩
    rw [List.mem_map]
    rintro ⟨x, hx, same⟩
    exact (other x hx).2 same
  · intro k i
    rw [show (c.moveToFront m).items = c.items from rfl, wf.points k i]
    constructor
    · rintro ⟨x, hx, rfl, rfl⟩
      by_cases same : x.id = m.id
      · have : x = n := wf.eq_of_id hx hn (same.trans id)
        exact ⟨m, List.mem_cons_self, by rw [this, key], same.symm⟩
      · exact ⟨x, List.mem_cons_of_mem _ (List.mem_filter.mpr ⟨hx, by simpa using same⟩), rfl, rfl⟩
    · rintro ⟨x, hx, rfl, rfl⟩
      rcases List.mem_cons.mp hx with rfl | hx
      · exact ⟨n, hn, key.symm, id.symm⟩
      · exact ⟨x, (other x hx).1, rfl, rfl⟩
  · intro x hx
    rcases List.mem_cons.mp hx with rfl | hx
    · exact id ▸ wf.fresh n hn
    · exact wf.fresh x (other x hx).1

theorem pushFront [DecidableEq κ] (wf : c.WellFormed) {k : κ} (missing : c.node k = none) (v : α) :
    (c.pushFront k v).WellFormed := by
  have other := wf.node_eq_none_iff.mp missing
  refine ⟨?_, ?_, ?_, ?_⟩
  · refine List.nodup_cons.mpr ⟨?_, wf.ids⟩
    rw [List.mem_map]
    rintro ⟨x, hx, same⟩
    exact absurd (wf.fresh x hx) (by simp [same])
  · refine List.nodup_cons.mpr ⟨?_, wf.keys⟩
    rw [List.mem_map]
    rintro ⟨x, hx, same⟩
    exact other x hx same
  · intro k' i
    by_cases same : k' = k
    · subst same
      rw [show (c.pushFront k' v).items k' = some c.next from Function.update_self ..]
      constructor
      · intro h
        exact ⟨_, List.mem_cons_self, rfl, Option.some.inj h⟩
      · rintro ⟨x, hx, key, rfl⟩
        rcases List.mem_cons.mp hx with rfl | hx
        · rfl
        · exact absurd key (other x hx)
    · rw [show (c.pushFront k v).items k' = c.items k' from Function.update_of_ne same .., wf.points]
      constructor
      · rintro ⟨x, hx, rest⟩
        exact ⟨x, List.mem_cons_of_mem _ hx, rest⟩
      · rintro ⟨x, hx, key, rfl⟩
        rcases List.mem_cons.mp hx with rfl | hx
        · exact absurd key.symm same
        · exact ⟨x, hx, key, rfl⟩
  · intro x hx
    rcases List.mem_cons.mp hx with rfl | hx
    · exact Nat.lt_succ_self _
    · exact Nat.lt_succ_of_lt (wf.fresh x hx)

theorem removeElement [DecidableEq κ] (wf : c.WellFormed) {n : Node κ α} (hn : n ∈ c.ll) :
    (c.removeElement n).WellFormed := by
  refine ⟨(List.filter_sublist.map _).nodup wf.ids, (List.filter_sublist.map _).nodup wf.keys,
    ?_, fun x hx => wf.fresh x (List.mem_filter.mp hx).1⟩
  intro k i
  have held : ∀ x, x ∈ (c.removeElement n).ll ↔ x ∈ c.ll ∧ x.id ≠ n.id := by
    intro x
    simp [Lru.removeElement]
  by_cases same : k = n.key
  · subst same
    rw [show (c.removeElement n).items n.key = none from Function.update_self ..]
    constructor
    · intro h
      cases h
    · rintro ⟨x, hx, key, -⟩
      obtain ⟨member, ne⟩ := (held x).mp hx
      exact absurd (congrArg (·.id) (wf.eq_of_key member hn key)) ne
  · rw [show (c.removeElement n).items k = c.items k from Function.update_of_ne same .., wf.points]
    constructor
    · rintro ⟨x, hx, rfl, rfl⟩
      refine ⟨x, (held x).mpr ⟨hx, fun id => same ?_⟩, rfl, rfl⟩
      rw [wf.eq_of_id hx hn id]
    · rintro ⟨x, hx, rest⟩
      exact ⟨x, ((held x).mp hx).1, rest⟩

theorem evict [DecidableEq κ] (wf : c.WellFormed) (capacity : Nat) : (c.evict capacity).WellFormed := by
  unfold Lru.evict
  split
  · split
    next back last => exact wf.removeElement (List.mem_of_getLast? last)
    next => exact wf
  · exact wf

theorem touch (wf : c.WellFormed) (k : κ) : (c.touch k).WellFormed := by
  unfold Lru.touch
  split
  next n found => exact wf.moveToFront (wf.node_eq_some_iff.mp found).1 rfl rfl
  next => exact wf

theorem put [DecidableEq κ] (wf : c.WellFormed) (capacity : Nat) (k : κ) (v : α) :
    (c.put capacity k v).WellFormed := by
  unfold Lru.put
  split
  next n found => exact wf.moveToFront (wf.node_eq_some_iff.mp found).1 rfl rfl
  next missing => exact (wf.pushFront missing v).evict capacity

/-- A recency change shows in no value. -/
theorem peek_touch (wf : c.WellFormed) (k k' : κ) : (c.touch k).peek k' = c.peek k' := by
  apply Option.ext
  intro v
  rw [(wf.touch k).peek_eq_some_iff, wf.peek_eq_some_iff]
  unfold Lru.touch
  split
  next n found =>
    have hn := (wf.node_eq_some_iff.mp found).1
    have members : ∀ x, x ∈ (c.moveToFront n).ll ↔ x ∈ c.ll := by
      intro x
      simp only [Lru.moveToFront, List.mem_cons, List.mem_filter, decide_eq_true_eq]
      constructor
      · rintro (rfl | ⟨hx, -⟩)
        exacts [hn, hx]
      · intro hx
        by_cases same : x.id = n.id
        exacts [.inl (wf.eq_of_id hx hn same), .inr ⟨hx, same⟩]
    simp only [members]
  next => rfl

theorem mem_evict [DecidableEq κ] {capacity : Nat} {n : Node κ α} (member : n ∈ (c.evict capacity).ll) :
    n ∈ c.ll := by
  unfold Lru.evict at member
  split at member
  · split at member
    · exact (List.mem_filter.mp member).1
    · exact member
  · exact member

/-- After an insertion a key's value is the inserted one or, for another key, its old one;
which of the others were evicted does not matter to a reader of values. -/
theorem peek_put [DecidableEq κ] (wf : c.WellFormed) {capacity : Nat} {k k' : κ} {v w : α}
    (found : (c.put capacity k v).peek k' = some w) :
    (k' = k ∧ w = v) ∨ (k' ≠ k ∧ c.peek k' = some w) := by
  obtain ⟨n, member, rfl, rfl⟩ := (wf.put capacity k v).peek_eq_some_iff.mp found
  unfold Lru.put at member
  split at member
  next m held =>
    obtain ⟨hm, rfl⟩ := wf.node_eq_some_iff.mp held
    rcases List.mem_cons.mp member with rfl | member
    · exact .inl ⟨rfl, rfl⟩
    · obtain ⟨old, ne⟩ := List.mem_filter.mp member
      refine .inr ⟨fun key => ?_, wf.peek_eq_some_iff.mpr ⟨n, old, rfl, rfl⟩⟩
      rw [wf.eq_of_key old hm key] at ne
      simp at ne
  next missing =>
    rcases List.mem_cons.mp (mem_evict member) with rfl | old
    · exact .inl ⟨rfl, rfl⟩
    · exact .inr ⟨wf.node_eq_none_iff.mp missing n old, wf.peek_eq_some_iff.mpr ⟨n, old, rfl, rfl⟩⟩

end WellFormed
end Lru
end Tracium
