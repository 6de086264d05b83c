import Tracium.Lru

/-! The order of a least-recently-used map: what each operation does to its keys and
values, and that the keys stand in the order of their last uses in a history. -/
namespace Tracium

namespace Lru

variable {κ α : Type}

/-- The keys, most recently used first. -/
def recency (c : Lru κ α) : List κ := c.ll.map (·.key)

@[simp] theorem recency_empty : (empty : Lru κ α).recency = [] := rfl

@[simp] theorem recency_length (c : Lru κ α) : c.recency.length = c.ll.length := by simp [recency]

theorem mem_recency {c : Lru κ α} {k : κ} : k ∈ c.recency ↔ ∃ n ∈ c.ll, n.key = k := List.mem_map

/-- The key an insertion pushes out: the last one, when there is no room for another. -/
def victim [DecidableEq κ] (c : Lru κ α) (capacity : Nat) (k : κ) : Option κ :=
  if k ∈ c.recency ∨ c.ll.length < capacity then none else c.recency.getLast?

namespace WellFormed

variable {c : Lru κ α}

theorem node_none_iff (wf : c.WellFormed) {k : κ} : c.node k = none ↔ k ∉ c.recency := by
  rw [wf.node_eq_none_iff, mem_recency]
  push Not
  rfl

theorem peek_none_iff (wf : c.WellFormed) {k : κ} : c.peek k = none ↔ k ∉ c.recency := by
  rw [peek, Option.map_eq_none_iff, wf.node_none_iff]

variable [DecidableEq κ]

/-- Taking a node out of the list takes its key out of the keys. -/
theorem recency_filter (wf : c.WellFormed) {n : Node κ α} (held : n ∈ c.ll) :
    (c.ll.filter (·.id ≠ n.id)).map (·.key) = c.recency.erase n.key := by
  rw [recency, List.Nodup.erase_eq_filter wf.keys, List.filter_map]
  congr 1
  apply List.filter_congr
  intro m member
  have same : m.id = n.id ↔ m.key = n.key :=
    ⟨fun id => congrArg (·.key) (wf.eq_of_id member held id),
      fun key => congrArg (·.id) (wf.eq_of_key member held key)⟩
  rw [Function.comp_apply, Bool.eq_iff_iff, decide_eq_true_eq, bne_iff_ne]
  exact not_congr same

theorem recency_touch (wf : c.WellFormed) {k : κ} (held : k ∈ c.recency) :
    (c.touch k).recency = k :: c.recency.erase k := by
  obtain ⟨n, member, rfl⟩ := mem_recency.mp held
  have found : c.node n.key = some n := wf.node_eq_some_iff.mpr ⟨member, rfl⟩
  rw [Lru.touch, found]
  exact congrArg (n.key :: ·) (wf.recency_filter member)

theorem length_touch (wf : c.WellFormed) {k : κ} (held : k ∈ c.recency) :
    (c.touch k).ll.length = c.ll.length := by
  have positive := List.length_pos_of_mem held
  rw [← recency_length, wf.recency_touch held, List.length_cons, List.length_erase_of_mem held]
  rw [recency_length] at positive ⊢
  omega

theorem recency_evict (wf : c.WellFormed) (capacity : Nat) :
    (c.evict capacity).recency = if capacity < c.ll.length then c.recency.dropLast else c.recency := by
  rw [Lru.evict]
  split
  · cases last : c.ll.getLast? with
    | none =>
      have empty : c.recency = [] := by rw [recency, List.getLast?_eq_none_iff.mp last]; rfl
      simp [empty]
    | some back =>
      obtain ⟨front, split⟩ := List.getLast?_eq_some_iff.mp last
      have keys : c.recency = front.map (·.key) ++ [back.key] := by
        rw [recency, split, List.map_append]
        rfl
      have distinct := wf.keys
      rw [split, List.map_append, List.nodup_append] at distinct
      have absent : back.key ∉ front.map (·.key) := fun inside =>
        distinct.2.2 _ inside _ (by simp) rfl
      have removed : (c.removeElement back).recency = c.recency.erase back.key :=
        wf.recency_filter (List.mem_of_getLast? last)
      rw [removed, keys, List.erase_append_right _ absent]
      simp
  · rfl

theorem victim_eq_none {capacity : Nat} (pos : 0 < capacity) {k : κ} :
    c.victim capacity k = none ↔ k ∈ c.recency ∨ c.ll.length < capacity := by
  rw [victim]
  split
  · rename_i kept
    exact iff_of_true rfl kept
  · rename_i full
    push Not at full
    rw [List.getLast?_eq_none_iff, or_iff_left (by omega)]
    constructor
    · intro empty
      have lengths := congrArg List.length empty
      rw [recency_length, List.length_nil] at lengths
      omega
    · intro held
      exact absurd held full.1

theorem victim_eq_some {capacity : Nat} {k gone : κ} (out : c.victim capacity k = some gone) :
    k ∉ c.recency ∧ capacity ≤ c.ll.length ∧ c.recency.getLast? = some gone := by
  rw [victim] at out
  split at out
  · cases out
  · rename_i full
    obtain ⟨absent, room⟩ := not_or.mp full
    exact ⟨absent, Nat.le_of_not_lt room, out⟩

/-- An insertion or an update puts its key in front and pushes out its victim. -/
theorem recency_put (wf : c.WellFormed) {capacity : Nat} (pos : 0 < capacity)
    (bounded : c.ll.length ≤ capacity) (k : κ) (v : α) :
    (c.put capacity k v).recency =
      k :: if c.victim capacity k = none then c.recency.erase k else c.recency.dropLast := by
  by_cases held : k ∈ c.recency
  · obtain ⟨n, member, rfl⟩ := mem_recency.mp held
    have found : c.node n.key = some n := wf.node_eq_some_iff.mpr ⟨member, rfl⟩
    rw [if_pos ((victim_eq_none pos).mpr (.inl held)), Lru.put, found]
    exact congrArg (n.key :: ·) (wf.recency_filter (n := n) member)
  · have missing : c.node k = none := wf.node_none_iff.mpr held
    have pushed : (c.pushFront k v).recency = k :: c.recency := rfl
    have longer : (c.pushFront k v).ll.length = c.ll.length + 1 := rfl
    rw [Lru.put, missing]
    dsimp only
    rw [(wf.pushFront missing v).recency_evict, pushed, longer]
    by_cases room : c.ll.length < capacity
    · rw [if_neg (by omega), if_pos ((victim_eq_none pos).mpr (.inr room)),
        List.erase_of_not_mem held]
    · have out : c.victim capacity k ≠ none := by
        rw [Ne, victim_eq_none pos]
        tauto
      have nonempty : c.recency ≠ [] := by
        rw [← List.length_pos_iff, recency_length]
        omega
      rw [if_pos (by omega), if_neg out, List.dropLast_cons_of_ne_nil nonempty]

theorem length_put_le (wf : c.WellFormed) {capacity : Nat} (pos : 0 < capacity)
    (bounded : c.ll.length ≤ capacity) (k : κ) (v : α) :
    (c.put capacity k v).ll.length ≤ capacity := by
  rw [← recency_length, wf.recency_put pos bounded, List.length_cons]
  split
  · rename_i kept
    rcases (victim_eq_none pos).mp kept with held | room
    · have positive := List.length_pos_of_mem held
      rw [List.length_erase_of_mem held, recency_length] at *
      omega
    · have shorter := List.length_erase_le (l := c.recency) (a := k)
      rw [recency_length] at shorter
      omega
  · rw [List.length_dropLast, recency_length]
    omega

/-- The keys after an insertion or an update: its own, and the old ones but the victim. -/
theorem mem_recency_put (wf : c.WellFormed) {capacity : Nat} (pos : 0 < capacity)
    (bounded : c.ll.length ≤ capacity) {k k' : κ} (v : α) (other : k' ≠ k) :
    k' ∈ (c.put capacity k v).recency ↔ k' ∈ c.recency ∧ c.victim capacity k ≠ some k' := by
  rw [wf.recency_put pos bounded, List.mem_cons, or_iff_right other]
  cases out : c.victim capacity k with
  | none => simp [List.mem_erase_of_ne other]
  | some gone =>
    obtain ⟨-, -, last⟩ := victim_eq_some out
    obtain ⟨front, split⟩ := List.getLast?_eq_some_iff.mp last
    have distinct : c.recency.Nodup := wf.keys
    rw [split, List.nodup_append] at distinct
    rw [if_neg (by simp), split, List.dropLast_concat, List.mem_append, List.mem_singleton]
    constructor
    · intro inFront
      refine ⟨.inl inFront, ?_⟩
      rintro ⟨⟩
      exact distinct.2.2 k' inFront k' (by simp) rfl
    · rintro ⟨inFront | rfl, kept⟩
      · exact inFront
      · exact absurd rfl kept

/-- What an insertion or an update changes: its own key and the one pushed out. -/
theorem peek_put_eq (wf : c.WellFormed) {capacity : Nat} (pos : 0 < capacity)
    (bounded : c.ll.length ≤ capacity) (k k' : κ) (v : α) :
    (c.put capacity k v).peek k' =
      if k' = k then some v else if c.victim capacity k = some k' then none else c.peek k' := by
  have after := wf.put capacity k v
  have stays : k' ∈ (c.put capacity k v).recency →
      ∃ w, (c.put capacity k v).peek k' = some w ∧
        ((k' = k ∧ w = v) ∨ (k' ≠ k ∧ c.peek k' = some w)) := by
    intro member
    have present : (c.put capacity k v).peek k' ≠ none := fun none =>
      after.peek_none_iff.mp none member
    obtain ⟨w, found⟩ := Option.ne_none_iff_exists'.mp present
    exact ⟨w, found, wf.peek_put found⟩
  by_cases own : k' = k
  · subst own
    have member : k' ∈ (c.put capacity k' v).recency := by
      rw [wf.recency_put pos bounded]
      exact List.mem_cons_self
    rw [if_pos rfl]
    rcases stays member with ⟨w, found, ⟨_, rfl⟩ | ⟨other, _⟩⟩
    · exact found
    · exact absurd rfl other
  · have keys := wf.mem_recency_put pos bounded v own
    rw [if_neg own]
    by_cases gone : c.victim capacity k = some k'
    · rw [if_pos gone]
      exact after.peek_none_iff.mpr fun member => (keys.mp member).2 gone
    · rw [if_neg gone]
      by_cases held : k' ∈ c.recency
      · rcases stays (keys.mpr ⟨held, gone⟩) with ⟨w, found, ⟨same, _⟩ | ⟨_, old⟩⟩
        · exact absurd same own
        · exact found.trans old.symm
      · rw [wf.peek_none_iff.mpr held]
        exact after.peek_none_iff.mpr fun member => held (keys.mp member).1

end WellFormed
end Lru

/-! Histories of uses, the latest first. -/

/-- The last use of `a` came after the last use of `b`. -/
def UsedLater {κ : Type} [DecidableEq κ] (history : List κ) (a b : κ) : Prop :=
  history.idxOf a < history.idxOf b

/-- The keys were all used, and stand in the order of their last uses. -/
structure LastUsed {κ : Type} [DecidableEq κ] (history keys : List κ) : Prop where
  used : ∀ k ∈ keys, k ∈ history
  order : keys.Pairwise (UsedLater history)

namespace LastUsed

variable {κ : Type} [DecidableEq κ] {history keys keys' : List κ}

theorem nil (history : List κ) : LastUsed history [] := ⟨by simp, List.Pairwise.nil⟩

theorem nodup (last : LastUsed history keys) : keys.Nodup :=
  last.order.imp fun less same => by
    subst same
    exact Nat.lt_irrefl _ less

/-- A use puts its key in front and moves no other. -/
theorem use (last : LastUsed history keys) (kept : keys'.Sublist keys) {k : κ} (absent : k ∉ keys') :
    LastUsed (k :: history) (k :: keys') := by
  have other : ∀ a ∈ keys', (k :: history).idxOf a = history.idxOf a + 1 := by
    intro a member
    apply List.idxOf_cons_ne
    rintro rfl
    exact absent member
  constructor
  · intro a member
    rcases List.mem_cons.mp member with rfl | inside
    · exact List.mem_cons_self
    · exact List.mem_cons_of_mem k (last.used a (kept.subset inside))
  · rw [List.pairwise_cons]
    constructor
    · intro a member
      rw [UsedLater, List.idxOf_cons_self, other a member]
      omega
    · apply (last.order.sublist kept).imp_of_mem
      intro a b inside alsoInside less
      rw [UsedLater] at less ⊢
      rw [other a inside, other b alsoInside]
      omega

/-- The last of the keys is the one whose last use is the oldest. -/
theorem oldest (last : LastUsed history keys) {gone : κ} (final : keys.getLast? = some gone) :
    ∀ k ∈ keys, k ≠ gone → UsedLater history k gone := by
  obtain ⟨front, rfl⟩ := List.getLast?_eq_some_iff.mp final
  intro k member other
  rcases List.mem_append.mp member with inFront | isLast
  · exact (List.pairwise_append.mp last.order).2.2 k inFront gone List.mem_cons_self
  · exact absurd (List.mem_singleton.mp isLast) other

variable {α : Type} {c : Lru κ α}

theorem touch (last : LastUsed history c.recency) (wf : c.WellFormed) {k : κ} (held : k ∈ c.recency) :
    LastUsed (k :: history) (c.touch k).recency := by
  rw [wf.recency_touch held]
  apply last.use List.erase_sublist
  exact List.Nodup.not_mem_erase last.nodup

theorem put (last : LastUsed history c.recency) (wf : c.WellFormed) {capacity : Nat}
    (pos : 0 < capacity) (bounded : c.ll.length ≤ capacity) (k : κ) (v : α) :
    LastUsed (k :: history) (c.put capacity k v).recency := by
  rw [wf.recency_put pos bounded]
  split
  · apply last.use List.erase_sublist
    exact List.Nodup.not_mem_erase last.nodup
  · rename_i out
    obtain ⟨gone, found⟩ := Option.ne_none_iff_exists'.mp out
    apply last.use (List.dropLast_sublist _)
    intro inside
    exact (Lru.WellFormed.victim_eq_some found).1 (List.dropLast_subset _ inside)

end LastUsed
end Tracium
