import Mathlib.Data.Fintype.Pigeonhole
import Mathlib.Data.Set.Finite.Basic
import Mathlib.Order.Defs.LinearOrder

/-! Following a partial function step by step. A chain along which a measure falls never
returns to where it was; a chain that stays within a finite list has to end or return. -/
namespace Succession

variable {α : Type} {next : α → Option α} {v u w : α} {m n : Nat}

def follow (next : α → Option α) (v : α) : Nat → Option α
  | 0 => some v
  | n + 1 => (follow next v n).bind next

theorem follow_add (next : α → Option α) (v : α) (m n : Nat) :
    follow next v (m + n) = (follow next v m).bind fun u => follow next u n := by
  induction n with
  | zero => simp [follow]
  | succ n ih =>
    rw [← Nat.add_assoc, follow, ih, Option.bind_assoc]
    rfl

/-- What a step keeps holds along the whole chain. -/
theorem follow_keeps {P : α → Prop} (keeps : ∀ v p, P v → next v = some p → P p) (start : P v)
    (reached : follow next v n = some u) : P u := by
  induction n generalizing u with
  | zero =>
    obtain rfl := Option.some.inj reached
    exact start
  | succ n ih =>
    obtain ⟨p, before, step⟩ := Option.bind_eq_some_iff.mp reached
    exact keeps p u (ih before) step

theorem follow_lt {ρ : Type} [Preorder ρ] {measure : α → ρ} {P : α → Prop}
    (keeps : ∀ v p, P v → next v = some p → P p)
    (falls : ∀ v p, P v → next v = some p → measure p < measure v) (start : P v)
    (reached : follow next v m = some u) (later : follow next v n = some w) (order : m < n) :
    measure w < measure u := by
  obtain ⟨steps, rfl⟩ := Nat.exists_eq_add_of_lt order
  rw [Nat.add_assoc, follow_add, reached, Option.bind_some] at later
  have kept : P u := follow_keeps keeps start reached
  clear order
  induction steps generalizing w with
  | zero => exact falls u w kept later
  | succ steps ih =>
    obtain ⟨p, before, step⟩ := Option.bind_eq_some_iff.mp later
    have last : P p := follow_keeps keeps kept before
    exact (falls p w last step).trans (ih before)

/-- A chain that always goes on within a list meets one of its elements twice. -/
theorem follow_returns {P : α → Prop} {l : List α} (inside : ∀ v, P v → v ∈ l)
    (goesOn : ∀ v, P v → ∃ p, next v = some p ∧ P p) (start : P v) :
    ∃ m n u, m < n ∧ follow next v m = some u ∧ follow next v n = some u := by
  have always : ∀ n, ∃ u, follow next v n = some u ∧ P u := by
    intro n
    induction n with
    | zero => exact ⟨v, rfl, start⟩
    | succ n ih =>
      obtain ⟨u, reached, kept⟩ := ih
      obtain ⟨p, step, kept'⟩ := goesOn u kept
      exact ⟨p, by rw [follow, reached, Option.bind_some, step], kept'⟩
  choose at_ reached kept using always
  let listed : Nat → {u // u ∈ l} := fun n => ⟨at_ n, inside _ (kept n)⟩
  have finite : Finite {u // u ∈ l} := List.finite_toSet l
  obtain ⟨m, n, apart, same⟩ := Finite.exists_ne_map_eq_of_infinite listed
  have met : at_ m = at_ n := congrArg Subtype.val same
  rcases Nat.lt_or_gt_of_ne apart with order | order
  · exact ⟨m, n, at_ m, order, reached m, by rw [reached n, met]⟩
  · exact ⟨n, m, at_ n, order, reached n, by rw [reached m, met]⟩

end Succession
