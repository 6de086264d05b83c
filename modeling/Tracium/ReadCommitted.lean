import Mathlib.Data.List.Basic
import Mathlib.Logic.Function.Basic

/-! Transactions at READ COMMITTED. A statement reads the committed tables under its own
transaction's changes, and a row another transaction locked or wrote is waited for. A
transaction's changes reach the committed tables when it commits. -/
namespace Tracium.ReadCommitted

/-- One statement's effect on a table: the rows are those the statement saw. -/
inductive Change (α : Type)
  | insert (row : α)
  | delete (rows : α → Bool)
  | update (rows : α → Bool) (set : α → α)

variable {α ρ : Type}

def Change.apply (table : List α) : Change α → List α
  | .insert row => table ++ [row]
  | .delete rows => table.filter fun a => !rows a
  | .update rows set => table.map fun a => if rows a then set a else a

def applyAll (table : List α) (changes : List (Change α)) : List α :=
  changes.foldl Change.apply table

@[simp] theorem applyAll_nil (table : List α) : applyAll table [] = table := rfl

@[simp] theorem mem_apply_insert {table : List α} {row a : α} :
    a ∈ Change.apply table (.insert row) ↔ a ∈ table ∨ a = row := by
  simp [Change.apply]

@[simp] theorem mem_apply_delete {table : List α} {rows : α → Bool} {a : α} :
    a ∈ Change.apply table (.delete rows) ↔ a ∈ table ∧ rows a = false := by
  simp [Change.apply]

/-- What every change establishes for the rows it leaves holds of the whole table. -/
theorem forall_mem_applyAll {P : α → Prop} {table : List α} {changes : List (Change α)}
    (start : ∀ a ∈ table, P a) (inserted : ∀ row, .insert row ∈ changes → P row)
    (updated : ∀ rows set, .update rows set ∈ changes → ∀ a, P a → P (set a)) :
    ∀ a ∈ applyAll table changes, P a := by
  induction changes generalizing table with
  | nil => exact start
  | cons change rest ih =>
    refine ih ?_ (fun row member => inserted row (List.mem_cons_of_mem _ member))
      fun rows set member => updated rows set (List.mem_cons_of_mem _ member)
    intro a member
    cases change with
    | insert row =>
      rcases mem_apply_insert.mp member with old | rfl
      exacts [start a old, inserted a List.mem_cons_self]
    | delete rows => exact start a (mem_apply_delete.mp member).1
    | update rows set =>
      obtain ⟨b, old, rfl⟩ := List.mem_map.mp member
      split
      exacts [updated rows set List.mem_cons_self b (start b old), start b old]

/-- Inserts keep every row. -/
theorem mem_applyAll_of_inserts {table : List α} {changes : List (Change α)}
    (inserts : ∀ c ∈ changes, ∃ row, c = .insert row) {a : α} (member : a ∈ table) :
    a ∈ applyAll table changes := by
  induction changes generalizing table with
  | nil => exact member
  | cons change rest ih =>
    obtain ⟨row, rfl⟩ := inserts change List.mem_cons_self
    exact ih (fun c later => inserts c (List.mem_cons_of_mem _ later))
      (mem_apply_insert.mpr (.inl member))

/-- Row locks, each held until its transaction ends. -/
abbrev Locks (ρ : Type) := ρ → Option Nat

/-- Nobody else holds the row. -/
def Locks.free (locks : Locks ρ) (t : Nat) (row : ρ) : Bool :=
  match locks row with
  | none => true
  | some holder => holder == t

def Locks.acquire [DecidableEq ρ] (locks : Locks ρ) (t : Nat) (rows : List ρ) : Locks ρ :=
  fun row => if row ∈ rows then some t else locks row

def Locks.release (locks : Locks ρ) (t : Nat) : Locks ρ :=
  fun row => if locks row = some t then none else locks row

theorem Locks.acquire_self [DecidableEq ρ] {locks : Locks ρ} {t : Nat} {rows : List ρ} {row : ρ}
    (member : row ∈ rows) : locks.acquire t rows row = some t := if_pos member

/-- Taking free rows leaves every other transaction its own. -/
theorem Locks.acquire_other [DecidableEq ρ] {locks : Locks ρ} {t u : Nat} {rows : List ρ} {row : ρ}
    (free : ∀ row ∈ rows, locks.free t row = true) (held : locks row = some u) :
    locks.acquire t rows row = some u := by
  unfold Locks.acquire
  split
  next member =>
    have mine := free row member
    simp only [Locks.free, held, beq_iff_eq] at mine
    rw [mine]
  next => exact held

theorem Locks.release_other {locks : Locks ρ} {t u : Nat} {row : ρ} (other : u ≠ t)
    (held : locks row = some u) : locks.release t row = some u := by
  have apart : locks row ≠ some t := by
    rw [held]
    exact fun same => other (Option.some.inj same)
  rw [Locks.release, if_neg apart, held]

end Tracium.ReadCommitted
