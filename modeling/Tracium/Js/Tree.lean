import Mathlib.Data.List.Basic

/-! Trees in the shape of JSON: leaves, arrays and objects whose members have a key. A
function on them is a fold, which sees the results at the items and members in order; a
proof is an induction whose hypotheses are about the items and the members. -/
namespace Js

inductive Tree (α κ : Type) where
  | leaf (a : α)
  | array (items : List (Tree α κ))
  | object (members : List (κ × Tree α κ))

namespace Tree

variable {α κ β : Type}

section Fold

variable (leaf : α → β) (array : List β → β) (object : List (κ × β) → β)

mutual

def fold : Tree α κ → β
  | .leaf a => leaf a
  | .array items => array (foldItems items)
  | .object members => object (foldMembers members)
  termination_by structural t => t

def foldItems : List (Tree α κ) → List β
  | [] => []
  | t :: rest => fold t :: foldItems rest
  termination_by structural items => items

def foldMembers : List (κ × Tree α κ) → List (κ × β)
  | [] => []
  | (key, t) :: rest => (key, fold t) :: foldMembers rest
  termination_by structural members => members

end

@[simp] theorem fold_leaf (a : α) : fold leaf array object (.leaf a) = leaf a := rfl

@[simp] theorem fold_array (items : List (Tree α κ)) :
    fold leaf array object (.array items) = array (items.map (fold leaf array object)) := by
  have same : foldItems leaf array object items = items.map (fold leaf array object) := by
    induction items with
    | nil => rfl
    | cons t rest ih => rw [foldItems, ih, List.map_cons]
  rw [fold, same]

@[simp] theorem fold_object (members : List (κ × Tree α κ)) :
    fold leaf array object (.object members) =
      object (members.map fun m => (m.1, fold leaf array object m.2)) := by
  have same : foldMembers leaf array object members =
      members.map fun m => (m.1, fold leaf array object m.2) := by
    induction members with
    | nil => rfl
    | cons m rest ih =>
      obtain ⟨key, t⟩ := m
      rw [foldMembers, ih, List.map_cons]
  rw [fold, same]

end Fold

@[elab_as_elim]
theorem induction {motive : Tree α κ → Prop} (leaf : ∀ a, motive (.leaf a))
    (array : ∀ items, (∀ t ∈ items, motive t) → motive (.array items))
    (object : ∀ members, (∀ m ∈ members, motive m.2) → motive (.object members)) (t : Tree α κ) :
    motive t := by
  refine @Tree.rec α κ motive (fun items => ∀ t ∈ items, motive t)
    (fun members => ∀ m ∈ members, motive m.2) (fun m => motive m.2)
    leaf array object ?_ ?_ ?_ ?_ ?_ t
  · intro t member
    cases member
  · intro head tail first rest t member
    rcases List.mem_cons.mp member with rfl | later
    · exact first
    · exact rest t later
  · intro m member
    cases member
  · intro head tail first rest m member
    rcases List.mem_cons.mp member with rfl | later
    · exact first
    · exact rest m later
  · intro key t own
    exact own

end Tree

end Js
