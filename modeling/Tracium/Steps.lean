import Mathlib.Data.List.Basic
import Mathlib.Logic.Function.Basic

/-! Runs of a partial step function, and the invariant rule for them. -/
namespace Tracium.Steps

variable {S A : Type} {step : S → A → Option S}

/-- The state after a list of actions, when every one of them is enabled. -/
def run (step : S → A → Option S) : S → List A → Option S
  | s, [] => some s
  | s, a :: rest => (step s a).bind (run step · rest)

/-- Every action of the run meets `ok` in the state it is taken in. -/
def Along (step : S → A → Option S) (ok : S → A → Prop) : S → List A → Prop
  | _, [] => True
  | s, a :: rest => ok s a ∧ ∀ s', step s a = some s' → Along step ok s' rest

instance decidableAlong {ok : S → A → Prop} [∀ s a, Decidable (ok s a)] :
    (s : S) → (actions : List A) → Decidable (Along step ok s actions)
  | _, [] => isTrue trivial
  | s, a :: rest =>
    have : Decidable (∀ s', step s a = some s' → Along step ok s' rest) :=
      match step s a with
      | none => isTrue fun _ none => nomatch none
      | some middle =>
        have : Decidable (Along step ok middle rest) := decidableAlong middle rest
        decidable_of_iff (Along step ok middle rest)
          ⟨fun along _ same => Option.some.inj same ▸ along, fun all => all middle rfl⟩
    inferInstanceAs (Decidable (_ ∧ _))

/-- A component found after one of them is set is that one or an old one. -/
theorem update_eq_some {ι β : Type} [DecidableEq ι] {f : ι → Option β} {i j : ι} {b : Option β}
    {c : β} (found : Function.update f i b j = some c) :
    (j = i ∧ b = some c) ∨ (j ≠ i ∧ f j = some c) := by
  by_cases same : j = i
  · subst same
    rw [Function.update_self] at found
    exact .inl ⟨rfl, found⟩
  · rw [Function.update_of_ne same] at found
    exact .inr ⟨same, found⟩

theorem run_cons {s s' : S} {a : A} {rest : List A}
    (ran : run step s (a :: rest) = some s') :
    ∃ middle, step s a = some middle ∧ run step middle rest = some s' :=
  Option.bind_eq_some_iff.mp ran

/-- What every admitted step preserves holds after every admitted run. -/
theorem run_invariant_along {I : S → Prop} {ok : S → A → Prop}
    (kept : ∀ s a s', I s → ok s a → step s a = some s' → I s')
    {s s' : S} {actions : List A} (along : Along step ok s actions)
    (ran : run step s actions = some s') (start : I s) : I s' := by
  induction actions generalizing s with
  | nil => exact Option.some.inj ran ▸ start
  | cons a rest ih =>
    obtain ⟨middle, first, later⟩ := run_cons ran
    exact ih (along.2 middle first) later (kept s a middle start along.1 first)

theorem Along.and {ok ok' : S → A → Prop} {s : S} {actions : List A}
    (first : Along step ok s actions) (second : Along step ok' s actions) :
    Along step (fun s a => ok s a ∧ ok' s a) s actions := by
  induction actions generalizing s with
  | nil => trivial
  | cons a rest ih =>
    exact ⟨⟨first.1, second.1⟩, fun s' stepped => ih (first.2 s' stepped) (second.2 s' stepped)⟩

/-- A condition on the actions alone. -/
theorem along_of_mem {ok : S → A → Prop} {actions : List A} (s : S)
    (always : ∀ a ∈ actions, ∀ s, ok s a) : Along step ok s actions := by
  induction actions generalizing s with
  | nil => trivial
  | cons a rest ih =>
    refine ⟨always a List.mem_cons_self s, fun s' _ => ih s' fun b member => ?_⟩
    exact always b (List.mem_cons_of_mem a member)

theorem along_always (s : S) (actions : List A) : Along step (fun _ _ => True) s actions :=
  along_of_mem s fun _ _ _ => trivial

end Tracium.Steps
