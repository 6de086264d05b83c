import Tracium.History

/-! A system as an observer has it: `view` is what the observer keeps of an action and
`project` of a state. When every step commutes with both, the observer's part of a run is
a run, so runs with one view end alike for the observer. -/
namespace Tracium.Steps

variable {S T A B : Type}

structure Observes (step : S → A → Option S) (seen : T → B → Option T) (view : A → Option B)
    (project : S → T) : Prop where
  shown : ∀ s a s' b, step s a = some s' → view a = some b → seen (project s) b = some (project s')
  hidden : ∀ s a s', step s a = some s' → view a = none → project s' = project s

variable {step : S → A → Option S} {seen : T → B → Option T} {view : A → Option B} {project : S → T}

/-- What the observer has of a run is a run. -/
theorem Observes.run (observes : Observes step seen view project) {s s' : S} {actions : List A}
    (ran : Steps.run step s actions = some s') :
    Steps.run seen (project s) (actions.filterMap view) = some (project s') := by
  induction actions generalizing s with
  | nil => exact congrArg (some ∘ project) (Option.some.inj ran)
  | cons a rest ih =>
    obtain ⟨middle, stepped, later⟩ := run_cons ran
    cases kept : view a with
    | none =>
      rw [List.filterMap_cons_none kept, ← observes.hidden s a middle stepped kept]
      exact ih later
    | some b =>
      rw [List.filterMap_cons_some kept, Steps.run, observes.shown s a middle b stepped kept]
      exact ih later

/-- Noninterference: the observer cannot tell two runs with one view apart. -/
theorem Observes.alike (observes : Observes step seen view project) {start s s' : S}
    {actions actions' : List A} (ran : Steps.run step start actions = some s)
    (ran' : Steps.run step start actions' = some s')
    (same : actions.filterMap view = actions'.filterMap view) : project s = project s' := by
  have one := observes.run ran
  rw [same, observes.run ran'] at one
  exact (Option.some.inj one).symm

end Tracium.Steps
