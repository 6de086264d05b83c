import Tracium.Steps

/-! Runs that remember the states they passed through: what happened once is a state the
run visited, and an invariant may speak of such states. -/
namespace Tracium.Steps

variable {S A : Type} {step : S → A → Option S}

/-- The run of `actions` passes through `mid`. -/
def Visited (step : S → A → Option S) (start : S) (actions : List A) (mid : S) : Prop :=
  ∃ before after, actions = before ++ after ∧ run step start before = some mid

/-- The run of `actions` takes the step `a` from `mid`. -/
def Took (step : S → A → Option S) (start : S) (actions : List A) (a : A) (mid : S) : Prop :=
  ∃ before after, actions = before ++ a :: after ∧ run step start before = some mid

theorem took_last {start mid : S} {before : List A} (reached : run step start before = some mid) (a : A) :
    Took step start (before ++ [a]) a mid := ⟨before, [], rfl, reached⟩

theorem Took.more {start mid : S} {actions : List A} {a : A} (took : Took step start actions a mid)
    (after : List A) : Took step start (actions ++ after) a mid := by
  obtain ⟨early, late, rfl, reached⟩ := took
  exact ⟨early, late ++ after, List.append_assoc .., reached⟩

theorem run_append {s : S} {before after : List A} :
    run step s (before ++ after) = (run step s before).bind (run step · after) := by
  induction before generalizing s with
  | nil => rfl
  | cons a rest ih =>
    simp only [List.cons_append, run, Option.bind_assoc, ih]

theorem visited_start (s : S) (actions : List A) : Visited step s actions s :=
  ⟨[], actions, rfl, rfl⟩

theorem visited_cons {s middle mid : S} {a : A} {rest : List A} (first : step s a = some middle)
    (later : Visited step middle rest mid) : Visited step s (a :: rest) mid := by
  obtain ⟨before, after, split, ran⟩ := later
  exact ⟨a :: before, after, by rw [split]; rfl, by rw [run, first]; exact ran⟩

/-- A state of a run comes before or after any other state of it. -/
theorem visited_append {s mid other : S} {before after : List A}
    (reached : run step s before = some mid) (visited : Visited step s (before ++ after) other) :
    (∃ early rest, before = early ++ rest ∧ run step s early = some other ∧
      run step other rest = some mid) ∨
    Visited step mid after other := by
  obtain ⟨front, back, split, ran⟩ := visited
  rcases List.append_eq_append_iff.mp split with ⟨rest, same, tail⟩ | ⟨rest, same, tail⟩
  · refine .inr ⟨rest, back, tail, ?_⟩
    rw [same, run_append, reached] at ran
    exact ran
  · refine .inl ⟨front, rest, same, ran, ?_⟩
    rw [same, run_append, ran] at reached
    exact reached

/-- The run goes on from each state it visits. -/
theorem visited_split {s s' mid : S} {actions : List A} (visited : Visited step s actions mid)
    (ran : run step s actions = some s') :
    ∃ before after, actions = before ++ after ∧ run step s before = some mid ∧ run step mid after = some s' := by
  obtain ⟨before, after, rfl, reached⟩ := visited
  rw [run_append, reached] at ran
  exact ⟨before, after, rfl, reached, ran⟩

theorem visited_more {s mid : S} {before : List A} (visited : Visited step s before mid) (after : List A) :
    Visited step s (before ++ after) mid := by
  obtain ⟨early, late, rfl, reached⟩ := visited
  exact ⟨early, late ++ after, List.append_assoc .., reached⟩

theorem along_front {ok : S → A → Prop} {s : S} {before after : List A}
    (along : Along step ok s (before ++ after)) : Along step ok s before := by
  induction before generalizing s with
  | nil => trivial
  | cons a rest ih => exact ⟨along.1, fun s' stepped => ih (along.2 s' stepped)⟩

theorem visited_cons_iff {s middle mid : S} {a : A} {rest : List A} (first : step s a = some middle) :
    Visited step s (a :: rest) mid ↔ mid = s ∨ Visited step middle rest mid := by
  constructor
  · rintro ⟨before, after, split, ran⟩
    cases before with
    | nil => exact .inl (Option.some.inj ran).symm
    | cons b early =>
      obtain ⟨rfl, same⟩ := List.cons.inj split
      rw [run, first] at ran
      exact .inr ⟨early, after, same, ran⟩
  · rintro (rfl | visited)
    exacts [visited_start mid _, visited_cons first visited]

theorem visited_nil_iff {s mid : S} : Visited step s [] mid ↔ mid = s := by
  constructor
  · rintro ⟨before, after, split, ran⟩
    obtain ⟨rfl, -⟩ := List.append_eq_nil_iff.mp split.symm
    exact (Option.some.inj ran).symm
  · rintro rfl
    exact visited_start mid []

theorem Along.mono {ok ok' : S → A → Prop} {s : S} {actions : List A} (along : Along step ok s actions)
    (weaker : ∀ s a, ok s a → ok' s a) : Along step ok' s actions := by
  induction actions generalizing s with
  | nil => trivial
  | cons a rest ih => exact ⟨weaker s a along.1, fun s' stepped => ih (along.2 s' stepped)⟩

/-- What does not hold at first and holds in the end came about in one of the steps. -/
theorem run_turns {P : S → Prop} {s s' : S} {actions : List A} (ran : run step s actions = some s')
    (first : ¬P s) (last : P s') :
    ∃ before a after mid mid', actions = before ++ a :: after ∧ run step s before = some mid ∧ ¬P mid ∧
      step mid a = some mid' ∧ P mid' ∧ run step mid' after = some s' := by
  induction actions generalizing s with
  | nil => exact absurd (Option.some.inj ran ▸ last) first
  | cons a rest ih =>
    obtain ⟨middle, stepped, later⟩ := run_cons ran
    by_cases now : P middle
    · exact ⟨[], a, rest, s, middle, rfl, rfl, first, stepped, now, later⟩
    · obtain ⟨before, b, after, mid, mid', rfl, reached, rest⟩ := ih later now
      exact ⟨a :: before, b, after, mid, mid', rfl, by rw [run, stepped]; exact reached, rest⟩

/-- What every admitted step preserves, as it adds the new state to those seen, holds of
the states of the whole run. -/
theorem run_history {I : (S → Prop) → S → Prop} {ok : S → A → Prop}
    (kept : ∀ seen s a s', seen s → I seen s → ok s a → step s a = some s' →
      I (fun m => seen m ∨ m = s') s')
    {s s' : S} {actions : List A} (along : Along step ok s actions)
    (ran : run step s actions = some s') (start : I (· = s) s) : I (Visited step s actions) s' := by
  have general : ∀ seen : S → Prop, seen s → I seen s →
      I (fun m => seen m ∨ Visited step s actions m) s' := by
    clear start
    induction actions generalizing s with
    | nil =>
      intro seen here holds
      have same : (fun m => seen m ∨ Visited step s [] m) = seen := by
        funext m
        rw [visited_nil_iff, eq_iff_iff, or_iff_left_iff_imp]
        rintro rfl
        exact here
      rw [same]
      exact Option.some.inj ran ▸ holds
    | cons a rest ih =>
      intro seen here holds
      obtain ⟨middle, first, later⟩ := run_cons ran
      have next := kept seen s a middle here holds along.1 first
      have whole := ih (along.2 middle first) later _ (.inr rfl) next
      have same : (fun m => seen m ∨ Visited step s (a :: rest) m) =
          fun m => (seen m ∨ m = middle) ∨ Visited step middle rest m := by
        funext m
        rw [visited_cons_iff first, eq_iff_iff]
        constructor
        · rintro (old | rfl | visited)
          exacts [.inl (.inl old), .inl (.inl here), .inr visited]
        · rintro ((old | rfl) | visited)
          exacts [.inl old, .inr (.inr (visited_start _ _)), .inr (.inr visited)]
      rw [same]
      exact whole
  have same : Visited step s actions = fun m => m = s ∨ Visited step s actions m := by
    funext m
    rw [eq_iff_iff, iff_or_self]
    rintro rfl
    exact visited_start m actions
  rw [same]
  exact general _ rfl start

/-- An invariant of a state and the actions that led to it. -/
theorem run_past {I : List A → S → Prop} {start s : S} {actions : List A}
    (kept : ∀ past a s s', run step start past = some s → I past s → step s a = some s' →
      I (past ++ [a]) s') (ran : run step start actions = some s) (first : I [] start) : I actions s := by
  have general : ∀ past middle, run step start past = some middle → I past middle →
      ∀ rest, run step middle rest = some s → I (past ++ rest) s := by
    intro past middle reached holds rest
    induction rest generalizing past middle with
    | nil =>
      intro same
      rw [List.append_nil]
      exact Option.some.inj same ▸ holds
    | cons a rest ih =>
      intro onward
      obtain ⟨next, stepped, later⟩ := run_cons onward
      have reached' : run step start (past ++ [a]) = some next := by
        rw [run_append, reached, Option.bind_some, run, stepped]
        rfl
      have whole := ih (past ++ [a]) next reached' (kept past a middle next reached holds stepped) later
      rwa [List.append_assoc] at whole
  exact general [] start rfl first actions ran

theorem visited_last {s s' : S} {actions : List A} (ran : run step s actions = some s') :
    Visited step s actions s' := ⟨actions, [], (List.append_nil _).symm, ran⟩

end Tracium.Steps
