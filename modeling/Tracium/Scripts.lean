import Mathlib.Logic.Basic

/-! Scripts that change a store statement by statement and may be killed at any point, and a
Hoare logic for them with a crash condition: what holds when the script completes, what may
make it abort, and what holds whenever it stops early. A job whose crash condition is its own
precondition can be attempted any number of times. -/
namespace Scripts

variable {D : Type}

/-- What a statement makes of the store when it goes through, and what it may have made of it
when it is killed meanwhile. One that fails leaves the store as it was. -/
structure Stmt (D : Type) where
  effect : D → Option D
  torn : D → D → Prop

/-- A statement that takes place or does not. -/
def Stmt.atomic (effect : D → Option D) : Stmt D := ⟨effect, fun _ _ => False⟩

inductive Script (D : Type)
  | done
  | exit
  | stmt (s : Stmt D) (rest : Script D)
  | look (k : D → Script D)

/-- A sourced script; its `exit` leaves both. -/
def Script.andThen : Script D → Script D → Script D
  | .done, t => t
  | .exit, _ => .exit
  | .stmt s rest, t => .stmt s (rest.andThen t)
  | .look k, t => .look fun d => (k d).andThen t

/-- Statements one after another. -/
def Script.stmts (statements : List (Stmt D)) (rest : Script D) : Script D := statements.foldr .stmt rest

/-- The store after a run that completes. -/
def Script.run : Script D → D → Option D
  | .done, d => some d
  | .exit, _ => none
  | .stmt s rest, d => (s.effect d).bind rest.run
  | .look k, d => (k d).run d

/-- The store a run may leave that stops somewhere, also by itself. -/
inductive Killed : Script D → D → D → Prop
  | here {s : Script D} {d : D} : Killed s d d
  | torn {s : Stmt D} {rest : Script D} {d d' : D} : s.torn d d' → Killed (.stmt s rest) d d'
  | later {s : Stmt D} {rest : Script D} {d d' d'' : D} :
      s.effect d = some d' → Killed rest d' d'' → Killed (.stmt s rest) d d''
  | look {k : D → Script D} {d d' : D} : Killed (k d) d d' → Killed (.look k) d d'

theorem killed_done {d d' : D} (killed : Killed .done d d') : d' = d := by
  cases killed
  rfl

/-- A run may stop at its very end. -/
theorem killed_run {s : Script D} {d d' : D} (ran : s.run d = some d') : Killed s d d' := by
  induction s generalizing d with
  | done =>
    cases ran
    exact .here
  | exit => cases ran
  | stmt st rest ih =>
    obtain ⟨mid, effect, ran⟩ := Option.bind_eq_some_iff.mp ran
    exact .later effect (ih ran)
  | look k ih => exact .look (ih d ran)

/-- The store after the first `n` statements of a run. -/
def Script.stopped : Script D → Nat → D → D
  | .done, _, d => d
  | .exit, _, d => d
  | .stmt _ _, 0, d => d
  | .stmt s rest, n + 1, d => (s.effect d).elim d (rest.stopped n)
  | .look k, n, d => (k d).stopped n d

theorem killed_stopped (s : Script D) (n : Nat) (d : D) : Killed s d (s.stopped n d) := by
  induction s generalizing n d with
  | done => exact .here
  | exit => exact .here
  | stmt s rest ih =>
    cases n with
    | zero => exact .here
    | succ n =>
      rw [Script.stopped]
      cases effect : s.effect d with
      | none => exact .here
      | some d' => exact .later effect (ih n d')
  | look k ih => exact .look (ih d n d)

/-- `Meets P s Q C A`: from `P` the script completes in `Q`, aborts only if `A`, and stops early
only in `C`. -/
structure Meets (P : D → Prop) (s : Script D) (Q C : D → Prop) (A : Prop) : Prop where
  completes : ∀ d d', P d → s.run d = some d' → Q d'
  aborts : ∀ d, P d → s.run d = none → A
  killed : ∀ d d', P d → Killed s d d' → C d'

section Rules

variable {P Q Q' C C' : D → Prop} {A : Prop} {s t : Script D}

theorem Meets.mono (meets : Meets P s Q C A) (post : ∀ d, Q d → Q' d) (crash : ∀ d, C d → C' d) :
    Meets P s Q' C' A where
  completes := fun d d' holds ran => post d' (meets.completes d d' holds ran)
  aborts := meets.aborts
  killed := fun d d' holds killed => crash d' (meets.killed d d' holds killed)

theorem Meets.start {d : D} (meets : Meets P s Q C A) (holds : P d) : Meets (· = d) s Q C A where
  completes := fun _ d' same => meets.completes _ d' (same ▸ holds)
  aborts := fun _ same => meets.aborts _ (same ▸ holds)
  killed := fun _ d' same => meets.killed _ d' (same ▸ holds)

theorem Meets.because {A' : Prop} (meets : Meets P s Q C A) (sound : A → A') : Meets P s Q C A' where
  completes := meets.completes
  aborts := fun d holds ran => sound (meets.aborts d holds ran)
  killed := meets.killed

theorem Meets.forEach (each : ∀ d, P d → Meets (· = d) s Q C A) : Meets P s Q C A where
  completes := fun d d' holds => (each d holds).completes d d' rfl
  aborts := fun d holds => (each d holds).aborts d rfl
  killed := fun d d' holds => (each d holds).killed d d' rfl

theorem Meets.done (post : ∀ d, P d → Q d) (crash : ∀ d, P d → C d) : Meets P .done Q C A where
  completes := by
    rintro d _ holds ⟨⟩
    exact post d holds
  aborts := by
    rintro d holds ⟨⟩
  killed := fun d _ holds killed => killed_done killed ▸ crash d holds

theorem Meets.here {d : D} (post : Q d) (crash : C d) : Meets (· = d) .done Q C A :=
  .done (fun _ same => same ▸ post) fun _ same => same ▸ crash

theorem Meets.exit (aborts : A) (crash : ∀ d, P d → C d) : Meets P .exit Q C A where
  completes := by
    rintro d d' holds ⟨⟩
  aborts := fun _ _ _ => aborts
  killed := by
    rintro d d' holds ⟨⟩
    exact crash d holds

/-- The statement goes through from this store. -/
theorem Meets.stmt {st : Stmt D} {d d' : D} (effect : st.effect d = some d') (crash : C d)
    (torn : ∀ d'', st.torn d d'' → C d'') (rest : Meets (· = d') s Q C A) :
    Meets (· = d) (.stmt st s) Q C A where
  completes := by
    rintro _ final rfl ran
    rw [Script.run, effect] at ran
    exact rest.completes d' final rfl ran
  aborts := by
    rintro _ rfl ran
    rw [Script.run, effect] at ran
    exact rest.aborts d' rfl ran
  killed := by
    rintro _ final rfl killed
    cases killed with
    | here => exact crash
    | torn partly => exact torn final partly
    | later effect' killed =>
      obtain rfl := Option.some.inj (effect.symm.trans effect')
      exact rest.killed _ final rfl killed

/-- An atomic statement that goes through. -/
theorem Meets.atomic {f : D → Option D} {d d' : D} (effect : f d = some d') (crash : C d)
    (rest : Meets (· = d') s Q C A) : Meets (· = d) (.stmt (.atomic f) s) Q C A :=
  .stmt effect crash (fun _ partly => partly.elim) rest

theorem Meets.look {k : D → Script D} {d : D} (rest : Meets (· = d) (k d) Q C A) :
    Meets (· = d) (.look k) Q C A where
  completes := by
    rintro _ final rfl ran
    exact rest.completes _ final rfl ran
  aborts := by
    rintro _ rfl ran
    exact rest.aborts _ rfl ran
  killed := by
    rintro _ final rfl killed
    cases killed with
    | here => exact rest.killed _ _ rfl .here
    | look killed => exact rest.killed _ final rfl killed

/-- A script that never aborts completes. -/
theorem Meets.runs {d : D} (meets : Meets (· = d) s Q C False) : ∃ d', s.run d = some d' ∧ Q d' := by
  cases ran : s.run d with
  | none => exact (meets.aborts d rfl ran).elim
  | some d' => exact ⟨d', rfl, meets.completes d d' rfl ran⟩

theorem run_andThen (s t : Script D) (d : D) : (s.andThen t).run d = (s.run d).bind t.run := by
  induction s generalizing d with
  | done => rfl
  | exit => rfl
  | stmt st rest ih =>
    simp only [Script.andThen, Script.run, Option.bind_assoc]
    exact congrArg _ (funext ih)
  | look k ih => exact ih d d

theorem killed_andThen {s t : Script D} {d d' : D} (killed : Killed (s.andThen t) d d') :
    Killed s d d' ∨ ∃ mid, s.run d = some mid ∧ Killed t mid d' := by
  induction s generalizing d with
  | done => exact .inr ⟨d, rfl, killed⟩
  | exit => exact .inl killed
  | stmt st rest ih =>
    cases killed with
    | here => exact .inl .here
    | torn partly => exact .inl (.torn partly)
    | later effect killed =>
      rcases ih killed with first | ⟨mid, ran, second⟩
      · exact .inl (.later effect first)
      · exact .inr ⟨mid, by rw [Script.run, effect]; exact ran, second⟩
  | look k ih =>
    cases killed with
    | here => exact .inl .here
    | look killed =>
      rcases ih d killed with first | ⟨mid, ran, second⟩
      · exact .inl (.look first)
      · exact .inr ⟨mid, ran, second⟩

theorem Meets.andThen {R : D → Prop} (first : Meets P s R C A) (second : Meets R t Q C A) :
    Meets P (s.andThen t) Q C A where
  completes := fun d d' holds ran => by
    rw [run_andThen] at ran
    obtain ⟨mid, ran, ran'⟩ := Option.bind_eq_some_iff.mp ran
    exact second.completes mid d' (first.completes d mid holds ran) ran'
  aborts := fun d holds ran => by
    rw [run_andThen] at ran
    cases ran' : s.run d with
    | none => exact first.aborts d holds ran'
    | some mid =>
      rw [ran'] at ran
      exact second.aborts mid (first.completes d mid holds ran') ran
  killed := fun d d' holds killed => by
    rcases killed_andThen killed with early | ⟨mid, ran, late⟩
    · exact first.killed d d' holds early
    · exact second.killed mid d' (first.completes d mid holds ran) late

end Rules

/-- The stores that any attempts at a job leave, each by a script of its own and each stopping
anywhere, with what else happens in between. -/
inductive Attempted {ι : Type} (job : ι → Script D) (between : D → D → Prop) (start : D) : D → Prop
  | start : Attempted job between start start
  | attempt {d d' : D} (i : ι) : Attempted job between start d → Killed (job i) d d' →
      Attempted job between start d'
  | between {d d' : D} : Attempted job between start d → between d d' → Attempted job between start d'

/-- A crash condition from which every attempt may start holds however often it is tried. -/
theorem Attempted.holds {ι : Type} {job : ι → Script D} {between : D → D → Prop} {start d : D}
    {C : D → Prop} (attempted : Attempted job between start d) (init : C start)
    (killed : ∀ i d d', C d → Killed (job i) d d' → C d') (keeps : ∀ d d', C d → between d d' → C d') : C d := by
  induction attempted with
  | start => exact init
  | attempt i _ stopped ih => exact killed i _ _ ih stopped
  | between _ changed ih => exact keeps _ _ ih changed

end Scripts
