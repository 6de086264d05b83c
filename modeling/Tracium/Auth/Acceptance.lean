import Tracium.Auth.Verify

/-! Where an acceptance comes from: a goroutine holds a workspace only from the answer it
took, and only the goroutine that stores the answer accepts it. -/
namespace Tracium.Auth

open Go

namespace Pc

/-- The workspace of a 200 answer taken and not yet stored. -/
def grant : Pc → Option Str
  | .answered (.ok workspace) => some workspace
  | .store entry => if entry.ok then some entry.workspace else none
  | _ => none

def storing : Pc → Option Str
  | .store entry => if entry.ok then some entry.workspace else none
  | _ => none

theorem grant_of_storing {pc : Pc} {workspace : Str} (storing : pc.storing = some workspace) :
    pc.grant = some workspace := by
  cases pc <;> first | exact storing | cases storing

end Pc

/-- What one piece of a goroutine does to what is granted and accepted. -/
structure Carries (s : State) (g : Nat) (x : Goroutine) (s' : State) : Prop where
  now : s'.now = s.now
  moved : ∃ x', s'.goroutines = Function.update s.goroutines g (some x') ∧ x'.token = x.token ∧
    ∀ workspace, x'.pc.grant = some workspace → x.pc.grant = some workspace
  history : ∃ events, s'.history = s.history ++ events ∧
    ∀ token workspace at_, .accepted token workspace at_ ∈ events →
      token = x.token ∧ x.pc.storing = some workspace ∧ at_ = s.now

variable {cfg : Config} {cacheKeyFor : Str → Str} {s s' base : State} {g : Nat} {x : Goroutine}

theorem carries_goto (base : State) (events : List Event) (pc : Pc) (now : base.now = s.now)
    (goroutines : base.goroutines = s.goroutines) (history : base.history = s.history ++ events)
    (accepted : ∀ token workspace at_, .accepted token workspace at_ ∈ events →
      token = x.token ∧ x.pc.storing = some workspace ∧ at_ = s.now)
    (grant : ∀ workspace, pc.grant = some workspace → x.pc.grant = some workspace) :
    Carries s g x (base.goto g x pc) :=
  ⟨now, ⟨{ x with pc := pc }, by rw [State.goto, State.set, goroutines], rfl, grant⟩, events, history,
    accepted⟩

/-- A piece that accepts nothing and holds nothing. -/
theorem carries_quiet (pc : Pc) (now : base.now = s.now) (goroutines : base.goroutines = s.goroutines)
    (history : base.history = s.history) (grant : pc.grant = none) :
    Carries s g x (base.goto g x pc) :=
  carries_goto _ [] pc now goroutines (by simp [history]) (by simp)
    fun workspace held => by simp [grant] at held

theorem carries_decide (base : State) (pc : Pc) (token workspace : Str) (now : base.now = s.now)
    (goroutines : base.goroutines = s.goroutines) (history : base.history = s.history)
    (grant : pc.grant = none) : Carries s g x ((base.decide token workspace).1.goto g x pc) :=
  carries_goto (base.decide token workspace).1 [.decided token workspace base.now] pc now goroutines (by rw [← history]; rfl) (by simp) fun w held => by simp [grant] at held

theorem carries_cachedResult {cacheKey : Str} {hit : Outcome → Pc} {miss : Pc}
    (hits : ∀ o, (hit o).grant = none) (misses : miss.grant = none) :
    Carries s g x (s.cachedResult cfg g x cacheKey hit miss) := by
  unfold State.cachedResult
  split
  next => exact carries_quiet _ rfl rfl rfl misses
  next entry cache _ =>
    simp only
    split
    next => exact carries_decide { s with cache := cache } _ _ _ rfl rfl rfl (hits _)
    next => exact carries_quiet _ rfl rfl rfl (hits _)

theorem carries_joinInflight {cacheKey : Str} : Carries s g x (s.joinInflight g x cacheKey) := by
  unfold State.joinInflight
  split <;> exact carries_quiet _ rfl rfl rfl rfl

/-- The store of a taken answer accepts it at this time. -/
theorem carries_store {entry : CacheEntry} (at_ : x.pc = .store entry)
    (stepped : advance cfg cacheKeyFor s g x = some s') : Carries s g x s' := by
  simp only [advance, at_] at stepped
  by_cases positive : entry.ok = true
  · have mine : x.pc.storing = some entry.workspace := by rw [at_, Pc.storing, if_pos positive]
    have accepts : ∀ pc : Pc, pc.grant = none → Carries s g x
        (((s.record [.accepted x.token entry.workspace s.now]).decide x.token
          entry.workspace).1.goto g x pc) := by
      intro pc silent
      refine carries_goto _ [.accepted x.token entry.workspace s.now,
        .decided x.token entry.workspace s.now] pc rfl rfl ?_ ?_ ?_
      · simp [State.decide, State.record]
      · intro token workspace t member
        simp only [List.mem_cons, Event.accepted.injEq, List.not_mem_nil, or_false, reduceCtorEq] at member
        obtain ⟨rfl, rfl, rfl⟩ := member
        exact ⟨rfl, mine, rfl⟩
      · intro workspace held
        rw [silent] at held
        cases held
    rw [if_pos positive] at stepped
    split at stepped <;> exact Option.some.inj stepped ▸ accepts _ rfl
  · rw [if_neg positive] at stepped
    split at stepped <;> exact Option.some.inj stepped ▸ carries_quiet _ rfl rfl rfl rfl

theorem carries_answered {answer : Except Error Str} (at_ : x.pc = .answered answer)
    (stepped : advance cfg cacheKeyFor s g x = some s') : Carries s g x s' := by
  simp only [advance, at_] at stepped
  split at stepped
  next => exact Option.some.inj stepped ▸ carries_quiet _ rfl rfl rfl rfl
  next =>
    cases answer with
    | ok workspace =>
      refine Option.some.inj stepped ▸ carries_goto _ [] _ rfl rfl (by simp) (by simp) ?_
      intro w held
      rw [at_]
      exact held
    | error err =>
      cases err with
      | unauthenticated =>
        refine Option.some.inj stepped ▸ carries_goto (s.record [.rejected x.token s.now])
          [.rejected x.token s.now] _ rfl rfl rfl (by simp) ?_
        intro w held
        cases held
      | canceled | unreachable => exact Option.some.inj stepped ▸ carries_quiet _ rfl rfl rfl rfl

theorem advance_carries (stepped : advance cfg cacheKeyFor s g x = some s') : Carries s g x s' := by
  have whole := stepped
  simp only [advance] at stepped
  split at stepped
  next =>
    refine Option.some.inj stepped ▸ carries_quiet _ rfl rfl rfl ?_
    split <;> rfl
  next => exact Option.some.inj stepped ▸ carries_cachedResult (fun _ => rfl) rfl
  next => exact Option.some.inj stepped ▸ carries_joinInflight
  next leader _ =>
    obtain ⟨call, -, stepped⟩ := Option.bind_eq_some_iff.mp stepped
    split at stepped
    next =>
      split at stepped
      next => exact Option.some.inj stepped ▸ carries_quiet _ rfl rfl rfl rfl
      next =>
        obtain ⟨outcome, -, rfl⟩ := Option.map_eq_some_iff.mp stepped
        exact carries_quiet _ rfl rfl rfl rfl
    next => cases stepped
  next => exact Option.some.inj stepped ▸ carries_cachedResult (fun _ => rfl) rfl
  next => exact Option.some.inj stepped ▸ carries_quiet _ rfl rfl rfl rfl
  next =>
    refine Option.some.inj stepped ▸ carries_quiet _ rfl rfl rfl ?_
    split <;> rfl
  next => cases stepped
  next at_ => exact carries_answered at_ whole
  next =>
    split at stepped
    next => exact Option.some.inj stepped ▸ carries_quiet _ rfl rfl rfl rfl
    next => exact Option.some.inj stepped ▸ carries_decide _ _ _ _ rfl rfl rfl rfl
  next at_ => exact carries_store at_ whole
  next => split at stepped <;> exact Option.some.inj stepped ▸ carries_quiet _ rfl rfl rfl rfl
  next => exact Option.some.inj stepped ▸ carries_quiet _ rfl rfl rfl rfl
  next => exact Option.some.inj stepped ▸ carries_quiet _ rfl rfl rfl rfl
  next => exact Option.some.inj stepped ▸ carries_quiet _ rfl rfl rfl rfl
  next => exact Option.some.inj stepped ▸ carries_quiet _ rfl rfl rfl rfl
  next => exact Option.some.inj stepped ▸ carries_quiet _ rfl rfl rfl rfl
  next => cases stepped

/-- What any action but a tick and an answer does to what is granted and accepted. -/
structure Frame (s : State) (a : Action) (s' : State) : Prop where
  now : s'.now = s.now
  tokens : ∀ g x, s.goroutines g = some x → ∃ x', s'.goroutines g = some x' ∧ x'.token = x.token
  grants : ∀ g x' workspace, s'.goroutines g = some x' → x'.pc.grant = some workspace →
    ∃ x, s.goroutines g = some x ∧ x.token = x'.token ∧ x.pc.grant = some workspace
  history : ∃ events, s'.history = s.history ++ events ∧
    ∀ token workspace at_, .accepted token workspace at_ ∈ events →
      ∃ g x, a = .advance g ∧ s.goroutines g = some x ∧ token = x.token ∧
        x.pc.storing = some workspace ∧ at_ = s.now

/-- A goroutine is set to one that holds no more than it held. -/
theorem frame_set {a : Action} {x' : Goroutine} (here : s.goroutines g = some x)
    (token : x'.token = x.token)
    (grant : ∀ workspace, x'.pc.grant = some workspace → x.pc.grant = some workspace) :
    Frame s a (s.set g x') := by
  refine ⟨rfl, fun h y started => ?_, fun h y workspace started held => ?_, [], by simp [State.set], by simp⟩
  · by_cases same : h = g
    · subst same
      cases Option.some.inj (here.symm.trans started)
      exact ⟨x', Function.update_self .., token⟩
    · exact ⟨y, (Function.update_of_ne same ..).trans started, rfl⟩
  · rcases Steps.update_eq_some started with ⟨rfl, ⟨⟩⟩ | ⟨-, old⟩
    exacts [⟨x, here, token.symm, grant workspace held⟩, ⟨y, old, rfl, held⟩]

theorem Carries.frame (carries : Carries s g x s') (here : s.goroutines g = some x) :
    Frame s (.advance g) s' := by
  obtain ⟨x', goroutines, token, grant⟩ := carries.moved
  obtain ⟨-, tokens, grants, -⟩ := frame_set (a := .advance g) here token grant
  obtain ⟨events, history, accepted⟩ := carries.history
  refine ⟨carries.now, ?_, ?_, events, history, fun token workspace at_ member => ?_⟩
  · rw [goroutines]
    exact tokens
  · rw [goroutines]
    exact grants
  · exact ⟨g, x, rfl, here, accepted token workspace at_ member⟩

theorem step_frame {a : Action} (ticks : ∀ elapsed, a ≠ .tick elapsed)
    (answers : ∀ g response, a ≠ .answer g response) (stepped : step cfg cacheKeyFor s a = some s') :
    Frame s a s' := by
  cases a with
  | start g token sender =>
    simp only [step] at stepped
    split at stepped
    next free =>
      rw [← Option.some.inj stepped]
      refine ⟨rfl, fun h y started => ?_, fun h y workspace started held => ?_, [], by simp [State.set],
        by simp⟩
      · have other : h ≠ g := by
          rintro rfl
          cases free.symm.trans started
        exact ⟨y, (Function.update_of_ne other ..).trans started, rfl⟩
      · rcases Steps.update_eq_some started with ⟨rfl, ⟨⟩⟩ | ⟨-, old⟩
        · cases held
        · exact ⟨y, old, rfl, held⟩
    next => cases stepped
  | tick elapsed => exact absurd rfl (ticks elapsed)
  | cancel g =>
    obtain ⟨x, here, rfl⟩ := Option.map_eq_some_iff.mp stepped
    exact frame_set here rfl fun workspace held => held
  | giveUp g =>
    obtain ⟨x, here, stepped⟩ := Option.bind_eq_some_iff.mp stepped
    split at stepped
    next =>
      split at stepped
      next =>
        rw [← Option.some.inj stepped]
        exact frame_set here rfl fun workspace held => by cases held
      next => cases stepped
    next => cases stepped
  | answer g response => exact absurd rfl (answers g response)
  | advance g =>
    obtain ⟨x, here, stepped⟩ := Option.bind_eq_some_iff.mp stepped
    exact (advance_carries stepped).frame here

/-- What was recorded stays recorded. -/
theorem step_history {a : Action} (stepped : step cfg cacheKeyFor s a = some s') : s.history <+: s'.history := by
  cases a with
  | tick elapsed => exact Option.some.inj stepped ▸ List.prefix_rfl
  | answer g response =>
    obtain ⟨x, here, stepped⟩ := Option.bind_eq_some_iff.mp stepped
    split at stepped
    next => exact Option.some.inj stepped ▸ List.prefix_rfl
    next => cases stepped
  | start | cancel | giveUp | advance =>
    obtain ⟨events, grown, -⟩ := (step_frame (by simp) (by simp) stepped).history
    exact grown ▸ List.prefix_append _ events

end Tracium.Auth
