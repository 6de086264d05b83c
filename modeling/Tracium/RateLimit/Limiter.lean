import Tracium.FixedWindow
import Tracium.Go.Bytes
import Mathlib.Logic.Function.Basic
import Mathlib.Tactic.Tauto

/-! middleware.RateLimiter: fixed windows keyed by client address, with a background
sweeper. Times and durations are nanoseconds. The sweeper and allow agree on when a
window is over, so a sweep shows in no answer to a request with a reading of the clock
that is no older than the sweep's. -/
namespace Tracium.RateLimit

open Go FixedWindow

structure Visitor where
  count : Int
  windowStart : Int

/-- The proxy settings stand in modules of their own. -/
structure RateLimiter where
  limit : Int
  window : Int
  visitors : Str → Option Visitor

def newRateLimiter (limit window : Int) : RateLimiter := ⟨limit, window, fun _ => none⟩

/-- One tick of cleanupLoop. -/
def RateLimiter.cleanup (rl : RateLimiter) (now : Int) : RateLimiter :=
  { rl with visitors := fun ip => (rl.visitors ip).filter fun v => ¬ now - v.windowStart > rl.window }

/-- The answer of allow and the time to retry after. -/
def RateLimiter.allow (rl : RateLimiter) (ip : Str) (now : Int) : (Bool × Int) × RateLimiter :=
  match rl.visitors ip with
  | none => ((true, 0), { rl with visitors := Function.update rl.visitors ip (some ⟨1, now⟩) })
  | some v =>
    if now - v.windowStart > rl.window then
      ((true, 0), { rl with visitors := Function.update rl.visitors ip (some ⟨1, now⟩) })
    else if v.count ≥ rl.limit then ((false, rl.window - (now - v.windowStart)), rl)
    else
      ((true, 0),
        { rl with visitors := Function.update rl.visitors ip (some { v with count := v.count + 1 }) })

/-- A window of the rate limiter is over after its length, not yet at its end. -/
def visitorExpiry (window : Int) : Expiry where
  lapsed := fun elapsed => elapsed > window
  mono := by
    intro x y le lapsed
    simp only [gt_iff_lt, decide_eq_true_eq] at lapsed ⊢
    omega

namespace RateLimiter

variable {rl rl' : RateLimiter} {ip other : Str} {now : Int}

/-- A visitor's count and the start of its window. -/
def entry (rl : RateLimiter) (ip : Str) : Option (Int × Int) :=
  (rl.visitors ip).map fun v => (v.count, v.windowStart)

/-- A visitor's window at a time at which it is not over. -/
structure Live (rl : RateLimiter) (ip : Str) (now : Int) (v : Visitor) : Prop where
  seen : rl.visitors ip = some v
  within_ : now - v.windowStart ≤ rl.window

/-- Everything a call can do. -/
theorem allow_cases (rl : RateLimiter) (ip : Str) (now : Int) :
    ((∀ v, rl.visitors ip = some v → now - v.windowStart > rl.window) ∧
      rl.allow ip now =
        ((true, 0), { rl with visitors := Function.update rl.visitors ip (some ⟨1, now⟩) })) ∨
    (∃ v, rl.Live ip now v ∧ v.count ≥ rl.limit ∧
      rl.allow ip now = ((false, rl.window - (now - v.windowStart)), rl)) ∨
    (∃ v, rl.Live ip now v ∧ ¬v.count ≥ rl.limit ∧
      rl.allow ip now = ((true, 0),
        { rl with visitors := Function.update rl.visitors ip (some { v with count := v.count + 1 }) })) := by
  unfold allow
  cases seen : rl.visitors ip with
  | none => exact .inl ⟨by simp, rfl⟩
  | some v =>
    dsimp only
    split
    · rename_i over_
      refine .inl ⟨?_, rfl⟩
      rintro w same
      rwa [← Option.some.inj same]
    · rename_i open_
      have live : rl.Live ip now v := ⟨seen, not_lt.mp open_⟩
      split
      · rename_i full
        exact .inr (.inl ⟨v, live, full, rfl⟩)
      · rename_i room
        exact .inr (.inr ⟨v, live, room, rfl⟩)

theorem allow_over (over_ : ∀ v, rl.visitors ip = some v → now - v.windowStart > rl.window) :
    rl.allow ip now =
      ((true, 0), { rl with visitors := Function.update rl.visitors ip (some ⟨1, now⟩) }) := by
  unfold allow
  cases seen : rl.visitors ip with
  | none => rfl
  | some v => exact if_pos (over_ v seen)

theorem allow_full {v : Visitor} (live : rl.Live ip now v) (full : v.count ≥ rl.limit) :
    rl.allow ip now = ((false, rl.window - (now - v.windowStart)), rl) := by
  unfold allow
  rw [live.seen]
  dsimp only
  rw [if_neg (not_lt.mpr live.within_), if_pos full]

theorem allow_room {v : Visitor} (live : rl.Live ip now v) (room : ¬v.count ≥ rl.limit) :
    rl.allow ip now = ((true, 0),
      { rl with visitors := Function.update rl.visitors ip (some { v with count := v.count + 1 }) }) := by
  unfold allow
  rw [live.seen]
  dsimp only
  rw [if_neg (not_lt.mpr live.within_), if_neg room]

/-- A sweep drops a visitor whose window is over. -/
theorem cleanup_over {v : Visitor} (seen : rl.visitors ip = some v)
    (over_ : now - v.windowStart > rl.window) : (rl.cleanup now).visitors ip = none := by
  simp only [cleanup, seen, Option.filter_some, decide_eq_true_eq]
  exact if_neg (not_not.mpr over_)

theorem cleanup_live {v : Visitor} (live : rl.Live ip now v) :
    (rl.cleanup now).visitors ip = some v := by
  simp only [cleanup, live.seen, Option.filter_some, decide_eq_true_eq]
  exact if_pos (not_lt.mpr live.within_)

end RateLimiter

/-! Critical sections one after another. -/

/-- A request or a sweep with the reading of the clock it took before the mutex. -/
inductive Action
  | allow (ip : Str) (now : Int)
  | cleanup (now : Int)

def Action.time : Action → Int
  | .allow _ now => now
  | .cleanup now => now

def Action.isAllow : Action → Bool
  | .allow _ _ => true
  | .cleanup _ => false

namespace RateLimiter

def step (rl : RateLimiter) : Action → RateLimiter
  | .allow ip now => (rl.allow ip now).2
  | .cleanup now => rl.cleanup now

def after (rl : RateLimiter) (actions : List Action) : RateLimiter := actions.foldl step rl

/-- What a request is answered; a sweep answers nobody. -/
def answer (rl : RateLimiter) : Action → List (Bool × Int)
  | .allow ip now => [(rl.allow ip now).1]
  | .cleanup _ => []

/-- What the requests of a run are answered. -/
def answers (rl : RateLimiter) : List Action → List (Bool × Int)
  | [] => []
  | .allow ip now :: rest => (rl.allow ip now).1 :: answers (rl.allow ip now).2 rest
  | .cleanup now :: rest => answers (rl.cleanup now) rest

/-- The time of a request of the address that is let through. -/
def grant (ip : Str) (rl : RateLimiter) : Action → Option Int
  | .allow caller now => if caller = ip ∧ (rl.allow caller now).1.1 = true then some now else none
  | .cleanup _ => none

def grants (ip : Str) : RateLimiter → List Action → List Int := grantsOf step (grant ip)

theorem answers_append (rl : RateLimiter) (actions : List Action) (a : Action) :
    rl.answers (actions ++ [a]) = rl.answers actions ++ (rl.after actions).answer a := by
  induction actions generalizing rl with
  | nil => cases a <;> rfl
  | cons first rest ih =>
    cases first with
    | allow ip now => exact congrArg (List.cons _) (ih _)
    | cleanup now => exact ih _

/-! The limiter that is swept beside the one that is not. -/

/-- The first limiter lacks only visitors of the second whose windows are over. -/
structure Swept (clock : Int) (rl rl' : RateLimiter) : Prop where
  limit : rl.limit = rl'.limit
  window : rl.window = rl'.window
  visitors : ∀ ip, rl.visitors ip = rl'.visitors ip ∨ (rl.visitors ip = none ∧
    ∀ v, rl'.visitors ip = some v → clock - v.windowStart > rl'.window)

variable {rl rl' : RateLimiter} {clock : Int}

theorem Swept.refl (clock : Int) (rl : RateLimiter) : Swept clock rl rl :=
  ⟨rfl, rfl, fun _ => .inl rfl⟩

theorem Swept.later (swept : Swept clock rl rl') {now : Int} (le : clock ≤ now) : Swept now rl rl' := by
  refine ⟨swept.limit, swept.window, ?_⟩
  intro ip
  rcases swept.visitors ip with same | ⟨none, over_⟩
  · exact .inl same
  · refine .inr ⟨none, ?_⟩
    intro v seen
    have before := over_ v seen
    omega

theorem Swept.cleanup (swept : Swept clock rl rl') {now : Int} (le : now ≤ clock) :
    Swept clock (rl.cleanup now) rl' := by
  refine ⟨swept.limit, swept.window, ?_⟩
  intro ip
  rcases swept.visitors ip with same | ⟨none, over_⟩
  · cases seen : rl'.visitors ip with
    | none => exact .inl (by simp [RateLimiter.cleanup, same, seen])
    | some v =>
      rw [seen] at same
      by_cases over_ : now - v.windowStart > rl.window
      · refine .inr ⟨cleanup_over same over_, ?_⟩
        rintro w found
        rw [← Option.some.inj found, ← swept.window]
        omega
      · exact .inl (cleanup_live ⟨same, not_lt.mp over_⟩)
  · exact .inr ⟨by simp [RateLimiter.cleanup, none], over_⟩

/-- Both limiters write one visitor. -/
theorem Swept.update (swept : Swept clock rl rl') (ip : Str) (v : Visitor) :
    Swept clock { rl with visitors := Function.update rl.visitors ip (some v) }
      { rl' with visitors := Function.update rl'.visitors ip (some v) } := by
  refine ⟨swept.limit, swept.window, ?_⟩
  intro other
  by_cases own : other = ip
  · subst own
    exact .inl (by simp)
  · simpa only [Function.update_of_ne own] using swept.visitors other

/-- Both limiters answer a request alike and stay side by side. -/
theorem Swept.allow (swept : Swept clock rl rl') (ip : Str) {now : Int} (le : clock ≤ now) :
    (rl.allow ip now).1 = (rl'.allow ip now).1 ∧
      Swept clock (rl.allow ip now).2 (rl'.allow ip now).2 := by
  have current := swept.later le
  have live : ∀ v, rl'.Live ip now v → rl.Live ip now v := by
    rintro v ⟨seen, open_⟩
    rcases current.visitors ip with same | ⟨_, over_⟩
    · exact ⟨same.trans seen, swept.window ▸ open_⟩
    · exact absurd (over_ v seen) (not_lt.mpr open_)
  rcases allow_cases rl' ip now with ⟨over_, called⟩ | ⟨v, live', full, called⟩ |
    ⟨v, live', room, called⟩
  · have also : rl.allow ip now =
        ((true, 0), { rl with visitors := Function.update rl.visitors ip (some ⟨1, now⟩) }) := by
      apply allow_over
      intro v seen
      rcases swept.visitors ip with same | ⟨none, _⟩
      · rw [swept.window]
        exact over_ v (same ▸ seen)
      · rw [none] at seen
        cases seen
    rw [called, also]
    exact ⟨rfl, swept.update ip _⟩
  · rw [called, allow_full (live v live') (swept.limit ▸ full), swept.window]
    exact ⟨rfl, swept⟩
  · rw [called, allow_room (live v live') (swept.limit ▸ room)]
    exact ⟨rfl, swept.update ip _⟩

/-- Requests with readings no older than those of the sweeps before them are answered as if
there were no sweeps. -/
theorem answers_swept (swept : Swept clock rl rl') {actions : List Action}
    (ordered : actions.Pairwise fun a b => a.isAllow = false → b.isAllow = true → a.time ≤ b.time)
    (begun : ∀ b ∈ actions, b.isAllow = true → clock ≤ b.time) :
    rl.answers actions = rl'.answers (actions.filter Action.isAllow) := by
  induction actions generalizing rl rl' clock with
  | nil => rfl
  | cons a rest ih =>
    obtain ⟨first, later⟩ := List.pairwise_cons.mp ordered
    have still : ∀ b ∈ rest, b.isAllow = true → clock ≤ b.time :=
      fun b member => begun b (List.mem_cons_of_mem a member)
    cases a with
    | allow ip now =>
      obtain ⟨same, after⟩ := swept.allow ip (begun _ List.mem_cons_self rfl)
      exact congrArg₂ List.cons same (ih after later still)
    | cleanup now =>
      rw [List.filter_cons_of_neg (by simp [Action.isAllow]), answers]
      refine ih ((swept.later (le_max_left clock now)).cleanup (le_max_right clock now)) later ?_
      exact fun b member asks => max_le (still b member asks) (first b member rfl asks)

/-! Windows over a run. -/

theorem lapsed_iff (window elapsed : Int) :
    (visitorExpiry window).lapsed elapsed = true ↔ elapsed > window := decide_eq_true_iff

theorem Live.open_ {v : Visitor} (live : rl.Live ip now v) :
    (visitorExpiry rl.window).lapsed (now - v.windowStart) = false :=
  decide_eq_false (not_lt.mpr live.within_)

theorem entry_of_visitor {v : Visitor} (seen : rl.visitors ip = some v) :
    rl.entry ip = some (v.count, v.windowStart) := by
  rw [entry, seen]
  rfl

theorem visitor_of_entry {count start : Int} (held : rl.entry ip = some (count, start)) :
    rl.visitors ip = some ⟨count, start⟩ := by
  obtain ⟨⟨c, s⟩, seen, same⟩ := Option.map_eq_some_iff.mp held
  obtain ⟨rfl, rfl⟩ : c = count ∧ s = start := by simpa using same
  exact seen

/-- A call is a request against the address's own entry. -/
theorem allow_own (rl : RateLimiter) (ip : Str) (now : Int) :
    ((rl.allow ip now).1.1, (rl.allow ip now).2.entry ip) =
      ask (visitorExpiry rl.window) rl.limit now (rl.entry ip) := by
  rcases allow_cases rl ip now with ⟨over_, called⟩ | ⟨v, live, full, called⟩ |
    ⟨v, live, room, called⟩
  · rw [called, ask_lapsed]
    · simp [entry]
    · intro count start held
      exact (lapsed_iff _ _).mpr (over_ _ (visitor_of_entry held))
  · rw [called, entry_of_visitor live.seen, ask_live _ _ live.open_, if_pos full]
  · rw [called, entry_of_visitor live.seen, ask_live _ _ live.open_, if_neg room]
    simp [entry]

/-- A call touches no other address. -/
theorem allow_other (rl : RateLimiter) (now : Int) (apart : other ≠ ip) :
    (rl.allow ip now).2.visitors other = rl.visitors other := by
  rcases allow_cases rl ip now with ⟨_, called⟩ | ⟨_, _, _, called⟩ | ⟨_, _, _, called⟩
  all_goals rw [called]
  · exact Function.update_of_ne apart _ _
  · exact Function.update_of_ne apart _ _

/-- A sweep leaves a visitor alone or drops it once its window is over. -/
theorem cleanup_cases (rl : RateLimiter) (ip : Str) (now : Int) :
    (rl.cleanup now).visitors ip = rl.visitors ip ∨
      ∃ v, rl.visitors ip = some v ∧ now - v.windowStart > rl.window ∧
        (rl.cleanup now).visitors ip = none := by
  cases seen : rl.visitors ip with
  | none => exact .inl (by simp [cleanup, seen])
  | some v =>
    by_cases over_ : now - v.windowStart > rl.window
    · exact .inr ⟨v, rfl, over_, cleanup_over seen over_⟩
    · exact .inl (cleanup_live ⟨seen, not_lt.mp over_⟩)

/-- A limiter with the settings it was made with. -/
structure Configured (limit window : Int) (rl : RateLimiter) : Prop where
  limit_eq : rl.limit = limit
  window_eq : rl.window = window

theorem Configured.step {limit window : Int} (configured : Configured limit window rl) (a : Action) :
    Configured limit window (rl.step a) := by
  cases a with
  | allow ip now =>
    rcases allow_cases rl ip now with ⟨_, called⟩ | ⟨_, _, _, called⟩ | ⟨_, _, _, called⟩
    all_goals
      rw [RateLimiter.step, called]
      exact ⟨configured.limit_eq, configured.window_eq⟩
  | cleanup now => exact ⟨configured.limit_eq, configured.window_eq⟩

/-- One action keeps track of every address's windows. -/
theorem limits {limit : Int} (pos : 1 ≤ limit) (window : Int) (ip : Str) :
    Limits (visitorExpiry window) limit (Configured limit window) (fun rl => rl.entry ip) step
      Action.time (grant ip) where
  kept := fun _ a configured => configured.step a
  tracks := by
    rintro rl a clock ws ⟨rfl, rfl⟩ tracks le
    cases a with
    | allow caller now =>
      by_cases own : caller = ip
      · subst own
        have asked := allow_own rl caller now
        have le : clock ≤ now := le
        obtain ⟨ws', tracks', grants⟩ := tracks.ask _ _ pos le
        rw [← asked] at tracks' grants
        refine ⟨ws', tracks', ?_⟩
        rw [grants, grant]
        cases (rl.allow caller now).1.1 <;> simp
      · have quiet : grant ip rl (.allow caller now) = none := if_neg (by tauto)
        have same : (rl.step (.allow caller now)).entry ip = rl.entry ip := by
          rw [entry, RateLimiter.step, allow_other rl now (Ne.symm own), entry]
        rw [quiet, same]
        exact ⟨ws, tracks.later le, rfl⟩
    | cleanup now =>
      refine ⟨ws, ?_, rfl⟩
      have current := tracks.later le
      rcases cleanup_cases rl ip now with same | ⟨v, seen, over_, gone⟩
      · rw [RateLimiter.step, entry, same]
        exact current
      · rw [RateLimiter.step, entry, gone]
        exact (entry_of_visitor seen ▸ current).drop ((lapsed_iff _ _).mpr over_)

end RateLimiter

end Tracium.RateLimit
