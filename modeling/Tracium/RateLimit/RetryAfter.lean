import Tracium.RateLimit.Limiter
import Tracium.Go.Float64
import Tracium.Go.Strconv

/-! middleware.RateLimiter.Middleware: the refusal of a request over the limit. The
seconds it advertises are cut off, so a request at the advertised time can come while the
window is not over. -/
namespace Tracium.RateLimit

open Go FixedWindow

/-- The number in Retry-After. -/
def retryAfterSeconds (retryAfter : Int) : Int :=
  let secs := ⌊seconds retryAfter⌋
  if secs < 1 then 1 else secs

/-- A response of status 429. -/
structure TooManyRequests where
  retryAfter : Str
  code : Str
  message : Str

/-- Middleware once clientIP has named the client; `none` is a request that is served. -/
def RateLimiter.middleware (rl : RateLimiter) (ip : Str) (now : Int) :
    Option TooManyRequests × RateLimiter :=
  match rl.allow ip now with
  | ((true, _), rl) => (none, rl)
  | ((false, retryAfter), rl) =>
    (some {
      retryAfter := itoa (retryAfterSeconds retryAfter)
      code := lit "RATE_LIMITED"
      message := lit "too many requests; please retry later" }, rl)

/-- The request came within the last second of the window that runs, or so close before a
whole second that the double is that second. -/
def Honoured (left : Int) : Prop := left < 1000000000 ∨ RoundsUp left

instance (left : Int) : Decidable (Honoured left) := inferInstanceAs (Decidable (_ ∨ _))

theorem retryAfterSeconds_short {left : Int} (nonneg : 0 ≤ left) (short : left < 1000000000) :
    retryAfterSeconds left = 1 := by
  have atMost := floor_seconds_le_one nonneg short
  simp only [retryAfterSeconds]
  split <;> omega

theorem retryAfterSeconds_whole {left : Int} (whole : 1000000000 ≤ left) (range : left ≤ maxInt64) :
    retryAfterSeconds left = left / 1000000000 + if RoundsUp left then 1 else 0 := by
  rw [retryAfterSeconds, floor_seconds whole range, if_neg]
  split <;> omega

/-- The advertised seconds reach past the end of the window just when the time left is honoured. -/
theorem lt_retryAfterSeconds_iff {left : Int} (nonneg : 0 ≤ left) (range : left ≤ maxInt64) :
    left < retryAfterSeconds left * 1000000000 ↔ Honoured left := by
  by_cases short : left < 1000000000
  · rw [retryAfterSeconds_short nonneg short]
    exact ⟨fun _ => .inl short, fun _ => by omega⟩
  · rw [retryAfterSeconds_whole (not_lt.mp short) range]
    by_cases up : RoundsUp left
    · rw [if_pos up]
      exact ⟨fun _ => .inr up, fun _ => by omega⟩
    · rw [if_neg up]
      constructor
      · intro past
        omega
      · rintro (less | reached)
        · exact absurd less short
        · exact absurd reached up

theorem retryAfterSeconds_range {left : Int} (nonneg : 0 ≤ left) (range : left ≤ maxInt64) :
    InInt64 (retryAfterSeconds left) := by
  by_cases short : left < 1000000000
  · rw [retryAfterSeconds_short nonneg short]
    decide
  · rw [retryAfterSeconds_whole (not_lt.mp short) range]
    simp only [InInt64, minInt64, maxInt64] at range ⊢
    split <;> omega

namespace RateLimiter

variable {rl : RateLimiter} {ip : Str} {now : Int}

/-- A request is refused only in a live window whose count has reached the limit. -/
theorem middleware_refused {refused : TooManyRequests} (answer : (rl.middleware ip now).1 = some refused) :
    ∃ v, rl.Live ip now v ∧ v.count ≥ rl.limit ∧ (rl.middleware ip now).2 = rl ∧
      refused.retryAfter = itoa (retryAfterSeconds (v.windowStart + rl.window - now)) := by
  rcases allow_cases rl ip now with ⟨_, called⟩ | ⟨v, live, full, called⟩ | ⟨v, live, room, called⟩
  · rw [middleware, called] at answer
    cases answer
  · have left : rl.window - (now - v.windowStart) = v.windowStart + rl.window - now := by omega
    rw [middleware, called] at answer
    refine ⟨v, live, full, by rw [middleware, called], ?_⟩
    rw [← Option.some.inj answer, left]
  · rw [middleware, called] at answer
    cases answer

theorem middleware_over (over_ : ∀ v, rl.visitors ip = some v → now - v.windowStart > rl.window) :
    (rl.middleware ip now).1 = none := by
  rw [middleware, allow_over over_]

theorem middleware_full {v : Visitor} (live : rl.Live ip now v) (full : v.count ≥ rl.limit) :
    (rl.middleware ip now).1 ≠ none := by
  rw [middleware, allow_full live full]
  simp

end RateLimiter

/-- An action that is no request of the address. -/
def Action.Other (ip : Str) : Action → Prop
  | .allow caller _ => caller ≠ ip
  | .cleanup _ => True

namespace RateLimiter

variable {rl : RateLimiter} {ip : Str}

theorem step_other (rl : RateLimiter) {a : Action} (other : a.Other ip) :
    (rl.step a).visitors ip = rl.visitors ip ∨ (rl.step a).visitors ip = none := by
  cases a with
  | allow caller now => exact .inl (allow_other rl now (Ne.symm other))
  | cleanup now =>
    rcases cleanup_cases rl ip now with same | ⟨_, _, _, gone⟩
    · exact .inl same
    · exact .inr gone

/-- While the address is silent its visitor stays as it is or goes. -/
theorem after_other {actions : List Action} (others : ∀ a ∈ actions, a.Other ip) :
    (rl.after actions).visitors ip = rl.visitors ip ∨ (rl.after actions).visitors ip = none := by
  induction actions generalizing rl with
  | nil => exact .inl rfl
  | cons a rest ih =>
    obtain ⟨other, later⟩ := List.forall_mem_cons.mp others
    have silent : (rl.after (a :: rest)).visitors ip = (rl.step a).visitors ip ∨
        (rl.after (a :: rest)).visitors ip = none := ih later
    rcases step_other rl other with same | gone
    · rwa [same] at silent
    · rw [gone, or_self] at silent
      exact .inr silent

theorem Configured.after {limit window : Int} (configured : Configured limit window rl)
    (actions : List Action) : Configured limit window (rl.after actions) := by
  induction actions generalizing rl with
  | nil => exact configured
  | cons a rest ih => exact ih (configured.step a)

/-- A window in the table has begun. -/
theorem windowStart_le {limit : Int} (pos : 1 ≤ limit) (window : Int) {actions : List Action}
    (ordered : actions.Pairwise fun a b => a.time ≤ b.time) {now : Int}
    (past : ∀ a ∈ actions, a.time ≤ now) {v : Visitor}
    (seen : ((newRateLimiter limit window).after actions).visitors ip = some v) :
    v.windowStart ≤ now := by
  have start : Configured limit window (newRateLimiter limit window) := ⟨rfl, rfl⟩
  obtain ⟨ws, tracks, _⟩ := (limits pos window ip).run_new start rfl ordered past
  obtain ⟨grants, older, rfl, _⟩ := tracks.held _ _ (entry_of_visitor seen)
  exact (tracks.windows.begun _ List.mem_cons_self).1

end RateLimiter

/-- A client that waits for the advertised seconds after a refusal is served, whatever
happens in between, just when the time left of its window was honoured. -/
theorem retry_after_honoured_iff {limit window : Int} (pos : 1 ≤ limit) (range : window ≤ maxInt64)
    {before : List Action} (ordered : before.Pairwise fun a b => a.time ≤ b.time) {ip : Str}
    {now : Int} (past : ∀ a ∈ before, a.time ≤ now) {refused : TooManyRequests}
    (answer : (((newRateLimiter limit window).after before).middleware ip now).1 = some refused) :
    (∀ s between later, parseInt64 refused.retryAfter = some s →
      (between ++ [.allow ip later]).Pairwise (fun a b => a.time ≤ b.time) →
      (∀ a ∈ between, now ≤ Action.time a ∧ a.Other ip) → now + s * 1000000000 ≤ later →
      (((((newRateLimiter limit window).after before).middleware ip now).2.after between).middleware
        ip later).1 = none) ↔
    ∀ v, ((newRateLimiter limit window).after before).visitors ip = some v →
      Honoured (v.windowStart + window - now) := by
  have start : RateLimiter.Configured limit window (newRateLimiter limit window) := ⟨rfl, rfl⟩
  have configured := start.after before
  obtain ⟨v, live, full, kept, header⟩ := RateLimiter.middleware_refused answer
  have begun := RateLimiter.windowStart_le pos window ordered past live.seen
  have within_ := live.within_
  rw [configured.window_eq] at header within_
  have left : 0 ≤ v.windowStart + window - now := by omega
  have most : v.windowStart + window - now ≤ maxInt64 := by omega
  have reaches := lt_retryAfterSeconds_iff left most
  rw [kept, header, parseInt64_itoa (retryAfterSeconds_range left most)]
  constructor
  · intro served w seen
    obtain rfl : v = w := Option.some.inj (live.seen.symm.trans seen)
    by_contra early
    -- at the advertised time itself, with nothing in between
    have short := not_lt.mp (mt reaches.mp early)
    have still : ((newRateLimiter limit window).after before).Live ip
        (now + retryAfterSeconds (v.windowStart + window - now) * 1000000000) v := by
      refine ⟨live.seen, ?_⟩
      rw [configured.window_eq]
      omega
    exact RateLimiter.middleware_full still full
      (served _ [] _ rfl (List.pairwise_singleton _ _) (by simp) (le_refl _))
  · rintro honoured s between later read - others waited
    obtain rfl := Option.some.inj read
    have reached := reaches.mpr (honoured v live.seen)
    have settings := configured.after between
    apply RateLimiter.middleware_over
    intro w seen
    rcases RateLimiter.after_other fun a member => (others a member).2 with same | gone
    · obtain rfl : v = w := Option.some.inj (live.seen.symm.trans (same.symm.trans seen))
      rw [settings.window_eq]
      omega
    · rw [gone] at seen
      cases seen

/-- A window of a minute whose limit of one is spent at 0. -/
def spentMinute : RateLimiter := (newRateLimiter 1 60000000000).after [.allow (lit "a") 0]

/-- Half a second before the end of the window the least value of one second is enough. -/
theorem lastSecond_honoured :
    (∃ refused, (spentMinute.middleware (lit "a") 59500000000).1 = some refused) ∧
    ∀ later, 60500000000 ≤ later →
      ((spentMinute.middleware (lit "a") 59500000000).2.middleware (lit "a") later).1 = none := by
  have pos : (1 : Int) ≤ 1 := le_refl 1
  have range : (60000000000 : Int) ≤ maxInt64 := by decide
  have ordered : [Action.allow (lit "a") 0].Pairwise fun a b => a.time ≤ b.time :=
    List.pairwise_singleton _ _
  have past : ∀ a ∈ [Action.allow (lit "a") 0], a.time ≤ 59500000000 := by simp [Action.time]
  have answer : (spentMinute.middleware (lit "a") 59500000000).1 = some
      ⟨itoa (retryAfterSeconds 500000000), lit "RATE_LIMITED",
        lit "too many requests; please retry later"⟩ := rfl
  have honoured : ∀ v, spentMinute.visitors (lit "a") = some v →
      Honoured (v.windowStart + 60000000000 - 59500000000) := by
    intro v seen
    obtain rfl : ⟨1, 0⟩ = v := Option.some.inj seen
    exact .inl (show (0 : Int) + 60000000000 - 59500000000 < 1000000000 by omega)
  refine ⟨⟨_, answer⟩, ?_⟩
  intro later waited
  have read : parseInt64 (itoa (retryAfterSeconds 500000000)) = some (retryAfterSeconds 500000000) :=
    parseInt64_itoa (retryAfterSeconds_range (by omega) (by decide))
  have one : retryAfterSeconds 500000000 = 1 := retryAfterSeconds_short (by omega) (by omega)
  exact (retry_after_honoured_iff pos range ordered past answer).mpr honoured 1 [] later
    (one ▸ read) (List.pairwise_singleton _ _) (by simp) (by omega)

/-- A request refused at once is told to come back after sixty seconds and is refused again
then: the window is not over at its end. -/
theorem wholeMinute_refused : ∃ refused,
    (spentMinute.middleware (lit "a") 0).1 = some refused ∧
    parseInt64 refused.retryAfter = some 60 ∧
    ((spentMinute.middleware (lit "a") 0).2.middleware (lit "a") 60000000000).1 ≠ none := by
  have whole : ¬RoundsUp 60000000000 := by decide
  have secs : retryAfterSeconds 60000000000 = 60 := by
    rw [retryAfterSeconds_whole (by omega) (by decide), if_neg whole]
    rfl
  have read : parseInt64 (itoa (retryAfterSeconds 60000000000)) = some 60 := by
    rw [secs]
    decide
  have full : spentMinute.Live (lit "a") 60000000000 ⟨1, 0⟩ := ⟨rfl, by decide⟩
  exact ⟨_, rfl, read, RateLimiter.middleware_full full (by decide)⟩

end Tracium.RateLimit
