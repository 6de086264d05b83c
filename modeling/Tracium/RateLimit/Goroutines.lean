import Tracium.RateLimit.Limiter
import Tracium.Steps

/-! The requests and the sweeper as goroutines. allow and cleanupLoop read the clock and then
wait for the mutex, so they need not enter it in the order of their readings: a sweep that
overtakes a request drops a window which by the request's reading is not over. -/
namespace Tracium.RateLimit

open Go FixedWindow

/-- `entered` are the critical sections so far, `answered` what their requests were told. -/
structure Server where
  clock : Int
  waiting : Nat → Option Action
  limiter : RateLimiter
  entered : List Action
  answered : List (Bool × Int)

def newServer (limit window clock : Int) : Server :=
  ⟨clock, fun _ => none, newRateLimiter limit window, [], []⟩

inductive Turn
  | read (g : Nat) (a : Action)
  | enter (g : Nat)

namespace Server

/-- The clock does not go back; the mutex goes to any goroutine that waits for it. -/
def step (s : Server) : Turn → Option Server
  | .read g a =>
    if s.clock ≤ a.time ∧ (s.waiting g).isNone then
      some { s with clock := a.time, waiting := Function.update s.waiting g (some a) }
    else none
  | .enter g => (s.waiting g).map fun a =>
    { s with
      waiting := Function.update s.waiting g none
      limiter := s.limiter.step a
      entered := s.entered ++ [a]
      answered := s.answered ++ s.limiter.answer a }

/-- No goroutine that has entered has a later reading. -/
def InOrder (s : Server) : Turn → Prop
  | .read _ _ => True
  | .enter g => ∀ a ∈ s.waiting g, ∀ b ∈ s.entered, b.time ≤ a.time

/-- No sweep that has entered before a request has a later reading. -/
def Unswept (s : Server) : Turn → Prop
  | .read _ _ => True
  | .enter g => ∀ a ∈ s.waiting g, a.isAllow = true → ∀ b ∈ s.entered, b.isAllow = false → b.time ≤ a.time

instance (s : Server) : (turn : Turn) → Decidable (s.InOrder turn)
  | .read _ _ => isTrue trivial
  | .enter g => inferInstanceAs (Decidable (∀ a ∈ s.waiting g, ∀ b ∈ s.entered, b.time ≤ a.time))

/-- What the entered sections have made of the limiter. -/
structure Ran (limit window : Int) (s : Server) : Prop where
  limiter : s.limiter = (newRateLimiter limit window).after s.entered
  answered : s.answered = (newRateLimiter limit window).answers s.entered

variable {limit window : Int} {s s' : Server} {turn : Turn}

theorem Ran.step (ran : Ran limit window s) (stepped : s.step turn = some s') : Ran limit window s' := by
  cases turn with
  | read g a =>
    obtain ⟨-, ⟨⟩⟩ := Option.ite_none_right_eq_some.mp stepped
    exact ⟨ran.limiter, ran.answered⟩
  | enter g =>
    obtain ⟨a, -, rfl⟩ := Option.map_eq_some_iff.mp stepped
    refine ⟨?_, ?_⟩
    · rw [RateLimiter.after, List.foldl_append, ran.limiter]
      rfl
    · rw [RateLimiter.answers_append, ← ran.limiter, ran.answered]

/-- A relation between what has entered and what enters next holds throughout what entered. -/
theorem entered_pairwise {R : Action → Action → Prop} (pairwise : s.entered.Pairwise R)
    (next : ∀ g, turn = .enter g → ∀ a ∈ s.waiting g, ∀ b ∈ s.entered, R b a)
    (stepped : s.step turn = some s') : s'.entered.Pairwise R := by
  cases turn with
  | read g a =>
    obtain ⟨-, ⟨⟩⟩ := Option.ite_none_right_eq_some.mp stepped
    exact pairwise
  | enter g =>
    obtain ⟨a, waits, rfl⟩ := Option.map_eq_some_iff.mp stepped
    refine List.pairwise_append.mpr ⟨pairwise, List.pairwise_singleton _ _, ?_⟩
    rintro b member _ (_ | ⟨_, ⟨⟩⟩)
    exact next g rfl a waits b member

end Server

open Server

section Runs

variable {limit window clock : Int} {turns : List Turn} {s : Server}

theorem ran_run (ran : Steps.run Server.step (newServer limit window clock) turns = some s) :
    Ran limit window s :=
  Steps.run_invariant_along (fun _ _ _ ran _ stepped => ran.step stepped)
    (Steps.along_always _ _) ran ⟨rfl, rfl⟩

theorem ordered_run (ran : Steps.run Server.step (newServer limit window clock) turns = some s)
    (inOrder : Steps.Along Server.step InOrder (newServer limit window clock) turns) :
    s.entered.Pairwise fun a b => a.time ≤ b.time := by
  refine Steps.run_invariant_along (I := fun s => s.entered.Pairwise fun a b => a.time ≤ b.time)
    (fun s turn s' pairwise inOrder stepped => ?_) inOrder ran List.Pairwise.nil
  refine entered_pairwise pairwise ?_ stepped
  rintro g rfl
  exact inOrder

theorem unswept_run (ran : Steps.run Server.step (newServer limit window clock) turns = some s)
    (unswept : Steps.Along Server.step Unswept (newServer limit window clock) turns) :
    s.entered.Pairwise fun a b => a.isAllow = false → b.isAllow = true → a.time ≤ b.time := by
  refine Steps.run_invariant_along
    (I := fun s => s.entered.Pairwise fun a b => a.isAllow = false → b.isAllow = true → a.time ≤ b.time)
    (fun s turn s' pairwise unswept stepped => ?_) unswept ran List.Pairwise.nil
  refine entered_pairwise pairwise ?_ stepped
  rintro g rfl a waits b member sweeps asks
  exact unswept a waits asks b member sweeps

theorem answered_run (ran : Steps.run Server.step (newServer limit window clock) turns = some s)
    (ordered : s.entered.Pairwise fun a b => a.isAllow = false → b.isAllow = true → a.time ≤ b.time) :
    s.answered = (newRateLimiter limit window).answers (s.entered.filter Action.isAllow) := by
  obtain ⟨first, begun⟩ : ∃ first, ∀ b ∈ s.entered, first ≤ b.time := by
    obtain ⟨bound, past⟩ := exists_bound (s.entered.map fun b => -b.time)
    refine ⟨-bound, fun b member => ?_⟩
    have := past _ (List.mem_map_of_mem member)
    omega
  rw [(ran_run ran).answered]
  exact RateLimiter.answers_swept (RateLimiter.Swept.refl first _) ordered fun b member _ => begun b member

end Runs

/-- Sweeps show in no answer as long as no request enters with a reading older than that of a
sweep before it. Where every goroutine enters with a reading no older than those before it,
at most twice the limit is let through for an address in an interval of a window's length. -/
theorem cleanup_invisible_in_order {limit : Int} (pos : 1 ≤ limit) (window clock : Int)
    {turns : List Turn} {s : Server}
    (ran : Steps.run Server.step (newServer limit window clock) turns = some s) :
    (Steps.Along Server.step Unswept (newServer limit window clock) turns →
      s.answered = (newRateLimiter limit window).answers (s.entered.filter Action.isAllow)) ∧
    (Steps.Along Server.step InOrder (newServer limit window clock) turns →
      s.answered = (newRateLimiter limit window).answers (s.entered.filter Action.isAllow) ∧
      ∀ ip first last, last - first ≤ window →
        (within first last (RateLimiter.grants ip (newRateLimiter limit window) s.entered) : Int) ≤
          2 * limit) := by
  refine ⟨fun unswept => answered_run ran (unswept_run ran unswept), fun inOrder => ?_⟩
  have ordered := ordered_run ran inOrder
  refine ⟨answered_run ran (ordered.imp fun le _ _ => le), fun ip first last short => ?_⟩
  have start : RateLimiter.Configured limit window (newRateLimiter limit window) := ⟨rfl, rfl⟩
  apply (RateLimiter.limits pos window ip).run_within_le (by omega) start rfl ordered
  simpa [visitorExpiry] using short

/-- Two sweeps, one at the end of the first window, at which it is not over, and one after it. -/
def sweptTurns : List Turn :=
  [.read 0 (.allow (lit "a") 0), .enter 0, .read 0 (.allow (lit "a") 10), .enter 0,
    .read 1 (.cleanup 60), .read 0 (.allow (lit "a") 60), .enter 1, .enter 0, .read 1 (.cleanup 61),
    .enter 1, .read 0 (.allow (lit "a") 62), .enter 0]

theorem sweptTurns_invisible : ∃ s, Steps.run Server.step (newServer 2 60 0) sweptTurns = some s ∧
    s.answered = [(true, 0), (true, 0), (false, 0), (true, 0)] ∧
    s.answered = (newRateLimiter 2 60).answers (s.entered.filter Action.isAllow) := by
  have ends : (Steps.run Server.step (newServer 2 60 0) sweptTurns).map (·.answered) =
      some [(true, 0), (true, 0), (false, 0), (true, 0)] := by decide
  obtain ⟨s, ran, answered⟩ := Option.map_eq_some_iff.mp ends
  have inOrder : Steps.Along Server.step InOrder (newServer 2 60 0) sweptTurns := by decide
  have pos : (1 : Int) ≤ 2 := by omega
  exact ⟨s, ran, answered, ((cleanup_invisible_in_order pos 60 0 ran).2 inOrder).1⟩

/-- Two requests, read at 59 and 60, wait while sweeps read later enter before them. -/
def overtakenTurns : List Turn :=
  [.read 0 (.allow (lit "a") 0), .enter 0, .read 1 (.allow (lit "a") 59), .read 2 (.allow (lit "a") 60),
    .read 3 (.cleanup 61), .enter 3, .enter 2, .read 3 (.cleanup 121), .enter 3, .enter 1]

theorem overtaken_sweep_shows : ∃ s, Steps.run Server.step (newServer 1 60 0) overtakenTurns = some s ∧
    s.answered = [(true, 0), (true, 0), (true, 0)] ∧
    (newRateLimiter 1 60).answers (s.entered.filter Action.isAllow) = [(true, 0), (false, 0), (false, 1)] ∧
    within 0 60 (RateLimiter.grants (lit "a") (newRateLimiter 1 60) s.entered) = 3 := by
  have ends : (Steps.run Server.step (newServer 1 60 0) overtakenTurns).map
      (fun s => (s.answered, s.entered)) = some ([(true, 0), (true, 0), (true, 0)],
        [.allow (lit "a") 0, .cleanup 61, .allow (lit "a") 60, .cleanup 121, .allow (lit "a") 59]) := rfl
  obtain ⟨s, ran, same⟩ := Option.map_eq_some_iff.mp ends
  obtain ⟨answered, entered⟩ := Prod.mk.inj same
  refine ⟨s, ran, answered, ?_, ?_⟩ <;> rw [entered] <;> decide

end Tracium.RateLimit
