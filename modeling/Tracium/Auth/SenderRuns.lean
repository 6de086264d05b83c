import Tracium.Auth.Limiter
import Tracium.FixedWindow

/-! Runs of the sender limiter. Each sender's windows go on in the table's entries while
they are live; what other senders do, the sweeps and refusals at the cap included, only
ever takes away an entry whose window is over. -/
namespace Tracium.Auth

open Go OrderedMap FixedWindow

/-- A window of the sender limiter is over once its length has passed. -/
def senderExpiry (window : Int) : Expiry where
  lapsed := fun elapsed => elapsed ≥ window
  mono := by
    intro x y le lapsed
    simp only [ge_iff_le, decide_eq_true_eq] at lapsed ⊢
    omega

namespace SenderLimiter

/-- A sender's count and the start of its window. -/
def entry (s : SenderLimiter) (sender : Str) : Option (Int × Int) :=
  (get s.seen sender).map fun w => (w.count, w.start)

/-- The table is a map of at most maxEntries senders. -/
structure Sound (s : SenderLimiter) : Prop where
  distinct : DistinctKeys s.seen
  capped : s.seen.length ≤ s.maxEntries

variable {s : SenderLimiter} {sender other : Str} {now : Int}

theorem length_put_seen (seen : List (Str × SenderWindow)) (w : SenderWindow) :
    (put seen sender w).length = if get seen sender = none then seen.length + 1 else seen.length := by
  have keys := congrArg List.length (keys_put seen sender w)
  rw [List.length_map] at keys
  rw [keys]
  split <;> simp

theorem entry_open : (s.open sender now).entry other =
    if other = sender then some (1, now) else s.entry other := by
  by_cases same : other = sender
  · subst same
    simp [entry, SenderLimiter.open]
  · rw [if_neg same, entry, SenderLimiter.open, get_put_other _ _ (Ne.symm same), entry]

theorem Sound.open (sound : s.Sound)
    (room : get s.seen sender = none → s.seen.length < s.maxEntries) : (s.open sender now).Sound := by
  refine ⟨sound.distinct.put sender _, ?_⟩
  have capped := sound.capped
  simp only [SenderLimiter.open, length_put_seen]
  split
  · rename_i absent
    exact room absent
  · exact capped

theorem entry_sweep (sound : s.Sound) : (s.sweep now).entry other =
    (s.entry other).filter fun e => !(senderExpiry s.window).lapsed (now - e.2) := by
  rw [entry, sweep, get_filter sound.distinct, entry]
  cases get s.seen other with
  | none => rfl
  | some w => simp [Option.filter, senderExpiry, apply_ite (Option.map _)]

theorem Sound.sweep (sound : s.Sound) : (s.sweep now).Sound :=
  ⟨sound.distinct.filter _, (List.length_filter_le _ _).trans sound.capped⟩

/-- Everything a call can do. -/
theorem allow_cases (s : SenderLimiter) (sender : Str) (now : Int) :
    (∃ w, get s.seen sender = some w ∧ now - w.start ≥ s.window ∧
      s.allow sender now = (true, s.open sender now)) ∨
    (∃ w, get s.seen sender = some w ∧ ¬now - w.start ≥ s.window ∧ w.count ≥ s.limit ∧
      s.allow sender now = (false, s)) ∨
    (∃ w, get s.seen sender = some w ∧ ¬now - w.start ≥ s.window ∧ ¬w.count ≥ s.limit ∧
      s.allow sender now =
        (true, { s with seen := put s.seen sender { w with count := w.count + 1 } })) ∨
    (get s.seen sender = none ∧ s.seen.length < s.maxEntries ∧
      s.allow sender now = (true, s.open sender now)) ∨
    (get s.seen sender = none ∧ s.allow sender now = (false, s.sweep now)) ∨
    (get s.seen sender = none ∧ (s.sweep now).seen.length < s.maxEntries ∧
      s.allow sender now = (true, (s.sweep now).open sender now)) := by
  unfold allow
  cases found : get s.seen sender with
  | some w =>
    dsimp only
    split
    · rename_i over_
      exact .inl ⟨w, rfl, over_, rfl⟩
    · rename_i live
      split
      · rename_i full
        exact .inr (.inl ⟨w, rfl, live, full, rfl⟩)
      · rename_i room
        exact .inr (.inr (.inl ⟨w, rfl, live, room, rfl⟩))
  | none =>
    dsimp only
    split
    · split
      · exact .inr (.inr (.inr (.inr (.inl ⟨rfl, rfl⟩))))
      · rename_i room
        exact .inr (.inr (.inr (.inr (.inr ⟨rfl, not_le.mp room, rfl⟩))))
    · rename_i room
      exact .inr (.inr (.inr (.inl ⟨rfl, not_le.mp room, rfl⟩)))

/-- The configuration of a limiter never changes. -/
theorem allow_settings (s : SenderLimiter) (sender : Str) (now : Int) :
    (s.allow sender now).2.limit = s.limit ∧ (s.allow sender now).2.window = s.window ∧
      (s.allow sender now).2.maxEntries = s.maxEntries := by
  rcases allow_cases s sender now with ⟨_, _, _, called⟩ | ⟨_, _, _, _, called⟩ |
    ⟨_, _, _, _, called⟩ | ⟨_, _, called⟩ | ⟨_, called⟩ | ⟨_, _, called⟩
  all_goals
    rw [called]
    exact ⟨rfl, rfl, rfl⟩

theorem Sound.allow (sound : s.Sound) : (s.allow sender now).2.Sound := by
  rcases allow_cases s sender now with ⟨w, found, _, called⟩ | ⟨_, _, _, _, called⟩ |
    ⟨w, found, _, _, called⟩ | ⟨_, room, called⟩ | ⟨_, called⟩ | ⟨_, room, called⟩
  all_goals rw [called]
  · exact sound.open fun absent => absurd absent (by simp [found])
  · exact sound
  · refine ⟨sound.distinct.put sender _, ?_⟩
    rw [length_put_seen, found, if_neg (by simp)]
    exact sound.capped
  · exact sound.open fun _ => room
  · exact sound.sweep
  · exact sound.sweep.open fun _ => room

theorem entry_eq_none : s.entry sender = none ↔ get s.seen sender = none := Option.map_eq_none_iff

theorem entry_of_get {w : SenderWindow} (found : get s.seen sender = some w) :
    s.entry sender = some (w.count, w.start) := by
  rw [entry, found]
  rfl

/-- A call is a request against the sender's own entry, but for a refusal at the cap. -/
theorem allow_own (sound : s.Sound) (sender : Str) (now : Int) :
    ((s.allow sender now).1, (s.allow sender now).2.entry sender) =
      ask (senderExpiry s.window) s.limit now (s.entry sender) ∨
    s.entry sender = none ∧ (s.allow sender now).1 = false ∧
      (s.allow sender now).2.entry sender = none := by
  rcases allow_cases s sender now with ⟨w, found, over_, called⟩ | ⟨w, found, live, full, called⟩ |
    ⟨w, found, live, room, called⟩ | ⟨absent, _, called⟩ | ⟨absent, called⟩ | ⟨absent, _, called⟩
  · left
    rw [called, entry_open, if_pos rfl, entry_of_get found, ask,
      if_pos (by simpa [senderExpiry] using over_)]
  · left
    have open_ : (senderExpiry s.window).lapsed (now - w.start) = false := by
      simpa [senderExpiry] using live
    rw [called, entry_of_get found, ask_live _ _ open_, if_pos full]
  · left
    have open_ : (senderExpiry s.window).lapsed (now - w.start) = false := by
      simpa [senderExpiry] using live
    rw [called, entry_of_get found, ask_live _ _ open_, if_neg room]
    simp [entry]
  · left
    rw [called, entry_open, if_pos rfl, entry_eq_none.mpr absent]
    rfl
  · right
    rw [called, entry_sweep sound, entry_eq_none.mpr absent]
    exact ⟨rfl, rfl, rfl⟩
  · left
    rw [called, entry_open, if_pos rfl, entry_eq_none.mpr absent]
    rfl

/-- A sweep leaves an entry alone or drops it once its window is over. -/
theorem entry_sweep_cases (sound : s.Sound) (now : Int) (other : Str) :
    (s.sweep now).entry other = s.entry other ∨
    (∃ count start, s.entry other = some (count, start) ∧
      (senderExpiry s.window).lapsed (now - start) = true) ∧ (s.sweep now).entry other = none := by
  rw [entry_sweep sound]
  cases s.entry other with
  | none => exact .inl rfl
  | some e =>
    by_cases over_ : (senderExpiry s.window).lapsed (now - e.2) = true
    · exact .inr ⟨⟨e.1, e.2, rfl, over_⟩, by simp [over_]⟩
    · exact .inl (by simp [over_])

/-- Another sender's call leaves an entry alone or drops it once its window is over. -/
theorem allow_other (sound : s.Sound) (now : Int) (apart : other ≠ sender) :
    (s.allow sender now).2.entry other = s.entry other ∨
    (∃ count start, s.entry other = some (count, start) ∧
      (senderExpiry s.window).lapsed (now - start) = true) ∧
      (s.allow sender now).2.entry other = none := by
  rcases allow_cases s sender now with ⟨_, _, _, called⟩ | ⟨_, _, _, _, called⟩ |
    ⟨_, _, _, _, called⟩ | ⟨_, _, called⟩ | ⟨_, called⟩ | ⟨_, _, called⟩
  · left
    rw [called, entry_open, if_neg apart]
  · left
    rw [called]
  · left
    rw [called, entry, get_put_other _ _ (Ne.symm apart), entry]
  · left
    rw [called, entry_open, if_neg apart]
  · rw [called]
    exact entry_sweep_cases sound now other
  · rw [called, entry_open, if_neg apart]
    exact entry_sweep_cases sound now other

end SenderLimiter

/-! Runs. -/

structure SenderCall where
  sender : Str
  now : Int

namespace SenderLimiter

def step (s : SenderLimiter) (c : SenderCall) : SenderLimiter := (s.allow c.sender c.now).2

/-- The limiter after a run. -/
def after (s : SenderLimiter) (calls : List SenderCall) : SenderLimiter := calls.foldl step s

/-- What a sender's own calls of a run are answered. -/
def decisions (sender : Str) (s : SenderLimiter) : List SenderCall → List Bool
  | [] => []
  | c :: rest =>
    (if c.sender = sender then [(s.allow c.sender c.now).1] else []) ++
      decisions sender (s.step c) rest

/-- The time of a call the sender is allowed. -/
def grant (sender : Str) (s : SenderLimiter) (c : SenderCall) : Option Int :=
  if c.sender = sender ∧ (s.allow c.sender c.now).1 = true then some c.now else none

def grants (sender : Str) : SenderLimiter → List SenderCall → List Int := grantsOf step (grant sender)

variable {s : SenderLimiter} {sender : Str} {calls : List SenderCall}

/-- A table with the settings it was made with. -/
structure Configured (limit window : Int) (maxEntries : Nat) (s : SenderLimiter) : Prop where
  sound : s.Sound
  limit_eq : s.limit = limit
  window_eq : s.window = window
  cap_eq : s.maxEntries = maxEntries

variable {limit window : Int} {maxEntries : Nat}

theorem Configured.step (configured : Configured limit window maxEntries s) (c : SenderCall) :
    Configured limit window maxEntries (s.step c) := by
  obtain ⟨sameLimit, sameWindow, sameCap⟩ := allow_settings s c.sender c.now
  exact {
    sound := configured.sound.allow
    limit_eq := sameLimit.trans configured.limit_eq
    window_eq := sameWindow.trans configured.window_eq
    cap_eq := sameCap.trans configured.cap_eq }

theorem Configured.after (configured : Configured limit window maxEntries s)
    (calls : List SenderCall) : Configured limit window maxEntries (s.after calls) := by
  induction calls generalizing s with
  | nil => exact configured
  | cons c rest ih => exact ih (configured.step c)

/-- One call keeps track of every sender's windows. -/
theorem limits (pos : 1 ≤ limit) (window : Int) (maxEntries : Nat) (sender : Str) :
    Limits (senderExpiry window) limit (Configured limit window maxEntries)
      (fun s => s.entry sender) step SenderCall.now (grant sender) where
  kept := fun _ c configured => configured.step c
  tracks := by
    rintro s c clock ws ⟨sound, rfl, rfl, _⟩ tracks le
    by_cases own : c.sender = sender
    · subst own
      rcases allow_own sound c.sender c.now with asked | ⟨none, refused, still⟩
      · obtain ⟨ws', tracks', grants⟩ := tracks.ask _ _ pos le
        rw [← asked] at tracks' grants
        refine ⟨ws', tracks', ?_⟩
        rw [grants, grant]
        cases (s.allow c.sender c.now).1 <;> simp
      · refine ⟨ws, ?_, by simp [grant, refused]⟩
        rw [SenderLimiter.step, still, ← none]
        exact tracks.later le
    · have quiet : grant sender s c = none := if_neg (by tauto)
      rw [quiet]
      rcases allow_other sound c.now (Ne.symm own) with
        same | ⟨⟨count, start, held, over_⟩, gone⟩
      · exact ⟨ws, same ▸ tracks.later le, rfl⟩
      · refine ⟨ws, ?_, rfl⟩
        rw [SenderLimiter.step, gone]
        exact (held ▸ tracks.later le).drop over_

/-- A call in a live window is granted below the limit and counted there. -/
theorem allow_live (configured : Configured limit window maxEntries s) {count start now : Int}
    (held : s.entry sender = some (count, start)) (live : now - start < window) :
    (s.allow sender now).1 = decide (count < limit) ∧
      ∃ count', (s.allow sender now).2.entry sender = some (count', start) ∧
        ∀ i : Nat, count' + i < limit ↔ count + (i + 1 : Nat) < limit := by
  have open_ : (senderExpiry s.window).lapsed (now - start) = false := by
    rw [configured.window_eq]
    simpa [senderExpiry] using live
  rcases allow_own configured.sound sender now with asked | ⟨none, _, _⟩
  · rw [held, ask_live _ _ open_, configured.limit_eq] at asked
    by_cases full : count ≥ limit
    · rw [if_pos full, Prod.mk.injEq] at asked
      refine ⟨by simp [asked.1, full], count, asked.2, ?_⟩
      intro i
      omega
    · rw [if_neg full, Prod.mk.injEq] at asked
      refine ⟨by simp [asked.1, not_le.mp full], count + 1, asked.2, ?_⟩
      intro i
      push_cast
      omega
  · rw [held] at none
    cases none

/-- While its window is live a sender is granted its calls up to the limit, and the
window stays, whoever else calls. -/
theorem decisions_live (configured : Configured limit window maxEntries s) {count start : Int}
    (held : s.entry sender = some (count, start)) (live : ∀ c ∈ calls, c.now - start < window) :
    decisions sender s calls = (List.range (calls.countP (·.sender = sender))).map
        (fun i : Nat => decide (count + i < limit)) ∧
      ∃ count', (s.after calls).entry sender = some (count', start) := by
  induction calls generalizing s count with
  | nil => exact ⟨rfl, count, held⟩
  | cons c rest ih =>
    have next := configured.step c
    obtain ⟨open_, laterLive⟩ := List.forall_mem_cons.mp live
    by_cases own : c.sender = sender
    · subst own
      obtain ⟨answer, count', stays, shift⟩ := allow_live configured held open_
      obtain ⟨answers, kept⟩ := ih next stays laterLive
      have one : (c :: rest).countP (·.sender = c.sender) =
          rest.countP (·.sender = c.sender) + 1 := by simp
      refine ⟨?_, kept⟩
      rw [one, List.range_succ_eq_map, List.map_cons, List.map_map, decisions, if_pos rfl, answer,
        answers, List.singleton_append, List.cons.injEq]
      refine ⟨by simp, List.map_congr_left ?_⟩
      intro i _
      exact decide_eq_decide.mpr (shift i)
    · have zero : (c :: rest).countP (·.sender = sender) = rest.countP (·.sender = sender) := by
        simp [own]
      rw [zero, decisions, if_neg own, List.nil_append]
      rcases allow_other configured.sound c.now (Ne.symm own) with
        same | ⟨⟨count', start', held', over_⟩, _⟩
      · exact ih next (same.trans held) laterLive
      · obtain ⟨rfl, rfl⟩ : count = count' ∧ start = start' := by simpa [held] using held'
        rw [configured.window_eq] at over_
        simp only [senderExpiry, decide_eq_true_eq] at over_
        omega

end SenderLimiter

/-- A new limiter with its table capped at `maxEntries`. -/
def emptyLimiter (limit window : Int) (maxEntries : Nat) : SenderLimiter :=
  ⟨limit, window, maxEntries, []⟩

/-- In every run the table keeps its cap; the calls a sender is allowed fall into windows
that begin a window's length apart and hold at most the limit each, so at most twice the
limit falls into any shorter interval; and a live window grants the sender's next calls
up to the limit and stays, whatever the other senders do. The calls are in the order they
take the mutex, each with its reading of the clock: `ordered` has the readings in this order
too, though `allow` reads the clock before it locks. -/
theorem senderLimiter_runs {limit : Int} (pos : 0 < limit) (window : Int) (maxEntries : Nat)
    {calls : List SenderCall} (ordered : calls.Pairwise fun a b => a.now ≤ b.now) :
    ((emptyLimiter limit window maxEntries).after calls).seen.length ≤ maxEntries ∧
    (∀ sender now, (∀ c ∈ calls, c.now ≤ now) → ∃ ws,
      Tracks (senderExpiry window) limit now
          (((emptyLimiter limit window maxEntries).after calls).entry sender) ws ∧
        granted ws =
          (SenderLimiter.grants sender (emptyLimiter limit window maxEntries) calls).reverse) ∧
    (∀ sender first last, last - first < window →
      (within first last
        (SenderLimiter.grants sender (emptyLimiter limit window maxEntries) calls) : Int) ≤
          2 * limit) ∧
    ∀ sender count start more,
      ((emptyLimiter limit window maxEntries).after calls).entry sender = some (count, start) →
      (∀ c ∈ more, SenderCall.now c - start < window) →
        SenderLimiter.decisions sender ((emptyLimiter limit window maxEntries).after calls) more =
          (List.range (more.countP (·.sender = sender))).map
            (fun i : Nat => decide (count + i < limit)) ∧
        ∃ count', (((emptyLimiter limit window maxEntries).after calls).after more).entry sender =
          some (count', start) := by
  have start : SenderLimiter.Configured limit window maxEntries (emptyLimiter limit window maxEntries) :=
    ⟨⟨List.nodup_nil, Nat.zero_le _⟩, rfl, rfl, rfl⟩
  have configured := start.after calls
  refine ⟨configured.sound.capped.trans configured.cap_eq.le, ?_, ?_, ?_⟩
  · intro sender now past
    exact (SenderLimiter.limits pos window maxEntries sender).run_new start rfl ordered past
  · intro sender first last short
    apply (SenderLimiter.limits pos window maxEntries sender).run_within_le (by omega) start rfl ordered
    simpa [senderExpiry] using short
  · intro sender count start more held live
    exact SenderLimiter.decisions_live configured held live

/-- A sender with room for two calls, and a flood that fills a table of one entry. -/
def floodedCalls : List SenderCall :=
  [⟨lit "a", 0⟩, ⟨lit "b", 1⟩, ⟨lit "c", 2⟩, ⟨lit "a", 3⟩, ⟨lit "a", 4⟩, ⟨lit "b", 60⟩]

theorem floodedCalls_bounded :
    SenderLimiter.decisions (lit "b") (emptyLimiter 2 60 1) floodedCalls = [false, true] ∧
      SenderLimiter.grants (lit "a") (emptyLimiter 2 60 1) floodedCalls = [0, 3] ∧
      ((emptyLimiter 2 60 1).after floodedCalls).seen.length ≤ 1 := by
  have ordered : floodedCalls.Pairwise fun a b => a.now ≤ b.now := by decide
  have pos : (0 : Int) < 2 := by decide
  exact ⟨by decide, by decide, (senderLimiter_runs pos 60 1 ordered).1⟩

end Tracium.Auth
