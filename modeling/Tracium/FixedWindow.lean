import Mathlib.Data.List.Basic
import Mathlib.Algebra.Order.Ring.Int

/-! Fixed-window rate limiting for one key. The windows of a key are kept with all their
grants, so that what a table forgets, by sweeping or replacing an entry, can still be
counted. -/
namespace Tracium.FixedWindow

/-- When a window is over, by the time since its start. -/
structure Expiry where
  lapsed : Int → Bool
  mono : ∀ x y, x ≤ y → lapsed x = true → lapsed y = true

structure Window where
  start : Int
  grants : List Int

/-- The windows of a key, the latest first, once all of them have begun: none has more
grants than the limit, and each began when the one before it was over. -/
structure Windows (x : Expiry) (limit now : Int) (ws : List Window) : Prop where
  short : ∀ w ∈ ws, (w.grants.length : Int) ≤ limit
  begun : ∀ w ∈ ws, w.start ≤ now ∧ ∀ t ∈ w.grants, w.start ≤ t ∧ t ≤ now
  spaced : ws.Pairwise fun newer older =>
    x.lapsed (newer.start - older.start) = true ∧ ∀ t ∈ older.grants, t ≤ newer.start

def granted (ws : List Window) : List Int := ws.flatMap Window.grants

/-- The grants of an interval, its ends included. -/
def within (first last : Int) (times : List Int) : Nat :=
  times.countP fun t => first ≤ t && t ≤ last

theorem within_append (first last : Int) (a b : List Int) :
    within first last (a ++ b) = within first last a + within first last b := List.countP_append

theorem within_reverse (first last : Int) (times : List Int) :
    within first last times.reverse = within first last times := List.countP_reverse

theorem within_le_length (first last : Int) (times : List Int) :
    within first last times ≤ times.length := List.countP_le_length

theorem within_eq_zero {first last : Int} {times : List Int}
    (outside : ∀ t ∈ times, t < first ∨ last < t) : within first last times = 0 := by
  apply List.countP_eq_zero.mpr
  intro t member
  have away := outside t member
  simp only [Bool.and_eq_true, decide_eq_true_eq]
  omega

/-- Finitely many times have all passed at some time. -/
theorem exists_bound (times : List Int) : ∃ now, ∀ t ∈ times, t ≤ now := by
  induction times with
  | nil => exact ⟨0, by simp⟩
  | cons first rest ih =>
    obtain ⟨now, past⟩ := ih
    refine ⟨max first now, ?_⟩
    intro t member
    rcases List.mem_cons.mp member with rfl | inside
    · exact le_max_left t now
    · exact (past t inside).trans (le_max_right first now)

section Interval

variable {x : Expiry} {limit now first last : Int} {ws : List Window}

theorem Windows.nil (x : Expiry) (limit now : Int) : Windows x limit now [] :=
  ⟨by simp, by simp, List.Pairwise.nil⟩

theorem Windows.tail {w : Window} (windows : Windows x limit now (w :: ws)) :
    Windows x limit now ws :=
  ⟨fun v member => windows.short v (List.mem_cons_of_mem w member),
    fun v member => windows.begun v (List.mem_cons_of_mem w member), windows.spaced.of_cons⟩

theorem Windows.later {now' : Int} (windows : Windows x limit now ws) (le : now ≤ now') :
    Windows x limit now' ws := by
  refine ⟨windows.short, ?_, windows.spaced⟩
  intro w member
  obtain ⟨began, grants⟩ := windows.begun w member
  refine ⟨began.trans le, ?_⟩
  intro t inside
  exact ⟨(grants t inside).1, (grants t inside).2.trans le⟩

/-- Of the windows over by some start in the interval, only the latest can reach into it. -/
theorem Windows.within_before (windows : Windows x limit now ws) (nonneg : 0 ≤ limit) {start : Int}
    (apart : x.lapsed (last - first) = false) (startLe : start ≤ last)
    (before : ∀ w ∈ ws, x.lapsed (start - w.start) = true) :
    (within first last (granted ws) : Int) ≤ limit := by
  cases ws with
  | nil => exact nonneg
  | cons w older =>
    -- the latest of them began before the interval, so the others ended before it
    have early : w.start < first := by
      by_contra inside
      have over_ := x.mono (start - w.start) (last - first) (by omega)
        (before w List.mem_cons_self)
      rw [apart] at over_
      cases over_
    have rest : within first last (granted older) = 0 := by
      apply within_eq_zero
      intro t member
      obtain ⟨v, inOlder, inside⟩ := List.mem_flatMap.mp member
      have ended := ((List.pairwise_cons.mp windows.spaced).1 v inOlder).2 t inside
      omega
    have own : (within first last w.grants : Int) ≤ limit := by
      have short := windows.short w List.mem_cons_self
      have most := within_le_length first last w.grants
      omega
    have split : granted (w :: older) = w.grants ++ granted older := List.flatMap_cons
    rw [split, within_append, rest]
    omega

/-- An interval too short to hold the starts of two windows one after the other meets at
most two of them. -/
theorem Windows.within_le (windows : Windows x limit now ws) (nonneg : 0 ≤ limit)
    (apart : x.lapsed (last - first) = false) :
    (within first last (granted ws) : Int) ≤ 2 * limit := by
  induction ws with
  | nil =>
    have none : within first last (granted []) = 0 := rfl
    omega
  | cons w older ih =>
    have split : granted (w :: older) = w.grants ++ granted older := List.flatMap_cons
    rw [split, within_append]
    by_cases startLe : w.start ≤ last
    · have rest := windows.tail.within_before nonneg apart startLe fun v member =>
        ((List.pairwise_cons.mp windows.spaced).1 v member).1
      have short := windows.short w List.mem_cons_self
      have most := within_le_length first last w.grants
      omega
    · have own : within first last w.grants = 0 := by
        apply within_eq_zero
        intro t member
        have began := ((windows.begun w List.mem_cons_self).2 t member).1
        omega
      have rest := ih windows.tail
      omega

end Interval

/-! The entry a table keeps for the key. -/

/-- The entry is the latest window with its count, or is missing because that window is
over. -/
structure Tracks (x : Expiry) (limit now : Int) (entry : Option (Int × Int)) (ws : List Window) :
    Prop where
  windows : Windows x limit now ws
  held : ∀ count start, entry = some (count, start) →
    ∃ grants older, ws = ⟨start, grants⟩ :: older ∧ (grants.length : Int) = count
  gone : entry = none → ∀ w ∈ ws.head?, x.lapsed (now - w.start) = true

namespace Tracks

variable {x : Expiry} {limit now now' count start : Int} {entry : Option (Int × Int)}
  {ws : List Window}

theorem new (x : Expiry) (limit now : Int) : Tracks x limit now none [] :=
  ⟨Windows.nil x limit now, by simp, by simp⟩

theorem later (tracks : Tracks x limit now entry ws) (le : now ≤ now') :
    Tracks x limit now' entry ws := by
  refine ⟨tracks.windows.later le, tracks.held, ?_⟩
  intro missing w member
  exact x.mono _ _ (by omega) (tracks.gone missing w member)

/-- A sweep may drop the entry of a window that is over. -/
theorem drop (tracks : Tracks x limit now (some (count, start)) ws)
    (lapsed : x.lapsed (now - start) = true) : Tracks x limit now none ws := by
  refine ⟨tracks.windows, by simp, ?_⟩
  intro _ w member
  obtain ⟨grants, older, rfl, _⟩ := tracks.held count start rfl
  obtain rfl : ⟨start, grants⟩ = w := by simpa using member
  exact lapsed

/-- The latest window is over when its entry is, or when it has none. -/
theorem over_all (tracks : Tracks x limit now entry ws)
    (over_ : ∀ count start, entry = some (count, start) → x.lapsed (now - start) = true) :
    ∀ w ∈ ws, x.lapsed (now - w.start) = true := by
  have latest : ∀ w ∈ ws.head?, x.lapsed (now - w.start) = true := by
    cases entry with
    | none => exact tracks.gone rfl
    | some pair => exact (tracks.drop (over_ pair.1 pair.2 rfl)).gone rfl
  cases ws with
  | nil => simp
  | cons first older =>
    intro w member
    have firstOver := latest first rfl
    rcases List.mem_cons.mp member with rfl | inside
    · exact firstOver
    · have began := (tracks.windows.begun first List.mem_cons_self).1
      have spaced := ((List.pairwise_cons.mp tracks.windows.spaced).1 w inside).1
      exact x.mono _ _ (by omega) spaced

/-- A new window opens when the latest one is over. -/
theorem opened (tracks : Tracks x limit now entry ws) (pos : 1 ≤ limit)
    (over_ : ∀ count start, entry = some (count, start) → x.lapsed (now - start) = true) :
    Tracks x limit now (some (1, now)) (⟨now, [now]⟩ :: ws) := by
  have ended := tracks.over_all over_
  refine ⟨⟨?_, ?_, ?_⟩, ?_, by simp⟩
  · intro w member
    rcases List.mem_cons.mp member with rfl | inside
    · exact pos
    · exact tracks.windows.short w inside
  · intro w member
    rcases List.mem_cons.mp member with rfl | inside
    · simp
    · exact tracks.windows.begun w inside
  · refine List.pairwise_cons.mpr ⟨?_, tracks.windows.spaced⟩
    intro w member
    exact ⟨ended w member, fun t inside => ((tracks.windows.begun w member).2 t inside).2⟩
  · intro count start same
    obtain ⟨rfl, rfl⟩ : 1 = count ∧ now = start := by simpa using same
    exact ⟨[now], ws, rfl, rfl⟩

/-- A grant in the latest window. -/
theorem counted (tracks : Tracks x limit now (some (count, start)) ws) (room : count < limit) :
    ∃ grants older, ws = ⟨start, grants⟩ :: older ∧
      Tracks x limit now (some (count + 1, start)) (⟨start, now :: grants⟩ :: older) := by
  obtain ⟨grants, older, rfl, counts⟩ := tracks.held count start rfl
  refine ⟨grants, older, rfl, ⟨?_, ?_, ?_⟩, ?_, by simp⟩
  · intro w member
    rcases List.mem_cons.mp member with rfl | inside
    · simp only [List.length_cons]
      omega
    · exact tracks.windows.short w (List.mem_cons_of_mem _ inside)
  · intro w member
    rcases List.mem_cons.mp member with rfl | inside
    · obtain ⟨began, past⟩ := tracks.windows.begun ⟨start, grants⟩ List.mem_cons_self
      refine ⟨began, ?_⟩
      intro t inside
      rcases List.mem_cons.mp inside with rfl | earlier
      · exact ⟨began, Int.le_refl t⟩
      · exact past t earlier
    · exact tracks.windows.begun w (List.mem_cons_of_mem _ inside)
  · exact List.pairwise_cons.mpr (List.pairwise_cons.mp tracks.windows.spaced)
  · intro count' start' same
    obtain ⟨rfl, rfl⟩ : count + 1 = count' ∧ start = start' := by simpa using same
    refine ⟨now :: grants, older, rfl, ?_⟩
    simp only [List.length_cons]
    omega

end Tracks

/-! One request after another. -/

section Ask

variable (x : Expiry) (limit : Int)

/-- A request against the entry: whether it is granted, and the entry after it. -/
def ask (now : Int) : Option (Int × Int) → Bool × Option (Int × Int)
  | none => (true, some (1, now))
  | some (count, start) =>
    if x.lapsed (now - start) then (true, some (1, now))
    else if count ≥ limit then (false, some (count, start))
    else (true, some (count + 1, start))

theorem ask_lapsed {now : Int} {entry : Option (Int × Int)}
    (over_ : ∀ count start, entry = some (count, start) → x.lapsed (now - start) = true) :
    ask x limit now entry = (true, some (1, now)) := by
  cases entry with
  | none => rfl
  | some pair => exact if_pos (over_ pair.1 pair.2 rfl)

theorem ask_live {now count start : Int} (live : x.lapsed (now - start) = false) :
    ask x limit now (some (count, start)) =
      if count ≥ limit then (false, some (count, start)) else (true, some (count + 1, start)) := by
  simp [ask, live]

/-- The windows after a request: a grant opens one or is counted in the latest. -/
theorem Tracks.ask {now now' : Int} {entry : Option (Int × Int)} {ws : List Window}
    (tracks : Tracks x limit now entry ws) (pos : 1 ≤ limit) (le : now ≤ now') :
    ∃ ws', Tracks x limit now' (ask x limit now' entry).2 ws' ∧
      granted ws' = (if (FixedWindow.ask x limit now' entry).1 then [now'] else []) ++ granted ws := by
  have current := tracks.later le
  by_cases over_ : ∀ count start, entry = some (count, start) → x.lapsed (now' - start) = true
  · rw [ask_lapsed x limit over_]
    exact ⟨_, current.opened pos over_, rfl⟩
  · push Not at over_
    obtain ⟨count, start, rfl, live⟩ := over_
    rw [ask_live x limit (by simpa using live)]
    by_cases full : count ≥ limit
    · rw [if_pos full]
      exact ⟨ws, current, rfl⟩
    · rw [if_neg full]
      obtain ⟨grants, older, rfl, counted⟩ := current.counted (by omega)
      exact ⟨_, counted, rfl⟩

end Ask

/-! Runs of a table. -/

section Run

variable {S A : Type}

/-- When the grants of a run were made. -/
def grantsOf (step : S → A → S) (grant : S → A → Option Int) : S → List A → List Int
  | _, [] => []
  | s, a :: rest => (grant s a).toList ++ grantsOf step grant (step s a) rest

/-- A table keeps the windows of a key when each of its steps, at a time of its own, does. -/
structure Limits (x : Expiry) (limit : Int) (good : S → Prop) (entry : S → Option (Int × Int))
    (step : S → A → S) (time : A → Int) (grant : S → A → Option Int) : Prop where
  kept : ∀ s a, good s → good (step s a)
  tracks : ∀ s a clock ws, good s → Tracks x limit clock (entry s) ws → clock ≤ time a →
    ∃ ws', Tracks x limit (time a) (entry (step s a)) ws' ∧
      granted ws' = (grant s a).toList ++ granted ws

namespace Limits

variable {x : Expiry} {limit : Int} {good : S → Prop} {entry : S → Option (Int × Int)}
  {step : S → A → S} {time : A → Int} {grant : S → A → Option Int}

theorem run (limits : Limits x limit good entry step time grant) {actions : List A} {s : S}
    (start : good s) {clock now : Int} {ws : List Window} (tracks : Tracks x limit clock (entry s) ws)
    (ordered : actions.Pairwise fun a b => time a ≤ time b) (begun : ∀ a ∈ actions, clock ≤ time a)
    (past : ∀ a ∈ actions, time a ≤ now) (le : clock ≤ now) :
    ∃ ws', Tracks x limit now (entry (actions.foldl step s)) ws' ∧
      granted ws' = (grantsOf step grant s actions).reverse ++ granted ws := by
  induction actions generalizing s clock ws with
  | nil => exact ⟨ws, tracks.later le, rfl⟩
  | cons a rest ih =>
    obtain ⟨first, later⟩ := List.pairwise_cons.mp ordered
    obtain ⟨ws', tracks', granted'⟩ :=
      limits.tracks s a clock ws start tracks (begun a List.mem_cons_self)
    obtain ⟨ws'', tracks'', granted''⟩ := ih (limits.kept s a start) tracks' later first
      (fun b member => past b (List.mem_cons_of_mem a member)) (past a List.mem_cons_self)
    refine ⟨ws'', tracks'', ?_⟩
    rw [granted'', granted', grantsOf, List.reverse_append, List.append_assoc]
    cases grant s a <;> rfl

/-- The windows of a key over a run on a table that does not hold it yet. -/
theorem run_new (limits : Limits x limit good entry step time grant) {actions : List A} {s : S}
    (start : good s) (new : entry s = none)
    (ordered : actions.Pairwise fun a b => time a ≤ time b) {now : Int}
    (past : ∀ a ∈ actions, time a ≤ now) :
    ∃ ws, Tracks x limit now (entry (actions.foldl step s)) ws ∧
      granted ws = (grantsOf step grant s actions).reverse := by
  cases actions with
  | nil => exact ⟨[], new ▸ Tracks.new x limit now, rfl⟩
  | cons a rest =>
    have begun : ∀ b ∈ a :: rest, time a ≤ time b :=
      List.forall_mem_cons.mpr ⟨le_refl (time a), (List.pairwise_cons.mp ordered).1⟩
    obtain ⟨ws, tracks, grants⟩ := limits.run start (new ▸ Tracks.new x limit (time a)) ordered begun
      past (past a List.mem_cons_self)
    exact ⟨ws, tracks, grants.trans (List.append_nil _)⟩

/-- At most twice the limit is granted within an interval too short for two windows. -/
theorem run_within_le (limits : Limits x limit good entry step time grant) (nonneg : 0 ≤ limit)
    {actions : List A} {s : S} (start : good s) (new : entry s = none)
    (ordered : actions.Pairwise fun a b => time a ≤ time b) {first last : Int}
    (apart : x.lapsed (last - first) = false) :
    (within first last (grantsOf step grant s actions) : Int) ≤ 2 * limit := by
  obtain ⟨now, past⟩ := exists_bound (actions.map time)
  obtain ⟨ws, tracks, grants⟩ := limits.run_new start new ordered fun a member =>
    past (time a) (List.mem_map_of_mem member)
  have most := tracks.windows.within_le nonneg apart
  rwa [grants, within_reverse] at most

end Limits

end Run

end Tracium.FixedWindow
