import Tracium.Steps
import Mathlib.Data.List.Nodup

/-! Transactions that hold one exclusive lock from their first statement to their end.
A call runs a program statement by statement on its own copy of the committed state,
which nobody else can change meanwhile, and commits or rolls back. Whatever the
interleaving, the committed state and the results are those of the finished calls run
one after the other. -/
namespace Tracium.Exclusive

open Steps

variable {C P D R : Type}

/-- What a statement does: go on, commit with a result, or give up with one. -/
inductive Next (P D R : Type) where
  | go (p : P) (work : D)
  | commit (work : D) (result : R)
  | rollback (result : R)

/-- A program: what a call does before the lock, and its statements under it. -/
structure Program (C P D R : Type) where
  start : C → Except R P
  next : P → D → Next P D R

inductive Session (P D R : Type) where
  | waiting (p : P)
  | working (p : P) (work : D)
  | done (result : R)
  | aborted

structure Store (C P D R : Type) where
  committed : D
  holder : Option Nat
  calls : Nat → Option (C × Session P D R)

def Store.initial (d : D) : Store C P D R := ⟨d, none, fun _ => none⟩

inductive Action (C : Type) where
  | call (t : Nat) (c : C)
  | lock (t : Nat)
  | advance (t : Nat)
  | abort (t : Nat)

def Store.set (s : Store C P D R) (t : Nat) (c : C) (x : Session P D R) : Store C P D R :=
  { s with calls := Function.update s.calls t (some (c, x)) }

def Store.finish (s : Store C P D R) (t : Nat) (c : C) (d : D) (r : R) : Store C P D R :=
  { (s.set t c (.done r)) with committed := d, holder := none }

/-- One action of one call. An abort stands for a failure of the infrastructure. -/
def step (prog : Program C P D R) (s : Store C P D R) : Action C → Option (Store C P D R)
  | .call t c =>
    match s.calls t with
    | some _ => none
    | none =>
      match prog.start c with
      | .error r => some (s.set t c (.done r))
      | .ok p => some (s.set t c (.waiting p))
  | .lock t =>
    match s.calls t, s.holder with
    | some (c, .waiting p), none =>
      some { (s.set t c (.working p s.committed)) with holder := some t }
    | _, _ => none
  | .advance t =>
    match s.calls t with
    | some (c, .working p work) =>
      match prog.next p work with
      | .go p' work' => some (s.set t c (.working p' work'))
      | .commit work' r => some (s.finish t c work' r)
      | .rollback r => some (s.finish t c s.committed r)
    | _ => none
  | .abort t =>
    match s.calls t with
    | some (c, .waiting _) => some (s.set t c .aborted)
    | some (c, .working _ _) => some { (s.set t c .aborted) with holder := none }
    | _ => none

/-! One call on its own. -/

/-- From this statement on, a transaction over `base` ends in this state with this
result. -/
inductive Ends (prog : Program C P D R) (base : D) : P → D → D → R → Prop where
  | commit {p : P} {work work' : D} {r : R} (last : prog.next p work = .commit work' r) :
      Ends prog base p work work' r
  | rollback {p : P} {work : D} {r : R} (last : prog.next p work = .rollback r) :
      Ends prog base p work base r
  | go {p p' : P} {work work' after : D} {r : R} (one : prog.next p work = .go p' work')
      (later : Ends prog base p' work' after r) : Ends prog base p work after r

theorem Ends.of_go {prog : Program C P D R} {base work work' after : D} {p p' : P} {r : R}
    (ends : Ends prog base p work after r) (one : prog.next p work = .go p' work') :
    Ends prog base p' work' after r := by
  cases ends with
  | commit last =>
    rw [one] at last
    cases last
  | rollback last =>
    rw [one] at last
    cases last
  | go again later =>
    rw [one] at again
    cases again
    exact later

theorem Ends.of_commit {prog : Program C P D R} {base work work' after : D} {p : P} {r r' : R}
    (ends : Ends prog base p work after r) (last : prog.next p work = .commit work' r') :
    after = work' ∧ r = r' := by
  cases ends with
  | commit again =>
    rw [last] at again
    cases again
    exact ⟨rfl, rfl⟩
  | rollback again =>
    rw [last] at again
    cases again
  | go one later =>
    rw [last] at one
    cases one

theorem Ends.of_rollback {prog : Program C P D R} {base work after : D} {p : P} {r r' : R}
    (ends : Ends prog base p work after r) (last : prog.next p work = .rollback r') :
    after = base ∧ r = r' := by
  cases ends with
  | commit again =>
    rw [last] at again
    cases again
  | rollback again =>
    rw [last] at again
    cases again
    exact ⟨rfl, rfl⟩
  | go one later =>
    rw [last] at one
    cases one

/-- The call alone, from start to end. -/
def Alone (prog : Program C P D R) (c : C) (base after : D) (r : R) : Prop :=
  match prog.start c with
  | .error early => after = base ∧ r = early
  | .ok p => Ends prog base p base after r

/-- The calls one after the other. -/
inductive Serial (prog : Program C P D R) (first : D) : List (Nat × C × R) → D → Prop where
  | nil : Serial prog first [] first
  | snoc {order : List (Nat × C × R)} {d d' : D} {t : Nat} {c : C} {r : R}
      (before : Serial prog first order d) (alone : Alone prog c d d' r) :
      Serial prog first (order ++ [(t, c, r)]) d'

/-! What a step can do. -/

/-- Every way a step can go. -/
inductive Effect (prog : Program C P D R) (s : Store C P D R) : Store C P D R → Prop where
  | early {t : Nat} {c : C} {r : R} (fresh : s.calls t = none) (start : prog.start c = .error r) :
      Effect prog s (s.set t c (.done r))
  | begun {t : Nat} {c : C} {p : P} (fresh : s.calls t = none) (start : prog.start c = .ok p) :
      Effect prog s (s.set t c (.waiting p))
  | locked {t : Nat} {c : C} {p : P} (here : s.calls t = some (c, .waiting p))
      (free : s.holder = none) :
      Effect prog s { (s.set t c (.working p s.committed)) with holder := some t }
  | went {t : Nat} {c : C} {p p' : P} {work work' : D} (here : s.calls t = some (c, .working p work))
      (one : prog.next p work = .go p' work') : Effect prog s (s.set t c (.working p' work'))
  | ended {t : Nat} {c : C} {p : P} {work after : D} {r : R}
      (here : s.calls t = some (c, .working p work)) (last : Ends prog s.committed p work after r) :
      Effect prog s (s.finish t c after r)
  | gaveUp {t : Nat} {c : C} {p : P} (here : s.calls t = some (c, .waiting p)) :
      Effect prog s (s.set t c .aborted)
  | brokeOff {t : Nat} {c : C} {p : P} {work : D} (here : s.calls t = some (c, .working p work)) :
      Effect prog s { (s.set t c .aborted) with holder := none }

variable {prog : Program C P D R} {s s' : Store C P D R}

theorem step_effect {a : Action C} (stepped : step prog s a = some s') : Effect prog s s' := by
  cases a with
  | call t c =>
    simp only [step] at stepped
    split at stepped
    · cases stepped
    · rename_i fresh
      split at stepped
      · rename_i r start
        cases stepped
        exact .early fresh start
      · rename_i p start
        cases stepped
        exact .begun fresh start
  | lock t =>
    simp only [step] at stepped
    split at stepped
    · rename_i c p here free
      cases stepped
      exact .locked here free
    · cases stepped
  | advance t =>
    simp only [step] at stepped
    split at stepped
    · rename_i c p work here
      split at stepped
      · rename_i p' work' one
        cases stepped
        exact .went here one
      · rename_i work' r last
        cases stepped
        exact .ended here (.commit last)
      · rename_i r last
        cases stepped
        exact .ended here (.rollback last)
    · cases stepped
  | abort t =>
    simp only [step] at stepped
    split at stepped
    · rename_i c p here
      cases stepped
      exact .gaveUp here
    · rename_i c p work here
      cases stepped
      exact .brokeOff here
    · cases stepped

/-! The order of the finished calls. -/

/-- A session that has not finished is where its call alone would be. -/
def OnTrack (prog : Program C P D R) (committed : D) (c : C) : Session P D R → Prop
  | .waiting p => prog.start c = .ok p
  | .working p work => ∀ after r, Ends prog committed p work after r → Alone prog c committed after r
  | .done _ => True
  | .aborted => True

/-- The session is past the lock and before its end. -/
def Session.isWorking : Session P D R → Bool
  | .working _ _ => true
  | _ => false

structure Ordered (prog : Program C P D R) (first : D) (order : List (Nat × C × R))
    (s : Store C P D R) : Prop where
  serial : Serial prog first order s.committed
  distinct : (order.map Prod.fst).Nodup
  finished : ∀ t c r, (t, c, r) ∈ order ↔ s.calls t = some (c, .done r)
  onTrack : ∀ t c x, s.calls t = some (c, x) → OnTrack prog s.committed c x
  exclusive : ∀ t c x, s.calls t = some (c, x) → x.isWorking = true → s.holder = some t

variable {first : D} {order : List (Nat × C × R)}

theorem Ordered.initial (d : D) : Ordered prog d [] (Store.initial d) where
  serial := .nil
  distinct := List.nodup_nil
  finished := fun t c r => ⟨fun member => (List.not_mem_nil member).elim, fun found => by cases found⟩
  onTrack := fun t c x found => by cases found
  exclusive := fun t c x found => by cases found

/-- A call found after one of them was set is that one or an old one. -/
theorem calls_set {t u : Nat} {c c' : C} {x x' : Session P D R}
    (found : (s.set t c x).calls u = some (c', x')) :
    (u = t ∧ c' = c ∧ x' = x) ∨ (u ≠ t ∧ s.calls u = some (c', x')) := by
  rcases update_eq_some found with ⟨same, eq⟩ | ⟨other, old⟩
  · rw [Option.some.injEq, Prod.mk.injEq] at eq
    exact .inl ⟨same, eq.1.symm, eq.2.symm⟩
  · exact .inr ⟨other, old⟩

/-- An unfinished call changes into another unfinished session. -/
theorem Ordered.replace (inv : Ordered prog first order s) {t : Nat} {c : C} {x : Session P D R}
    {holder : Option Nat} (before : ∀ c r, s.calls t ≠ some (c, .done r))
    (unfinished : ∀ r, x ≠ .done r) (track : OnTrack prog s.committed c x)
    (mine : x.isWorking = true → holder = some t)
    (others : ∀ u c x, u ≠ t → s.calls u = some (c, x) → x.isWorking = true → holder = some u) :
    Ordered prog first order { (s.set t c x) with holder := holder } where
  serial := inv.serial
  distinct := inv.distinct
  finished := by
    intro u c' r
    rw [inv.finished]
    constructor
    · intro old
      have other : u ≠ t := fun same => before c' r (same ▸ old)
      exact (Function.update_of_ne other _ _).trans old
    · intro found
      rcases calls_set found with ⟨_, _, done⟩ | ⟨_, old⟩
      · exact absurd done.symm (unfinished r)
      · exact old
  onTrack := by
    intro u c' x' found
    rcases calls_set found with ⟨_, rfl, rfl⟩ | ⟨_, old⟩
    · exact track
    · exact inv.onTrack u c' x' old
  exclusive := by
    intro u c' x' found working
    rcases calls_set found with ⟨rfl, rfl, rfl⟩ | ⟨other, old⟩
    · exact mine working
    · exact others u c' x' other old working

/-- A call finishes: it comes last in the order. -/
theorem Ordered.append (inv : Ordered prog first order s) {t : Nat} {c : C} {d : D} {r : R}
    {holder : Option Nat} (before : ∀ c r, s.calls t ≠ some (c, .done r))
    (alone : Alone prog c s.committed d r)
    (track : ∀ u c x, u ≠ t → s.calls u = some (c, x) → OnTrack prog d c x)
    (others : ∀ u c x, u ≠ t → s.calls u = some (c, x) → x.isWorking = true → holder = some u) :
    Ordered prog first (order ++ [(t, c, r)])
      { (s.set t c (.done r)) with committed := d, holder := holder } where
  serial := .snoc inv.serial alone
  distinct := by
    rw [List.map_append, List.nodup_append]
    refine ⟨inv.distinct, List.nodup_singleton _, ?_⟩
    rintro u member _ last rfl
    obtain ⟨⟨u', c', r'⟩, inside, rfl⟩ := List.mem_map.mp member
    rw [List.map_singleton, List.mem_singleton] at last
    obtain rfl : u' = t := last
    exact before c' r' ((inv.finished u' c' r').mp inside)
  finished := by
    intro u c' r'
    rw [List.mem_append, List.mem_singleton, inv.finished]
    constructor
    · rintro (old | new)
      · have other : u ≠ t := fun same => before c' r' (same ▸ old)
        exact (Function.update_of_ne other _ _).trans old
      · obtain ⟨rfl, rfl, rfl⟩ := Prod.mk.injEq .. ▸ new
        exact Function.update_self _ _ _
    · intro found
      rcases calls_set found with ⟨rfl, rfl, done⟩ | ⟨_, old⟩
      · right
        rw [Session.done.inj done]
      · exact .inl old
  onTrack := by
    intro u c' x' found
    rcases calls_set found with ⟨_, rfl, rfl⟩ | ⟨other, old⟩
    · trivial
    · exact track u c' x' other old
  exclusive := by
    intro u c' x' found working
    rcases calls_set found with ⟨rfl, rfl, rfl⟩ | ⟨other, old⟩
    · cases working
    · exact others u c' x' other old working

/-- Nobody but the holder is past the lock. -/
theorem Ordered.others_idle (inv : Ordered prog first order s) {t u : Nat} {c c' : C} {p : P}
    {work : D} {x : Session P D R} (here : s.calls t = some (c, .working p work))
    (other : u ≠ t) (there : s.calls u = some (c', x)) : x.isWorking = false := by
  apply Bool.eq_false_iff.mpr
  intro working
  have mine := inv.exclusive t c _ here rfl
  have theirs := inv.exclusive u c' x there working
  rw [mine] at theirs
  exact other (Option.some.inj theirs).symm

/-- A session that is not past the lock stays on track whatever is committed. -/
theorem OnTrack.of_not_working {d d' : D} {c : C} {x : Session P D R}
    (idle : x.isWorking = false) (track : OnTrack prog d c x) : OnTrack prog d' c x := by
  cases x with
  | waiting p => exact track
  | working p work => cases idle
  | done r => trivial
  | aborted => trivial

theorem Ordered.effect (inv : Ordered prog first order s) (effect : Effect prog s s') :
    ∃ order', Ordered prog first order' s' := by
  cases effect with
  | @early t c r fresh start =>
    have alone : Alone prog c s.committed s.committed r := by
      unfold Alone
      rw [start]
      exact ⟨rfl, rfl⟩
    exact ⟨_, inv.append (by simp [fresh]) alone
      (fun u c x _ old => inv.onTrack u c x old) fun u c x _ old => inv.exclusive u c x old⟩
  | begun fresh start =>
    exact ⟨order, inv.replace (by simp [fresh]) (by simp) start (by simp [Session.isWorking])
      fun u c x _ old => inv.exclusive u c x old⟩
  | @locked t c p here free =>
    have track : OnTrack prog s.committed c (.working p s.committed) := by
      have start : prog.start c = .ok p := inv.onTrack t c _ here
      intro after r ends
      unfold Alone
      rw [start]
      exact ends
    refine ⟨order, inv.replace (by simp [here]) (by simp) track (fun _ => rfl) ?_⟩
    intro u c' x other old working
    have held := inv.exclusive u c' x old working
    rw [free] at held
    cases held
  | @went t c p p' work work' here one =>
    have track : OnTrack prog s.committed c (.working p' work') := by
      intro after r ends
      exact inv.onTrack t c _ here after r (.go one ends)
    exact ⟨order, inv.replace (by simp [here]) (by simp) track
      (fun _ => inv.exclusive t c _ here rfl) fun u c x _ old => inv.exclusive u c x old⟩
  | @ended t c p work after r here last =>
    refine ⟨_, inv.append (by simp [here]) (inv.onTrack t c _ here after r last) ?_ ?_⟩
    · intro u c' x other old
      exact (inv.onTrack u c' x old).of_not_working (inv.others_idle here other old)
    · intro u c' x other old working
      rw [inv.others_idle here other old] at working
      cases working
  | @gaveUp t c p here =>
    have track : OnTrack prog s.committed c (.aborted : Session P D R) := trivial
    exact ⟨order, inv.replace (by simp [here]) (by simp) track (by simp [Session.isWorking])
      fun u c x _ old => inv.exclusive u c x old⟩
  | @brokeOff t c p work here =>
    have track : OnTrack prog s.committed c (.aborted : Session P D R) := trivial
    refine ⟨order, inv.replace (by simp [here]) (by simp) track (by simp [Session.isWorking]) ?_⟩
    intro u c' x other old working
    rw [inv.others_idle here other old] at working
    cases working

/-- Every run is serial: in the order in which the calls finish, each one alone has its
result, and together they leave what is committed. -/
theorem run_serial {d : D} {actions : List (Action C)} {s : Store C P D R}
    (ran : run (step prog) (Store.initial d) actions = some s) :
    ∃ order, Serial prog d order s.committed ∧ (order.map Prod.fst).Nodup ∧
      ∀ t c r, (t, c, r) ∈ order ↔ s.calls t = some (c, .done r) := by
  have kept : ∀ (s : Store C P D R) a s', (∃ order, Ordered prog d order s) → True →
      step prog s a = some s' → ∃ order, Ordered prog d order s' := by
    rintro s a s' ⟨order, inv⟩ _ stepped
    exact inv.effect (step_effect stepped)
  obtain ⟨order, inv⟩ := run_invariant_along kept (along_of_mem _ fun _ _ _ => trivial) ran
    ⟨[], Ordered.initial d⟩
  exact ⟨order, inv.serial, inv.distinct, inv.finished⟩

end Tracium.Exclusive
