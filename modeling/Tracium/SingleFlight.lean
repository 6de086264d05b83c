import Mathlib.Logic.Function.Basic
import Tracium.Steps

/-! Single flight: at most one party at a time works on a key, and the others wait for its
result. The worker holds the key's slot; it writes the result, says whether it was
canceled, gives the slot back and only then publishes. -/
namespace SingleFlight

variable {κ R : Type} [DecidableEq κ]

/-- Where a party is; from `written` on it names the result it settled on. -/
inductive Place (R : Type)
  | entering
  | outside
  | waiting (leader : Nat)
  | leading
  | written (result : R)
  | flagged (result : R)
  | removed (result : R)
  | returned (result : R)

structure Party (κ R : Type) where
  key : κ
  canceled : Bool
  place : Place R

/-- The shared record of one flight, named by its leader. -/
structure Call (R : Type) where
  result : Option R
  canceled : Bool
  closed : Bool

structure State (κ R : Type) where
  inflight : κ → Option Nat
  calls : Nat → Option (Call R)
  parties : Nat → Option (Party κ R)

def start : State κ R := ⟨fun _ => none, fun _ => none, fun _ => none⟩

namespace State

def set (s : State κ R) (g : Nat) (p : Party κ R) : State κ R :=
  { s with parties := Function.update s.parties g (some p) }

def goto (s : State κ R) (g : Nat) (p : Party κ R) (place : Place R) : State κ R :=
  s.set g { p with place := place }

def updateCall (s : State κ R) (g : Nat) (f : Call R → Call R) : State κ R :=
  { s with calls := Function.update s.calls g ((s.calls g).map f) }

def lead (s : State κ R) (g : Nat) (k : κ) : State κ R :=
  { s with
    inflight := Function.update s.inflight k (some g)
    calls := Function.update s.calls g (some ⟨none, false, false⟩) }

def free (s : State κ R) (k : κ) : State κ R :=
  { s with inflight := Function.update s.inflight k none }

end State

/-- What one party may do next, and where it is then. -/
inductive Move (s : State κ R) (g : Nat) (p : Party κ R) : Place R → State κ R → Prop
  | stay : p.place = .outside ∨ p.place = .leading → Move s g p p.place (s.goto g p p.place)
  | enter : p.place = .entering → Move s g p .outside (s.goto g p .outside)
  | decide (r : R) : p.place = .entering ∨ p.place = .outside →
      Move s g p (.returned r) (s.goto g p (.returned r))
  | join (leader : Nat) : p.place = .outside → s.inflight p.key = some leader →
      Move s g p (.waiting leader) (s.goto g p (.waiting leader))
  | lead : p.place = .outside → s.inflight p.key = none →
      Move s g p .leading ((s.lead g p.key).goto g p .leading)
  | write (r : R) : p.place = .leading → Move s g p (.written r)
      ((s.updateCall g fun call => { call with result := some r }).goto g p (.written r))
  | flag (r : R) : p.place = .written r → Move s g p (.flagged r)
      ((s.updateCall g fun call => { call with canceled := p.canceled }).goto g p (.flagged r))
  | remove (r : R) : p.place = .flagged r →
      Move s g p (.removed r) ((s.free p.key).goto g p (.removed r))
  | close (r : R) : p.place = .removed r → Move s g p (.returned r)
      ((s.updateCall g fun call => { call with closed := true }).goto g p (.returned r))
  | take (leader : Nat) (call : Call R) (r : R) : p.place = .waiting leader →
      s.calls leader = some call → call.closed = true → call.canceled = false →
      call.result = some r → Move s g p (.returned r) (s.goto g p (.returned r))
  | retry (leader : Nat) (call : Call R) : p.place = .waiting leader →
      s.calls leader = some call → call.closed = true → call.canceled = true →
      Move s g p .entering (s.goto g p .entering)
  | giveUp (leader : Nat) (r : R) : p.place = .waiting leader → p.canceled = true →
      Move s g p (.returned r) (s.goto g p (.returned r))

inductive Step (s : State κ R) : State κ R → Prop
  | idle : Step s s
  | start (g : Nat) (k : κ) : s.parties g = none → Step s (s.set g ⟨k, false, .entering⟩)
  | cancel (g : Nat) (p : Party κ R) : s.parties g = some p → Step s (s.set g { p with canceled := true })
  | move (g : Nat) (p : Party κ R) {place : Place R} {s' : State κ R} :
      s.parties g = some p → Move s g p place s' → Step s s'

/-- The party holds its key's slot. -/
def Place.holds : Place R → Bool
  | .leading | .written _ | .flagged _ => true
  | _ => false

/-- The flight is over for its leader. -/
def Place.over : Place R → Bool
  | .removed _ | .returned _ => true
  | _ => false

/-- What a party's own record holds at each place. A party that returns without having led
has none. -/
def Owns (p : Party κ R) (call : Option (Call R)) : Prop :=
  match p.place with
  | .entering | .outside | .waiting _ => call = none
  | .leading => call = some ⟨none, false, false⟩
  | .written r => call = some ⟨some r, false, false⟩
  | .flagged r | .removed r => ∃ canceled, call = some ⟨some r, canceled, false⟩ ∧
      (canceled = true → p.canceled = true)
  | .returned r => call = none ∨ ∃ canceled, call = some ⟨some r, canceled, true⟩ ∧
      (canceled = true → p.canceled = true)

structure Coherent (s : State κ R) : Prop where
  own : ∀ g p, s.parties g = some p → Owns p (s.calls g)
  unborn : ∀ g, s.parties g = none → s.calls g = none
  slot : ∀ k g, s.inflight k = some g ↔ ∃ p, s.parties g = some p ∧ p.key = k ∧ p.place.holds = true
  waits : ∀ g p leader, s.parties g = some p → p.place = .waiting leader →
    ∃ y call, s.parties leader = some y ∧ y.key = p.key ∧ s.calls leader = some call

variable {s s' : State κ R} {g : Nat} {p p' : Party κ R} {place : Place R}

/-- A party takes the free slot of its key, gives it back, or leaves all slots alone. -/
inductive SlotMove (s s' : State κ R) (g : Nat) (p p' : Party κ R) : Prop
  | same : s'.inflight = s.inflight → p'.place.holds = p.place.holds → SlotMove s s' g p p'
  | taken : s.inflight p.key = none → s'.inflight = Function.update s.inflight p.key (some g) →
      p.place.holds = false → p'.place.holds = true → SlotMove s s' g p p'
  | freed : s'.inflight = Function.update s.inflight p.key none → p.place.holds = true →
      p'.place.holds = false → SlotMove s s' g p p'

/-- What one party's change must keep up. -/
structure Change (s s' : State κ R) (g : Nat) (p p' : Party κ R) : Prop where
  parties : s'.parties = Function.update s.parties g (some p')
  key : p'.key = p.key
  others : ∀ h, h ≠ g → s'.calls h = s.calls h
  kept : ∀ call, s.calls g = some call → ∃ call', s'.calls g = some call'
  slot : SlotMove s s' g p p'
  own : Owns p' (s'.calls g)
  waits : ∀ leader, p'.place = .waiting leader →
    ∃ y call, s.parties leader = some y ∧ y.key = p.key ∧ s.calls leader = some call

omit [DecidableEq κ] in
/-- The holder of a slot has an open record. -/
theorem Owns.record {call : Option (Call R)} (own : Owns p call) (holds : p.place.holds = true) :
    ∃ c, call = some c ∧ c.closed = false := by
  rw [Owns] at own
  cases place : p.place with
  | leading =>
    rw [place] at own
    exact ⟨_, own, rfl⟩
  | written r =>
    rw [place] at own
    exact ⟨_, own, rfl⟩
  | flagged r =>
    rw [place] at own
    obtain ⟨canceled, known, _⟩ := own
    exact ⟨_, known, rfl⟩
  | entering | outside | waiting _ | removed _ | returned _ =>
    rw [place] at holds
    cases holds

omit [DecidableEq κ] in
/-- A closed record is that of a party that has returned what the record holds. -/
theorem Owns.closed {c : Call R} (own : Owns p (some c)) (closed : c.closed = true) :
    ∃ r, p.place = .returned r ∧ c.result = some r ∧ (c.canceled = true → p.canceled = true) := by
  rw [Owns] at own
  cases place : p.place with
  | entering | outside | waiting _ =>
    rw [place] at own
    cases own
  | leading | written _ =>
    rw [place] at own
    cases own
    cases closed
  | flagged r | removed r =>
    rw [place] at own
    obtain ⟨canceled, known, _⟩ := own
    cases known
    cases closed
  | returned r =>
    rw [place] at own
    rcases own with none | ⟨canceled, known, why⟩
    · cases none
    · cases known
      exact ⟨r, rfl, rfl, why⟩

omit [DecidableEq κ] in
theorem Coherent.holds_iff (coherent : Coherent s) (here : s.parties g = some p) (k : κ) :
    s.inflight k = some g ↔ p.key = k ∧ p.place.holds = true := by
  rw [coherent.slot k g]
  constructor
  · rintro ⟨q, there, key, holds⟩
    obtain rfl := Option.some.inj (here.symm.trans there)
    exact ⟨key, holds⟩
  · rintro ⟨key, holds⟩
    exact ⟨p, here, key, holds⟩

/-- The slots of the other parties are as they were. -/
theorem Change.slot_other (change : Change s s' g p p') (coherent : Coherent s)
    (here : s.parties g = some p) {h : Nat} (other : h ≠ g) (k : κ) :
    s'.inflight k = some h ↔ s.inflight k = some h := by
  rcases change.slot with ⟨inflight, _⟩ | ⟨open_, inflight, _, _⟩ | ⟨inflight, holds, _⟩
  · rw [inflight]
  · rw [inflight]
    by_cases same : k = p.key
    · subst same
      simp [open_, Ne.symm other]
    · rw [Function.update_of_ne same]
  · rw [inflight]
    by_cases same : k = p.key
    · subst same
      have mine : s.inflight p.key = some g := (coherent.holds_iff here _).mpr ⟨rfl, holds⟩
      simp [mine, Ne.symm other]
    · rw [Function.update_of_ne same]

theorem Change.slot_own (change : Change s s' g p p') (coherent : Coherent s)
    (here : s.parties g = some p) (k : κ) :
    s'.inflight k = some g ↔ p.key = k ∧ p'.place.holds = true := by
  have before := coherent.holds_iff here k
  rcases change.slot with ⟨inflight, holds⟩ | ⟨_, inflight, free, holds⟩ | ⟨inflight, _, free⟩
  · rw [inflight, holds]
    exact before
  · rw [inflight]
    by_cases same : k = p.key
    · subst same
      simp [holds]
    · rw [Function.update_of_ne same, before]
      simp [free, Ne.symm same]
  · rw [inflight]
    by_cases same : k = p.key
    · subst same
      simp [free]
    · rw [Function.update_of_ne same, before]
      simp [free, Ne.symm same]

/-- The obligations of a change are about the party that made it. -/
theorem Coherent.change (coherent : Coherent s) (here : s.parties g = some p)
    (change : Change s s' g p p') : Coherent s' := by
  have mine : s'.parties g = some p' := by rw [change.parties, Function.update_self]
  have other : ∀ h, h ≠ g → s'.parties h = s.parties h := by
    intro h different
    rw [change.parties, Function.update_of_ne different]
  refine ⟨?_, ?_, ?_, ?_⟩
  · intro h q there
    by_cases same : h = g
    · subst same
      obtain rfl := Option.some.inj (mine.symm.trans there)
      exact change.own
    · rw [change.others h same]
      exact coherent.own h q (by rw [← other h same, there])
  · intro h absent
    have different : h ≠ g := by
      rintro rfl
      rw [mine] at absent
      cases absent
    rw [change.others h different]
    exact coherent.unborn h (by rw [← other h different, absent])
  · intro k h
    by_cases same : h = g
    · subst same
      rw [change.slot_own coherent here k, mine]
      simp [change.key]
    · rw [change.slot_other coherent here same k, coherent.slot k h, other h same]
  · -- a waiter's leader is still there, and so is its record
    have kept : ∀ leader y call, s.parties leader = some y → s.calls leader = some call →
        ∃ y' call', s'.parties leader = some y' ∧ y'.key = y.key ∧ s'.calls leader = some call' := by
      intro leader y call there known
      by_cases same : leader = g
      · subst same
        obtain rfl := Option.some.inj (here.symm.trans there)
        obtain ⟨call', known'⟩ := change.kept call known
        exact ⟨p', call', mine, change.key, known'⟩
      · exact ⟨y, call, by rw [other leader same, there], rfl, by rw [change.others leader same, known]⟩
    intro h q leader there waiting
    by_cases same : h = g
    · subst same
      obtain rfl := Option.some.inj (mine.symm.trans there)
      obtain ⟨y, call, started, key, known⟩ := change.waits leader waiting
      obtain ⟨y', call', started', key', known'⟩ := kept leader y call started known
      exact ⟨y', call', started', by rw [key', key, change.key], known'⟩
    · rw [other h same] at there
      obtain ⟨y, call, started, key, known⟩ := coherent.waits h q leader there waiting
      obtain ⟨y', call', started', key', known'⟩ := kept leader y call started known
      exact ⟨y', call', started', by rw [key', key], known'⟩

/-- A move that touches no slot and no record but the party's place. -/
theorem Coherent.goto (coherent : Coherent s) (here : s.parties g = some p)
    (holds : place.holds = p.place.holds) (own : Owns { p with place := place } (s.calls g))
    (waits : ∀ leader, place = .waiting leader →
      ∃ y call, s.parties leader = some y ∧ y.key = p.key ∧ s.calls leader = some call) :
    Coherent (s.goto g p place) :=
  coherent.change here ⟨rfl, rfl, fun _ _ => rfl, fun call known => ⟨call, known⟩, .same rfl holds, own, waits⟩

/-- A party that has no record and waits for nobody. -/
theorem Coherent.goto_free (coherent : Coherent s) (here : s.parties g = some p)
    (low : p.place.holds = false) (none : s.calls g = none)
    (next : place = .entering ∨ place = .outside ∨ ∃ r, place = .returned r) :
    Coherent (s.goto g p place) := by
  have same : place.holds = p.place.holds := by
    rcases next with rfl | rfl | ⟨r, rfl⟩ <;> exact low.symm
  have own : Owns { p with place := place } (s.calls g) := by
    rcases next with rfl | rfl | ⟨r, rfl⟩
    · exact none
    · exact none
    · exact .inl none
  apply coherent.goto here same own
  rintro leader rfl
  simp at next

/-- A party updates its own record. -/
theorem Coherent.updateCall (coherent : Coherent s) (here : s.parties g = some p)
    (f : Call R → Call R) (holds : place.holds = p.place.holds)
    (own : Owns { p with place := place } ((s.calls g).map f)) (waits : ∀ leader, place ≠ .waiting leader) :
    Coherent ((s.updateCall g f).goto g p place) := by
  have mine : ((s.updateCall g f).goto g p place).calls g = (s.calls g).map f := Function.update_self ..
  refine coherent.change here ⟨rfl, rfl, ?_, ?_, .same rfl holds, ?_, ?_⟩
  · intro h other
    exact Function.update_of_ne other ..
  · intro call known
    exact ⟨f call, by rw [mine, known]; rfl⟩
  · rw [mine]
    exact own
  · intro leader waiting
    exact absurd waiting (waits leader)

theorem Coherent.move (coherent : Coherent s) (here : s.parties g = some p) (move : Move s g p place s') :
    Coherent s' := by
  have own := coherent.own g p here
  rw [Owns] at own
  cases move with
  | stay place =>
    apply coherent.goto here rfl (coherent.own g p here)
    intro leader waiting
    rcases place with place | place
    · rw [place] at waiting
      cases waiting
    · rw [place] at waiting
      cases waiting
  | enter place =>
    rw [place] at own
    exact coherent.goto_free here (by rw [place]; rfl) own (.inr (.inl rfl))
  | decide r place =>
    rcases place with place | place
    · rw [place] at own
      exact coherent.goto_free here (by rw [place]; rfl) own (.inr (.inr ⟨r, rfl⟩))
    · rw [place] at own
      exact coherent.goto_free here (by rw [place]; rfl) own (.inr (.inr ⟨r, rfl⟩))
  | join leader place slot =>
    rw [place] at own
    apply coherent.goto here (by rw [place]; rfl)
    · exact own
    · rintro _ ⟨rfl⟩
      obtain ⟨y, there, key, holds⟩ := (coherent.slot p.key leader).mp slot
      obtain ⟨call, known, _⟩ := (coherent.own leader y there).record holds
      exact ⟨y, call, there, key, known⟩
  | lead place slot =>
    rw [place] at own
    have mine : ((s.lead g p.key).goto g p .leading).calls g = some ⟨none, false, false⟩ :=
      Function.update_self ..
    refine coherent.change here ⟨rfl, rfl, ?_, ?_, .taken slot rfl (by rw [place]; rfl) rfl, mine, ?_⟩
    · intro h other
      exact Function.update_of_ne other ..
    · intro call known
      exact ⟨_, mine⟩
    · rintro leader ⟨⟩
  | write r place =>
    rw [place] at own
    apply coherent.updateCall here _ (by rw [place]; rfl)
    · rw [own]
      rfl
    · simp
  | flag r place =>
    rw [place] at own
    apply coherent.updateCall here _ (by rw [place]; rfl)
    · rw [own]
      exact ⟨p.canceled, rfl, fun canceled => canceled⟩
    · simp
  | remove r place =>
    rw [place] at own
    refine coherent.change here ⟨rfl, rfl, fun _ _ => rfl, fun call known => ⟨call, known⟩,
      .freed rfl (by rw [place]; rfl) rfl, own, ?_⟩
    rintro leader ⟨⟩
  | close r place =>
    rw [place] at own
    obtain ⟨canceled, known, why⟩ := own
    apply coherent.updateCall here _ (by rw [place]; rfl)
    · rw [known]
      exact .inr ⟨canceled, rfl, why⟩
    · simp
  | take leader call r place _ _ _ _ =>
    rw [place] at own
    exact coherent.goto_free here (by rw [place]; rfl) own (.inr (.inr ⟨r, rfl⟩))
  | retry leader call place _ _ _ =>
    rw [place] at own
    exact coherent.goto_free here (by rw [place]; rfl) own (.inl rfl)
  | giveUp leader r place _ =>
    rw [place] at own
    exact coherent.goto_free here (by rw [place]; rfl) own (.inr (.inr ⟨r, rfl⟩))

omit [DecidableEq κ] in
theorem Coherent.start (coherent : Coherent s) (absent : s.parties g = none) (k : κ) :
    Coherent (s.set g ⟨k, false, .entering⟩) := by
  have mine : (s.set g ⟨k, false, .entering⟩).parties g = some ⟨k, false, .entering⟩ := Function.update_self ..
  have other : ∀ h, h ≠ g → (s.set g ⟨k, false, .entering⟩).parties h = s.parties h :=
    fun h different => Function.update_of_ne different ..
  refine ⟨?_, ?_, ?_, ?_⟩
  · intro h q there
    by_cases same : h = g
    · subst same
      obtain rfl := Option.some.inj (mine.symm.trans there)
      exact coherent.unborn h absent
    · exact coherent.own h q (by rw [← other h same, there])
  · intro h none
    have different : h ≠ g := by
      rintro rfl
      rw [mine] at none
      cases none
    exact coherent.unborn h (by rw [← other h different, none])
  · intro k' h
    by_cases same : h = g
    · subst same
      have before := coherent.slot k' h
      rw [mine]
      rw [absent] at before
      simp only [reduceCtorEq, false_and, exists_false, iff_false] at before
      simp [State.set, before, Place.holds]
    · rw [other h same]
      exact coherent.slot k' h
  · intro h q leader there waiting
    by_cases same : h = g
    · subst same
      obtain rfl := Option.some.inj (mine.symm.trans there)
      cases waiting
    · rw [other h same] at there
      obtain ⟨y, call, started, key, known⟩ := coherent.waits h q leader there waiting
      have different : leader ≠ g := by
        rintro rfl
        rw [absent] at started
        cases started
      exact ⟨y, call, by rw [other leader different, started], key, known⟩

omit [DecidableEq κ] in
theorem Owns.cancel {call : Option (Call R)} (own : Owns p call) : Owns { p with canceled := true } call := by
  rw [Owns] at own ⊢
  cases place : p.place with
  | entering | outside | waiting _ | leading | written _ =>
    rw [place] at own
    exact own
  | flagged r | removed r =>
    rw [place] at own
    obtain ⟨canceled, known, _⟩ := own
    exact ⟨canceled, known, fun _ => rfl⟩
  | returned r =>
    rw [place] at own
    rcases own with none | ⟨canceled, known, _⟩
    · exact .inl none
    · exact .inr ⟨canceled, known, fun _ => rfl⟩

theorem Coherent.step (coherent : Coherent s) (step : Step s s') : Coherent s' := by
  cases step with
  | idle => exact coherent
  | start g k absent => exact coherent.start absent k
  | cancel g p here =>
    have change : Change s (s.set g { p with canceled := true }) g p { p with canceled := true } :=
      ⟨rfl, rfl, fun _ _ => rfl, fun call known => ⟨call, known⟩, .same rfl rfl,
        (coherent.own g p here).cancel, fun leader waiting => coherent.waits g p leader here waiting⟩
    exact coherent.change here change
  | move g p here move => exact coherent.move here move

omit [DecidableEq κ] in
theorem coherent_start : Coherent (start : State κ R) := by
  refine ⟨?_, ?_, ?_, ?_⟩
  · rintro g p ⟨⟩
  · intro g _
    rfl
  · intro k g
    simp [SingleFlight.start]
  · rintro g p leader ⟨⟩

omit [DecidableEq κ] in
/-- Two holders for one key are one party. -/
theorem Coherent.holder_unique (coherent : Coherent s) {h : Nat} {q : Party κ R}
    (here : s.parties g = some p) (there : s.parties h = some q) (holds : p.place.holds = true)
    (holds' : q.place.holds = true) (same : q.key = p.key) : h = g := by
  have first := (coherent.holds_iff here p.key).mpr ⟨rfl, holds⟩
  have second := (coherent.holds_iff there p.key).mpr ⟨same, holds'⟩
  rw [first] at second
  exact (Option.some.inj second).symm

omit [DecidableEq κ] in
/-- The result is written before the record is closed, and it is what the leader returns. -/
theorem Coherent.published (coherent : Coherent s) {call : Call R} (known : s.calls g = some call)
    (closed : call.closed = true) :
    ∃ p r, s.parties g = some p ∧ p.place = .returned r ∧ call.result = some r ∧
      (call.canceled = true → p.canceled = true) := by
  cases here : s.parties g with
  | none =>
    rw [coherent.unborn g here] at known
    cases known
  | some p =>
    have own := coherent.own g p here
    rw [known] at own
    obtain ⟨r, returned, result, why⟩ := own.closed closed
    exact ⟨p, r, rfl, returned, result, why⟩

theorem Move.parties (move : Move s g p place s') :
    s'.parties = Function.update s.parties g (some { p with place := place }) := by
  cases move <;> rfl

theorem Move.others (move : Move s g p place s') {h : Nat} (other : h ≠ g) : s'.calls h = s.calls h := by
  cases move with
  | stay | enter | decide | join | remove | take | retry | giveUp => rfl
  | lead | write | flag | close => exact Function.update_of_ne other ..

theorem Move.not_returned (move : Move s g p place s') (r : R) : p.place ≠ .returned r := by
  intro returned
  cases move with
  | stay place | decide _ place =>
    rcases place with place | place
    · rw [returned] at place
      cases place
    · rw [returned] at place
      cases place
  | enter place | join _ place _ | lead place _ | write _ place | flag _ place | remove _ place
  | close _ place | take _ _ _ place _ _ _ _ | retry _ _ place _ _ _ | giveUp _ _ place _ =>
    rw [returned] at place
    cases place

/-- A party of the new state is one that a step started, canceled or moved, or an old one. -/
theorem Step.party (step : Step s s') (here : s.parties g = some p) :
    s'.parties g = some p ∨ s'.parties g = some { p with canceled := true } ∨
      ∃ place, s'.parties g = some { p with place := place } ∧ Move s g p place s' := by
  cases step with
  | idle => exact .inl here
  | start h k absent =>
    have other : g ≠ h := by
      rintro rfl
      rw [here] at absent
      cases absent
    exact .inl ((Function.update_of_ne other ..).trans here)
  | cancel h q there =>
    by_cases same : g = h
    · subst same
      obtain rfl := Option.some.inj (here.symm.trans there)
      exact .inr (.inl (Function.update_self ..))
    · exact .inl ((Function.update_of_ne same ..).trans here)
  | move h q there move =>
    have parties := move.parties
    by_cases same : g = h
    · subst same
      obtain rfl := Option.some.inj (here.symm.trans there)
      exact .inr (.inr ⟨_, by rw [parties, Function.update_self], move⟩)
    · exact .inl (by rw [parties, Function.update_of_ne same, here])

/-- Only the leader writes a record, and not after it has closed it. -/
theorem Coherent.closed_kept (coherent : Coherent s) (step : Step s s') {leader : Nat} {call : Call R}
    (known : s.calls leader = some call) (closed : call.closed = true) :
    s'.calls leader = some call := by
  cases step with
  | idle | start _ _ _ | cancel _ _ _ => exact known
  | move g p here move =>
    by_cases same : leader = g
    · subst same
      obtain ⟨q, r, there, returned, _⟩ := coherent.published known closed
      obtain rfl := Option.some.inj (here.symm.trans there)
      exact absurd returned (move.not_returned r)
    · rw [move.others same, known]

/-- A waiter goes on with the result of a closed flight, again when its leader was
canceled, or gives up when it is canceled itself. -/
theorem Step.waiter (step : Step s s') {leader : Nat} (here : s.parties g = some p)
    (waiting : p.place = .waiting leader) (there : s'.parties g = some p') :
    p'.place = .waiting leader ∨ p.canceled = true ∨
      ∃ call, s.calls leader = some call ∧ call.closed = true ∧
        ((call.canceled = false ∧ ∃ r, call.result = some r ∧ p'.place = .returned r) ∨
          (call.canceled = true ∧ p'.place = .entering)) := by
  rcases step.party here with old | canceled | ⟨place, moved, move⟩
  · obtain rfl := Option.some.inj (old.symm.trans there)
    exact .inl waiting
  · obtain rfl := Option.some.inj (canceled.symm.trans there)
    exact .inl waiting
  · obtain rfl := Option.some.inj (moved.symm.trans there)
    cases move with
    | stay _ => exact .inl waiting
    | take leader' call r place known closed live result =>
      cases waiting.symm.trans place
      exact .inr (.inr ⟨call, known, closed, .inl ⟨live, r, result, rfl⟩⟩)
    | retry leader' call place known closed canceled =>
      cases waiting.symm.trans place
      exact .inr (.inr ⟨call, known, closed, .inr ⟨canceled, rfl⟩⟩)
    | giveUp _ _ _ canceled => exact .inr (.inl canceled)
    | decide _ place =>
      rcases place with place | place
      · cases waiting.symm.trans place
      · cases waiting.symm.trans place
    | enter place | join _ place _ | lead place _ | write _ place | flag _ place | remove _ place
    | close _ place => cases waiting.symm.trans place

/-- Once a party holds a slot it holds it until its flight is over. -/
theorem Step.holds_or_over (step : Step s s') (here : s.parties g = some p)
    (led : p.place.holds = true ∨ p.place.over = true) :
    ∃ p', s'.parties g = some p' ∧ p'.key = p.key ∧
      (p'.place.holds = true ∨ p'.place.over = true) ∧ (p.place.over = true → p'.place.over = true) := by
  rcases step.party here with old | canceled | ⟨place, moved, move⟩
  · exact ⟨p, old, rfl, led, id⟩
  · exact ⟨_, canceled, rfl, led, id⟩
  · refine ⟨_, moved, rfl, ?_⟩
    cases move with
    | stay _ => exact ⟨led, id⟩
    | write r place | flag r place => simp [place, Place.holds, Place.over]
    | remove r place | close r place => simp [Place.over]
    | decide _ place =>
      rcases place with place | place
      · simp [place, Place.holds, Place.over] at led
      · simp [place, Place.holds, Place.over] at led
    | enter place | join _ place _ | lead place _ | take _ _ _ place _ _ _ _
    | retry _ _ place _ _ _ | giveUp _ _ place _ => simp [place, Place.holds, Place.over] at led

end SingleFlight
