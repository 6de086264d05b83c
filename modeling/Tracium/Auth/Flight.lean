import Tracium.Auth.Freshness
import Tracium.SingleFlight

/-! verify is single flight per cache key: every piece of the source is a move of the
protocol, whatever the cache, the limiter and the API do. -/
namespace Tracium.Auth

open Go

/-- Where a piece of verify stands in the protocol. -/
def Pc.place : Pc → SingleFlight.Place Outcome
  | .enter => .entering
  | .lookup | .join => .outside
  | .wait leader => .waiting leader
  | .mark o => .written o
  | .unregister o => .flagged o
  | .close o => .removed o
  | .done o => .returned o
  | _ => .leading

def VerifyCall.shared (call : VerifyCall) : SingleFlight.Call Outcome :=
  ⟨call.result, call.canceled, call.closed⟩

variable (cacheKeyFor : Str → Str)

def Goroutine.party (x : Goroutine) : SingleFlight.Party Str Outcome :=
  ⟨cacheKeyFor x.token, x.canceled, x.pc.place⟩

/-- The part of the state the protocol is about. -/
def State.flight (s : State) : SingleFlight.State Str Outcome where
  inflight := s.inflight
  calls := fun g => (s.calls g).map VerifyCall.shared
  parties := fun g => (s.goroutines g).map (Goroutine.party cacheKeyFor)

variable {cfg : Config} {cacheKeyFor : Str → Str} {s s' base : State} {g : Nat} {x : Goroutine} {pc : Pc}

theorem Pc.holds_place (pc : Pc) : pc.place.holds = pc.leads := by
  cases pc <;> rfl

theorem Pc.returned_of_place {o : Outcome} (returned : pc.place = .returned o) : pc = .done o := by
  cases pc <;> cases returned
  rfl

theorem Pc.enter_of_place (entering : pc.place = .entering) : pc = .enter := by
  cases pc <;> cases entering
  rfl

theorem Pc.wait_of_place {leader : Nat} (waiting : pc.place = .waiting leader) : pc = .wait leader := by
  cases pc <;> cases waiting
  rfl

theorem map_update {α β : Type} (m : Nat → Option α) (f : α → β) (g : Nat) (a : Option α) :
    (fun h => (Function.update m g a h).map f) = Function.update (fun h => (m h).map f) g (a.map f) := by
  funext h
  by_cases same : h = g
  · subst same
    simp
  · simp [same]

theorem flight_set (s : State) (g : Nat) (x : Goroutine) :
    (s.set g x).flight cacheKeyFor = (s.flight cacheKeyFor).set g (x.party cacheKeyFor) := by
  simp only [State.flight, State.set, map_update, SingleFlight.State.set]
  rfl

theorem flight_goto (s : State) (g : Nat) (x : Goroutine) (pc : Pc) :
    (s.goto g x pc).flight cacheKeyFor = (s.flight cacheKeyFor).goto g (x.party cacheKeyFor) pc.place := by
  rw [State.goto, flight_set]
  rfl

theorem flight_updateCall (s : State) (g : Nat) (f : VerifyCall → VerifyCall)
    (f' : SingleFlight.Call Outcome → SingleFlight.Call Outcome)
    (same : ∀ call, (f call).shared = f' call.shared) :
    (s.updateCall g f).flight cacheKeyFor = (s.flight cacheKeyFor).updateCall g f' := by
  simp only [State.flight, State.updateCall, map_update, SingleFlight.State.updateCall, Option.map_map]
  have both : VerifyCall.shared ∘ f = f' ∘ VerifyCall.shared := funext same
  rw [both]

theorem party_of (here : s.goroutines g = some x) :
    (s.flight cacheKeyFor).parties g = some (x.party cacheKeyFor) := by
  simp [State.flight, here]

/-- The goroutine moves within one place of the protocol. -/
theorem stays (here : s.goroutines g = some x) (same : base.flight cacheKeyFor = s.flight cacheKeyFor)
    (place : pc.place = x.pc.place) (inside : x.pc.place = .outside ∨ x.pc.place = .leading) :
    SingleFlight.Step (s.flight cacheKeyFor) ((base.goto g x pc).flight cacheKeyFor) := by
  rw [flight_goto, same, place]
  exact .move g _ (party_of here) (.stay inside)

theorem decides (here : s.goroutines g = some x) (same : base.flight cacheKeyFor = s.flight cacheKeyFor)
    (outside : x.pc.place = .entering ∨ x.pc.place = .outside) (o : Outcome) :
    SingleFlight.Step (s.flight cacheKeyFor) ((base.goto g x (.done o)).flight cacheKeyFor) := by
  rw [flight_goto, same]
  exact .move g _ (party_of here) (.decide o outside)

/-- A lookup leaves the protocol alone. -/
theorem cachedResult_flight {hit : Outcome → Pc} {miss : Pc} :
    ∃ (base : State) (pc : Pc), s.cachedResult cfg g x (cacheKeyFor x.token) hit miss = base.goto g x pc ∧
      base.flight cacheKeyFor = s.flight cacheKeyFor ∧ (pc = miss ∨ ∃ o, pc = hit o) := by
  rw [State.cachedResult]
  cases lookup cfg s.now s.cache (cacheKeyFor x.token) with
  | mk found cache =>
    cases found with
    | none => exact ⟨s, miss, rfl, rfl, .inl rfl⟩
    | some entry =>
      by_cases ok : entry.ok
      · simp only [ok, ↓reduceIte]
        exact ⟨_, _, rfl, rfl, .inr ⟨_, rfl⟩⟩
      · simp only [ok, Bool.false_eq_true, ↓reduceIte]
        exact ⟨_, _, rfl, rfl, .inr ⟨_, rfl⟩⟩

theorem joinInflight_flight (here : s.goroutines g = some x) (outside : x.pc.place = .outside) :
    SingleFlight.Step (s.flight cacheKeyFor)
      ((s.joinInflight g x (cacheKeyFor x.token)).flight cacheKeyFor) := by
  rw [State.joinInflight]
  cases slot : s.inflight (cacheKeyFor x.token) with
  | some leader =>
    simp only
    rw [flight_goto]
    exact .move g _ (party_of here) (.join leader outside slot)
  | none =>
    simp only
    have lead : ((s.setCall g ⟨none, false, false⟩).setInflight (cacheKeyFor x.token) (some g)).flight
        cacheKeyFor = (s.flight cacheKeyFor).lead g (cacheKeyFor x.token) := by
      simp only [State.flight, State.setCall, State.setInflight, map_update, SingleFlight.State.lead]
      rfl
    rw [flight_goto, lead]
    exact .move g _ (party_of here) (.lead outside slot)

theorem wait_flight {leader : Nat} (here : s.goroutines g = some x) (waiting : x.pc = .wait leader)
    (stepped : advance cfg cacheKeyFor s g x = some s') :
    SingleFlight.Step (s.flight cacheKeyFor) (s'.flight cacheKeyFor) := by
  rw [advance, waiting] at stepped
  obtain ⟨call, known, stepped⟩ := Option.bind_eq_some_iff.mp stepped
  have place : x.pc.place = .waiting leader := by rw [waiting]; rfl
  have known' : (s.flight cacheKeyFor).calls leader = some call.shared := by simp [State.flight, known]
  by_cases closed : call.closed
  · rw [if_pos closed] at stepped
    by_cases canceled : call.canceled
    · rw [if_pos canceled] at stepped
      obtain rfl := Option.some.inj stepped
      rw [flight_goto]
      exact .move g _ (party_of here) (.retry leader call.shared place known' closed canceled)
    · rw [if_neg canceled] at stepped
      obtain ⟨o, result, rfl⟩ := Option.map_eq_some_iff.mp stepped
      rw [flight_goto]
      exact .move g _ (party_of here)
        (.take leader call.shared o place known' closed (Bool.eq_false_iff.mpr canceled) result)
  · rw [if_neg closed] at stepped
    cases stepped

/-- A leader's piece that goes on as a leader. -/
theorem leads_on (here : s.goroutines g = some x) (leading : x.pc.place = .leading)
    (stepped : some (base.goto g x pc) = some s') (same : base.flight cacheKeyFor = s.flight cacheKeyFor)
    (place : pc.place = .leading) :
    SingleFlight.Step (s.flight cacheKeyFor) (s'.flight cacheKeyFor) := by
  obtain rfl := Option.some.inj stepped
  exact stays here same (place.trans leading.symm) (.inr leading)

theorem answered_flight {answer : Except Error Str} (here : s.goroutines g = some x)
    (at_ : x.pc = .answered answer) (stepped : advance cfg cacheKeyFor s g x = some s') :
    SingleFlight.Step (s.flight cacheKeyFor) (s'.flight cacheKeyFor) := by
  have leading : x.pc.place = .leading := by rw [at_]; rfl
  simp only [advance, at_] at stepped
  by_cases canceled : x.canceled
  · rw [if_pos canceled] at stepped
    exact leads_on here leading stepped rfl rfl
  · rw [if_neg canceled] at stepped
    cases answer with
    | ok workspace => exact leads_on here leading stepped rfl rfl
    | error err =>
      cases err with
      | canceled => exact leads_on here leading stepped rfl rfl
      | unauthenticated => exact leads_on here leading stepped rfl rfl
      | unreachable => exact leads_on here leading stepped rfl rfl

theorem store_flight {entry : CacheEntry} (here : s.goroutines g = some x)
    (at_ : x.pc = .store entry) (stepped : advance cfg cacheKeyFor s g x = some s') :
    SingleFlight.Step (s.flight cacheKeyFor) (s'.flight cacheKeyFor) := by
  have leading : x.pc.place = .leading := by rw [at_]; rfl
  simp only [advance, at_] at stepped
  by_cases ok : entry.ok
  · simp only [ok, ↓reduceIte] at stepped
    split at stepped
    · exact leads_on here leading stepped rfl rfl
    · exact leads_on here leading stepped rfl rfl
  · simp only [ok, Bool.false_eq_true, ↓reduceIte] at stepped
    split at stepped
    · exact leads_on here leading stepped rfl rfl
    · exact leads_on here leading stepped rfl rfl

theorem advance_flight (here : s.goroutines g = some x) (stepped : advance cfg cacheKeyFor s g x = some s') :
    SingleFlight.Step (s.flight cacheKeyFor) (s'.flight cacheKeyFor) := by
  cases at_ : x.pc with
  | enter =>
    have entering : x.pc.place = .entering := by rw [at_]; rfl
    simp only [advance, at_, Option.some.injEq] at stepped
    subst stepped
    by_cases canceled : x.canceled
    · rw [if_pos canceled]
      exact decides here rfl (.inl entering) _
    · rw [if_neg canceled, flight_goto]
      exact .move g _ (party_of here) (.enter entering)
  | lookup =>
    have outside : x.pc.place = .outside := by rw [at_]; rfl
    simp only [advance, at_, Option.some.injEq] at stepped
    subst stepped
    obtain ⟨base, pc, eq, same, rfl | ⟨o, rfl⟩⟩ := cachedResult_flight
    · rw [eq]
      exact stays here same outside.symm (.inl outside)
    · rw [eq]
      exact decides here same (.inr outside) o
  | join =>
    simp only [advance, at_, Option.some.injEq] at stepped
    subst stepped
    exact joinInflight_flight here (by rw [at_]; rfl)
  | wait leader => exact wait_flight here at_ stepped
  | recheck =>
    have leading : x.pc.place = .leading := by rw [at_]; rfl
    simp only [advance, at_] at stepped
    obtain ⟨base, pc, eq, same, rfl | ⟨o, rfl⟩⟩ := cachedResult_flight
    · rw [eq] at stepped
      exact leads_on here leading stepped same rfl
    · rw [eq] at stepped
      exact leads_on here leading stepped same rfl
  | limit =>
    simp only [advance, at_] at stepped
    exact leads_on here (by rw [at_]; rfl) stepped rfl rfl
  | charge now =>
    simp only [advance, at_] at stepped
    apply leads_on here (by rw [at_]; rfl) stepped rfl
    split <;> rfl
  | calling =>
    simp only [advance, at_] at stepped
    cases stepped
  | answered answer => exact answered_flight here at_ stepped
  | fallback onMiss =>
    simp only [advance, at_] at stepped
    split at stepped
    · exact leads_on here (by rw [at_]; rfl) stepped rfl rfl
    · exact leads_on here (by rw [at_]; rfl) stepped rfl rfl
  | store entry => exact store_flight here at_ stepped
  | storeStale stale o =>
    simp only [advance, at_] at stepped
    split at stepped
    · exact leads_on here (by rw [at_]; rfl) stepped rfl rfl
    · exact leads_on here (by rw [at_]; rfl) stepped rfl rfl
  | storeEntry entry o =>
    simp only [advance, at_] at stepped
    exact leads_on here (by rw [at_]; rfl) stepped rfl rfl
  | result o =>
    simp only [advance, at_, Option.some.injEq] at stepped
    subst stepped
    rw [flight_goto, flight_updateCall _ _ _ (fun call => { call with result := some o }) fun _ => rfl]
    exact .move g _ (party_of here) (.write o (by rw [Goroutine.party, at_]; rfl))
  | mark o =>
    simp only [advance, at_, Option.some.injEq] at stepped
    subst stepped
    rw [flight_goto, flight_updateCall _ _ _ (fun call => { call with canceled := x.canceled }) fun _ => rfl]
    exact .move g _ (party_of here) (.flag o (by rw [Goroutine.party, at_]; rfl))
  | unregister o =>
    simp only [advance, at_, Option.some.injEq] at stepped
    subst stepped
    rw [flight_goto]
    exact .move g _ (party_of here) (.remove o (by rw [Goroutine.party, at_]; rfl))
  | close o =>
    simp only [advance, at_, Option.some.injEq] at stepped
    subst stepped
    rw [flight_goto, flight_updateCall _ _ _ (fun call => { call with closed := true }) fun _ => rfl]
    exact .move g _ (party_of here) (.close o (by rw [Goroutine.party, at_]; rfl))
  | done o =>
    simp only [advance, at_] at stepped
    cases stepped

/-- Every action of the model is a step of the protocol. -/
theorem step_flight {action : Action} (stepped : step cfg cacheKeyFor s action = some s') :
    SingleFlight.Step (s.flight cacheKeyFor) (s'.flight cacheKeyFor) := by
  cases action with
  | start g token sender =>
    cases absent : s.goroutines g with
    | some x =>
      simp only [step, absent] at stepped
      cases stepped
    | none =>
      simp only [step, absent, Option.some.injEq] at stepped
      subst stepped
      rw [flight_set]
      exact .start g _ (by simp [State.flight, absent])
  | tick elapsed =>
    obtain rfl := Option.some.inj stepped
    exact .idle
  | cancel g =>
    obtain ⟨x, here, rfl⟩ := Option.map_eq_some_iff.mp stepped
    rw [flight_set]
    exact .cancel g _ (party_of here)
  | giveUp g =>
    obtain ⟨x, here, stepped⟩ := Option.bind_eq_some_iff.mp stepped
    split at stepped
    · next leader waiting =>
      by_cases canceled : x.canceled
      · rw [if_pos canceled] at stepped
        obtain rfl := Option.some.inj stepped
        rw [flight_goto]
        exact .move g _ (party_of here)
          (.giveUp leader _ (by rw [Goroutine.party, waiting]; rfl) canceled)
      · rw [if_neg canceled] at stepped
        cases stepped
    · cases stepped
  | answer g response =>
    obtain ⟨x, here, stepped⟩ := Option.bind_eq_some_iff.mp stepped
    split at stepped
    · next at_ => exact leads_on here (by rw [at_]; rfl) stepped rfl rfl
    · cases stepped
  | advance g =>
    obtain ⟨x, here, stepped⟩ := Option.bind_eq_some_iff.mp stepped
    exact advance_flight here stepped

theorem coherent_step (coherent : SingleFlight.Coherent (s.flight cacheKeyFor)) {action : Action}
    (stepped : step cfg cacheKeyFor s action = some s') :
    SingleFlight.Coherent (s'.flight cacheKeyFor) := coherent.step (step_flight stepped)

theorem coherent_run {now : Int} {actions : List Action}
    (ran : Steps.run (step cfg cacheKeyFor) (newAuth cfg now) actions = some s) :
    SingleFlight.Coherent (s.flight cacheKeyFor) :=
  Steps.run_invariant_along (fun _ _ _ coherent _ stepped => coherent_step coherent stepped)
    (Steps.along_always _ _) ran SingleFlight.coherent_start

theorem closed_run {leader : Nat} {call : VerifyCall} (coherent : SingleFlight.Coherent (s.flight cacheKeyFor))
    {actions : List Action} (ran : Steps.run (step cfg cacheKeyFor) s actions = some s')
    (known : s.calls leader = some call) (closed : call.closed = true) : s'.calls leader = some call := by
  have one : ∀ c : VerifyCall, ∀ s : State, (s.flight cacheKeyFor).calls leader = some c.shared →
      s.calls leader = some c := by
    intro c s found
    obtain ⟨c', known, same⟩ := Option.map_eq_some_iff.mp found
    obtain ⟨result, canceled, closed⟩ := c
    obtain ⟨result', canceled', closed'⟩ := c'
    simp only [VerifyCall.shared, SingleFlight.Call.mk.injEq] at same
    obtain ⟨rfl, rfl, rfl⟩ := same
    exact known
  induction actions generalizing s with
  | nil =>
    obtain rfl := Option.some.inj ran
    exact known
  | cons a rest ih =>
    obtain ⟨middle, first, later⟩ := Steps.run_cons ran
    have known' : (s.flight cacheKeyFor).calls leader = some call.shared := by simp [State.flight, known]
    exact ih (coherent_step coherent first) later
      (one call middle (coherent.closed_kept (step_flight first) known' closed))

/-! The window from a leader's lookup to its store. -/

/-- The goroutine reads the cache for the key as its leader. -/
def LooksUp (cacheKeyFor : Str → Str) (s : State) (k : Str) (g : Nat) (action : Action) : Prop :=
  action = .advance g ∧ ∃ x, s.goroutines g = some x ∧ cacheKeyFor x.token = k ∧
    (x.pc = .recheck ∨ ∃ onMiss, x.pc = .fallback onMiss)

/-- The goroutine writes an entry for the key. -/
def Stores (cacheKeyFor : Str → Str) (s : State) (k : Str) (g : Nat) (action : Action) : Prop :=
  action = .advance g ∧ ∃ x entry o, s.goroutines g = some x ∧ cacheKeyFor x.token = k ∧
    x.pc = .storeEntry entry o

/-- The goroutine has led, for the key; `held` says that it still does. -/
def Led (cacheKeyFor : Str → Str) (s : State) (k : Str) (g : Nat) (held : Bool) : Prop :=
  ∃ x, s.goroutines g = some x ∧ cacheKeyFor x.token = k ∧
    if held then x.pc.place.holds = true else x.pc.place.over = true

theorem Led.next {k : Str} {held : Bool} (led : Led cacheKeyFor s k g held) {action : Action}
    (stepped : step cfg cacheKeyFor s action = some s') :
    (held = true ∧ Led cacheKeyFor s' k g true) ∨ Led cacheKeyFor s' k g false := by
  obtain ⟨x, here, key, place⟩ := led
  have either : (x.party cacheKeyFor).place.holds = true ∨ (x.party cacheKeyFor).place.over = true := by
    cases held
    · exact .inr place
    · exact .inl place
  obtain ⟨p', there, key', place', ended⟩ := (step_flight stepped).holds_or_over (party_of here) either
  obtain ⟨x', here', rfl⟩ := Option.map_eq_some_iff.mp there
  have sameKey : cacheKeyFor x'.token = k := key'.trans key
  cases held with
  | false => exact .inr ⟨x', here', sameKey, ended place⟩
  | true =>
    rcases place' with holds | ended'
    · exact .inl ⟨rfl, x', here', sameKey, holds⟩
    · exact .inr ⟨x', here', sameKey, ended'⟩

theorem Led.over_run {k : Str} (led : Led cacheKeyFor s k g false) {actions : List Action}
    (ran : Steps.run (step cfg cacheKeyFor) s actions = some s') : Led cacheKeyFor s' k g false := by
  induction actions generalizing s with
  | nil => exact Option.some.inj ran ▸ led
  | cons a rest ih =>
    obtain ⟨middle, first, later⟩ := Steps.run_cons ran
    rcases led.next first with ⟨⟨⟩, _⟩ | ended
    exact ih ended later

/-- While one goroutine leads, nobody else stores for its key. -/
theorem Led.alone {k : Str} {held : Bool} (coherent : SingleFlight.Coherent (s.flight cacheKeyFor))
    (led : Led cacheKeyFor s k g held) {actions : List Action}
    (ran : Steps.run (step cfg cacheKeyFor) s actions = some s') (still : Led cacheKeyFor s' k g true) :
    Steps.Along (step cfg cacheKeyFor) (fun s a => ∀ h, Stores cacheKeyFor s k h a → h = g) s actions := by
  have exclusive : ∀ s : State, Led cacheKeyFor s k g true → ¬ Led cacheKeyFor s k g false := by
    rintro s ⟨x, here, _, holds⟩ ⟨y, there, _, ended⟩
    obtain rfl := Option.some.inj (here.symm.trans there)
    simp only [↓reduceIte, Bool.false_eq_true] at holds ended
    cases at_ : x.pc.place <;> simp_all [SingleFlight.Place.holds, SingleFlight.Place.over]
  induction actions generalizing s held with
  | nil => trivial
  | cons a rest ih =>
    have holding : Led cacheKeyFor s k g true := by
      cases held with
      | true => exact led
      | false => exact absurd (led.over_run ran) (exclusive s' still)
    refine ⟨?_, ?_⟩
    · rintro h ⟨-, y, entry, o, there, key', storing⟩
      obtain ⟨x, here, key, holds⟩ := holding
      have holds' : (y.party cacheKeyFor).place.holds = true := by
        rw [Goroutine.party, storing]
        rfl
      exact coherent.holder_unique (party_of here) (party_of there) holds holds' (key'.trans key.symm)
    · intro middle first
      obtain ⟨middle', first', later⟩ := Steps.run_cons ran
      obtain rfl := Option.some.inj (first.symm.trans first')
      rcases holding.next first with ⟨_, led'⟩ | led'
      · exact ih (coherent_step coherent first) led' later
      · exact ih (coherent_step coherent first) led' later

theorem published_of_coherent (coherent : SingleFlight.Coherent (s.flight cacheKeyFor)) {call : VerifyCall}
    (known : s.calls g = some call) (closed : call.closed = true) :
    ∃ x o, s.goroutines g = some x ∧ x.pc = .done o ∧ call.result = some o ∧
      (call.canceled = true → x.canceled = true) := by
  have known' : (s.flight cacheKeyFor).calls g = some call.shared := by simp [State.flight, known]
  obtain ⟨p, o, here, returned, result, why⟩ := coherent.published known' closed
  obtain ⟨x, started, rfl⟩ := Option.map_eq_some_iff.mp here
  exact ⟨x, o, started, Pc.returned_of_place returned, result, why⟩

/-- What a waiter that is not canceled does next, and that it can once the flight is
closed. -/
structure Waits (cfg : Config) (cacheKeyFor : Str → Str) (s : State) (g leader : Nat) (x : Goroutine) :
    Prop where
  joined : ∃ y, s.goroutines leader = some y ∧ cacheKeyFor y.token = cacheKeyFor x.token
  goesOn : ∀ action s' x', step cfg cacheKeyFor s action = some s' → s'.goroutines g = some x' →
    x'.pc ≠ x.pc → ∃ call, s.calls leader = some call ∧ call.closed = true ∧
      ((call.canceled = false ∧ ∃ o, call.result = some o ∧ x'.pc = .done o) ∨
        (call.canceled = true ∧ x'.pc = .enter))
  ready : ∀ call, s.calls leader = some call → call.closed = true →
    ∃ s', step cfg cacheKeyFor s (.advance g) = some s'

theorem waits_of_coherent (coherent : SingleFlight.Coherent (s.flight cacheKeyFor)) {leader : Nat}
    (here : s.goroutines g = some x) (waiting : x.pc = .wait leader) (live : x.canceled = false) :
    Waits cfg cacheKeyFor s g leader x := by
  have place : (x.party cacheKeyFor).place = .waiting leader := by rw [Goroutine.party, waiting]; rfl
  refine ⟨?_, ?_, ?_⟩
  · obtain ⟨p, _, there, key, _⟩ := coherent.waits g _ leader (party_of here) place
    obtain ⟨y, started, rfl⟩ := Option.map_eq_some_iff.mp there
    exact ⟨y, started, key⟩
  · intro action s' x' stepped there moved
    rcases (step_flight stepped).waiter (party_of here) place (party_of there) with
      still | canceled | ⟨call, known, closed, taken⟩
    · exact absurd ((Pc.wait_of_place still).trans waiting.symm) moved
    · rw [Goroutine.party, live] at canceled
      cases canceled
    · obtain ⟨shared, known', rfl⟩ := Option.map_eq_some_iff.mp known
      refine ⟨shared, known', closed, ?_⟩
      rcases taken with ⟨canceled, o, result, returned⟩ | ⟨canceled, entering⟩
      · exact .inl ⟨canceled, o, result, Pc.returned_of_place returned⟩
      · exact .inr ⟨canceled, Pc.enter_of_place entering⟩
  · intro call known closed
    obtain ⟨y, o, _, _, result, _⟩ := published_of_coherent coherent known closed
    have next : ∃ s', advance cfg cacheKeyFor s g x = some s' := by
      simp only [advance, waiting, known, Option.bind_eq_bind, Option.bind_some, closed, ↓reduceIte, result]
      by_cases canceled : call.canceled
      · exact ⟨_, if_pos canceled⟩
      · exact ⟨_, if_neg canceled⟩
    obtain ⟨s', advanced⟩ := next
    exact ⟨s', by rw [step, here]; exact advanced⟩

/-- In every state of every run: one API call per cache key; the slots belong to leaders
that have not given them up; a closed call holds what its leader returned and stays as it
is; a waiter that is not canceled takes that result, or enters again when the leader was
canceled; and between a leader's lookup and its store nobody else stores for the key. -/
theorem verify_single_flight (cfg : Config) (cacheKeyFor : Str → Str) (now : Int) (actions : List Action)
    (s : State) (ran : Steps.run (step cfg cacheKeyFor) (newAuth cfg now) actions = some s) :
    (∀ g h x y, s.goroutines g = some x → s.goroutines h = some y → x.pc = .calling →
      y.pc = .calling → cacheKeyFor x.token = cacheKeyFor y.token → g = h) ∧
    (∀ k g, s.inflight k = some g →
      ∃ x, s.goroutines g = some x ∧ cacheKeyFor x.token = k ∧ x.pc.leads = true) ∧
    (∀ g call, s.calls g = some call → call.closed = true →
      (∃ x o, s.goroutines g = some x ∧ x.pc = .done o ∧ call.result = some o ∧
        (call.canceled = true → x.canceled = true)) ∧
      ∀ later s', Steps.run (step cfg cacheKeyFor) s later = some s' → s'.calls g = some call) ∧
    (∀ g leader x, s.goroutines g = some x → x.pc = .wait leader → x.canceled = false →
      Waits cfg cacheKeyFor s g leader x) ∧
    ∀ k g lookup s₁ between s₂ store, LooksUp cacheKeyFor s k g lookup →
      step cfg cacheKeyFor s lookup = some s₁ →
      Steps.run (step cfg cacheKeyFor) s₁ between = some s₂ → Stores cacheKeyFor s₂ k g store →
      Steps.Along (step cfg cacheKeyFor) (fun s a => ∀ h, Stores cacheKeyFor s k h a → h = g) s₁ between := by
  have coherent := coherent_run ran
  refine ⟨?_, ?_, ?_, ?_, ?_⟩
  · intro g h x y here there calling calling' same
    have leads : ∀ z : Goroutine, z.pc = .calling → (z.party cacheKeyFor).place.holds = true := by
      intro z at_
      rw [Goroutine.party, at_]
      rfl
    exact coherent.holder_unique (party_of there) (party_of here) (leads y calling') (leads x calling) same
  · intro k g slot
    obtain ⟨p, here, key, holds⟩ := (coherent.slot k g).mp slot
    obtain ⟨x, started, rfl⟩ := Option.map_eq_some_iff.mp here
    exact ⟨x, started, key, (Pc.holds_place x.pc).symm.trans holds⟩
  · intro g call known closed
    refine ⟨published_of_coherent coherent known closed, ?_⟩
    intro later s' continued
    exact closed_run coherent continued known closed
  · intro g leader x here waiting live
    exact waits_of_coherent coherent here waiting live
  · rintro k g lookup s₁ between s₂ store ⟨-, x, here, key, reading⟩ first later ⟨-, y, entry, o, there, key', storing⟩
    have led : Led cacheKeyFor s k g true := by
      refine ⟨x, here, key, ?_⟩
      rcases reading with at_ | ⟨onMiss, at_⟩
      · rw [at_]
        rfl
      · rw [at_]
        rfl
    have still : Led cacheKeyFor s₂ k g true := ⟨y, there, key', by rw [storing]; rfl⟩
    rcases led.next first with ⟨_, led'⟩ | led'
    · exact led'.alone (coherent_step coherent first) later still
    · exact led'.alone (coherent_step coherent first) later still

/-- The leader a goroutine waits for. -/
def Pc.awaits : Pc → Option Nat
  | .wait leader => some leader
  | _ => none

theorem Pc.wait_of_awaits {leader : Nat} (awaits : pc.awaits = some leader) : pc = .wait leader := by
  cases pc <;> cases awaits
  rfl

/-- Two requests with one key; the second joins, and the first returns. -/
def sharedFlight : List Action :=
  .start 0 (lit "k") (lit "10.0.0.1") :: .start 1 (lit "k") (lit "10.0.0.2") ::
  List.replicate 3 (Action.advance 0) ++ List.replicate 3 (Action.advance 1) ++
  List.replicate 3 (Action.advance 0) ++
  .answer 0 (.http 200 (some (lit "w"))) :: List.replicate 7 (Action.advance 0)

theorem verify_single_flight_shared : ∃ s x call,
    Steps.run (step outageConfig outageKeyFor) (newAuth outageConfig 0) sharedFlight = some s ∧
    s.goroutines 1 = some x ∧ x.pc = .wait 0 ∧ s.calls 0 = some call ∧ call.closed = true ∧
    (∃ y o, s.goroutines 0 = some y ∧ y.pc = .done o ∧ call.result = some o) ∧
    ∃ s', step outageConfig outageKeyFor s (.advance 1) = some s' := by
  have ends : (Steps.run (step outageConfig outageKeyFor) (newAuth outageConfig 0) sharedFlight).map
      (fun s => ((s.goroutines 1).map fun x => (x.pc.awaits, x.canceled), (s.calls 0).map (·.closed))) =
      some (some (some 0, false), some true) := by decide +kernel
  obtain ⟨s, ran, facts⟩ := Option.map_eq_some_iff.mp ends
  obtain ⟨waiter, published⟩ := Prod.mk.inj facts
  obtain ⟨x, here, facts⟩ := Option.map_eq_some_iff.mp waiter
  obtain ⟨awaits, live⟩ := Prod.mk.inj facts
  obtain ⟨call, known, closed⟩ := Option.map_eq_some_iff.mp published
  have waiting := Pc.wait_of_awaits awaits
  obtain ⟨_, _, calls, waiters, _⟩ := verify_single_flight outageConfig outageKeyFor 0 sharedFlight s ran
  obtain ⟨⟨y, o, leader, returned, result, _⟩, _⟩ := calls 0 call known closed
  refine ⟨s, x, call, ran, here, waiting, known, closed, ⟨y, o, leader, returned, result⟩, ?_⟩
  exact (waiters 1 0 x here waiting live).ready call known closed

end Tracium.Auth
