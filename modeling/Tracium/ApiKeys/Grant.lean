import Tracium.ApiKeys.Minting
import Tracium.Auth.Acceptance
import Tracium.Auth.Freshness

/-! Ingest authentication end to end: a collector's verify calls answered by the API that
keeps the keys. The network may lose or fail any exchange, and it may answer late, but a
call ends with the client's timeout. All clocks run at one rate. -/
namespace Tracium.Grant

open Go ApiKeys

/-- One HTTP exchange of a goroutine, and the request it became at the API. -/
structure Exchange where
  token : Str
  request : Nat
  sentAt : Int
  receivedAt : Option Int

structure System where
  auth : Auth.State
  api : ApiKeys.State
  exchanges : Nat → Option Exchange

inductive Action
  | collector (a : Auth.Action)
  | api (a : ApiKeys.Action)
  | tick (elapsed : Nat)
  | send (g r : Nat)
  | receive (g : Nat)
  | fail (g : Nat) (response : Auth.Response)

def newSystem (cfg : Auth.Config) (now apiNow : Int) : System :=
  ⟨Auth.newAuth cfg now, newStore apiNow, fun _ => none⟩

/-- The key the API decodes: json.Marshal writes an invalid byte as U+FFFD. -/
def sentKey (token : Str) : Str := mapRunes some token

/-- A reply as the collector reads it. -/
def wire : Reply → Auth.Response
  | .created .. => .http 201 none
  | .noContent => .http 204 none
  | .granted workspaceID => .http 200 (some workspaceID)
  | .refused status _ _ => .http status none

/-- Only Verify answers these statuses on its route. -/
def verdict : Auth.Response → Bool
  | .http 200 _ | .http 401 _ => true
  | _ => false

variable (cfg : Auth.Config) (hash : Str → Str) (timeout : Int)

/-- SHA-256 in hex names the token in the cache and in api_keys alike. -/
def step (s : System) : Action → Option System
  | .collector (.tick _) | .collector (.answer _ _) | .api (.tick _) => none
  | .collector a => (Auth.step cfg hash s.auth a).map fun auth => { s with auth := auth }
  | .api a => (ApiKeys.step hash s.api a).map fun api => { s with api := api }
  | .tick elapsed =>
    some { s with
      auth := { s.auth with now := s.auth.now + elapsed }
      api := { s.api with now := s.api.now + elapsed } }
  | .send g r => do
    let x ← s.auth.goroutines g
    match x.pc with
    | .calling =>
      (ApiKeys.step hash s.api (.start r (.verify (sentKey x.token)))).map fun api =>
        { s with
          api := api
          exchanges := Function.update s.exchanges g (some ⟨x.token, r, s.auth.now, none⟩) }
    | _ => none
  | .receive g => do
    let e ← s.exchanges g
    let h ← s.api.handlers e.request
    match h.pc with
    | .done reply =>
      if e.receivedAt = none ∧ s.auth.now ≤ e.sentAt + timeout then
        (Auth.step cfg hash s.auth (.answer g (wire reply))).map fun auth =>
          { s with
            auth := auth
            exchanges :=
              Function.update s.exchanges g (some { e with receivedAt := some s.auth.now }) }
      else none
    | _ => none
  | .fail g response =>
    if verdict response then none
    else (Auth.step cfg hash s.auth (.answer g response)).map fun auth => { s with auth := auth }

/-- The tokens senders present in a run. -/
def presentedTokens (actions : List Action) : Set Str :=
  { token | ∃ g sender, .collector (.start g token sender) ∈ actions }

/-- A goroutine stores an answer within `delay` of taking it. -/
def prompt (delay : Int) (s : System) : Action → Bool
  | .collector (.advance g) =>
    match s.auth.goroutines g, s.exchanges g with
    | some x, some e =>
      match x.pc.storing, e.receivedAt with
      | some _, some at_ => s.auth.now ≤ at_ + delay
      | _, _ => true
    | _, _ => true
  | _ => true

/-- An active key of the workspace hashes as the token the API was sent. -/
def Active (s : System) (token workspace : Str) : Prop :=
  ∃ key ∈ s.api.db.keys, key.active = true ∧ key.keyHash = hash (trimSpace (sentKey token)) ∧
    key.workspaceID = workspace

variable {cfg hash timeout}
variable {s s' : System} {seen : System → Prop}

/-- What a verify request has found, for the exchange it came from. -/
def About (hash : Str → Str) (seen : System → Prop) (e : Exchange) : Pc → Prop
  | .verify key => key = sentKey e.token
  | .verifyFind keyHash => keyHash = hash (trimSpace (sentKey e.token))
  | .verifyBump found =>
    ∃ mid, seen mid ∧ e.sentAt ≤ mid.auth.now ∧ Active hash mid e.token found.workspaceID
  | .done (.granted workspace) =>
    ∃ mid, seen mid ∧ e.sentAt ≤ mid.auth.now ∧ Active hash mid e.token workspace
  | .done (.refused _ _ _) => True
  | _ => False

theorem About.mono {seen' : System → Prop} (more : ∀ m, seen m → seen' m) {e : Exchange} {pc : Pc}
    (about : About hash seen e pc) : About hash seen' e pc := by
  unfold About at about ⊢
  split at about
  exacts [about, about, about.imp fun _ h => ⟨more _ h.1, h.2⟩, about.imp fun _ h => ⟨more _ h.1, h.2⟩,
    trivial, about]

/-- A piece of the handler keeps what it is about; its snapshot is the state it is in. -/
theorem About.move {e : Exchange} {x : Handler} (about : About hash seen e x.pc) (here : seen s)
    (sent : e.sentAt ≤ s.auth.now) {keys : List ApiKey} {startedAt : Int} {pc : Pc}
    (moves : Moves hash s.api x keys startedAt pc) : About hash seen e pc := by
  cases moves with
  | enter at_ =>
    unfold Pc.scope at at_
    split at at_
    next before => rw [before] at about; exact about.elim
    next before => rw [before] at about; exact about.elim
    next => cases at_
  | refuse => trivial
  | insert at_ | find at_ | revoke at_ =>
    rw [at_] at about
    exact about.elim
  | check at_ =>
    rw [at_] at about
    exact congrArg (fun key => hash (trimSpace key)) about
  | look at_ row same active =>
    rw [at_] at about
    exact ⟨s, here, sent, _, row, active, same.trans about, rfl⟩
  | bump at_ answers =>
    rw [at_] at about
    rcases answers with rfl | ⟨_, _, _, rfl⟩
    exacts [about, trivial]

/-- The account was a member of the workspace in a state seen. -/
def WasMember (seen : System → Prop) (p : Str × Str) : Prop :=
  ∃ past, seen past ∧ p ∈ past.api.db.members

structure Sound (hash : Str → Str) (timeout delay : Int) (seen : System → Prop) (s : System) :
    Prop where
  api : ApiKeys.Invariant s.api
  minted : Minted (WasMember seen) s.api
  past : ∀ mid, seen mid → mid.auth.now ≤ s.auth.now
  asked : ∀ g e, s.exchanges g = some e → e.sentAt ≤ s.auth.now ∧
    (∃ x, s.auth.goroutines g = some x ∧ x.token = e.token) ∧
    ∃ h, s.api.handlers e.request = some h ∧ About hash seen e h.pc
  granted : ∀ g x workspace, s.auth.goroutines g = some x → x.pc.grant = some workspace →
    ∃ e at_, s.exchanges g = some e ∧ e.receivedAt = some at_ ∧ at_ ≤ e.sentAt + timeout ∧
      ∃ mid, seen mid ∧ e.sentAt ≤ mid.auth.now ∧ Active hash mid x.token workspace
  accepted : ∀ token workspace t, .accepted token workspace t ∈ s.auth.history →
    ∃ mid, seen mid ∧ Active hash mid token workspace ∧ mid.auth.now ≤ t ∧
      t ≤ mid.auth.now + timeout + delay

variable {delay : Int}

theorem WasMember.mono {seen' : System → Prop} (more : ∀ m, seen m → seen' m) (p : Str × Str)
    (was : WasMember seen p) : WasMember seen' p := was.imp fun _ h => ⟨more _ h.1, h.2⟩

theorem Sound.mono {seen' : System → Prop} (more : ∀ m, seen m → seen' m)
    (past : ∀ mid, seen' mid → mid.auth.now ≤ s.auth.now) (sound : Sound hash timeout delay seen s) :
    Sound hash timeout delay seen' s := by
  refine ⟨sound.api, sound.minted.mono (WasMember.mono more), past, fun g e sent => ?_,
    fun g x workspace here held => ?_, fun token workspace t member => ?_⟩
  · obtain ⟨at_, own, h, here, about⟩ := sound.asked g e sent
    exact ⟨at_, own, h, here, about.mono more⟩
  · obtain ⟨e, at_, sent, received, soon, mid, old, rest⟩ := sound.granted g x workspace here held
    exact ⟨e, at_, sent, received, soon, mid, more mid old, rest⟩
  · obtain ⟨mid, old, rest⟩ := sound.accepted token workspace t member
    exact ⟨mid, more mid old, rest⟩

/-- The state a step leads to is seen as well, when its clock is not behind. -/
theorem Sound.see (sound : Sound hash timeout delay seen s)
    (also : ∀ mid, seen mid → mid.auth.now ≤ s.auth.now) :
    Sound hash timeout delay (fun m => seen m ∨ m = s) s := by
  refine sound.mono (fun _ => .inl) ?_
  rintro mid (old | rfl)
  exacts [also mid old, le_refl _]

/-- A piece of a goroutine; when it stores an answer it is prompt. -/
theorem Sound.collector (sound : Sound hash timeout delay seen s) {a : Auth.Action}
    {auth : Auth.State} (frame : Auth.Frame s.auth a auth)
    (timely : prompt delay s (.collector a) = true) :
    Sound hash timeout delay seen { s with auth := auth } := by
  refine ⟨sound.api, sound.minted, fun mid old => ?_, fun g e sent => ?_,
    fun g x' workspace here held => ?_, fun token workspace t member => ?_⟩
  · exact frame.now ▸ sound.past mid old
  · obtain ⟨at_, ⟨x, here, token⟩, rest⟩ := sound.asked g e sent
    obtain ⟨x', here', same⟩ := frame.tokens g x here
    exact ⟨frame.now ▸ at_, ⟨x', here', same.trans token⟩, rest⟩
  · obtain ⟨x, here', token, held'⟩ := frame.grants g x' workspace here held
    exact token ▸ sound.granted g x workspace here' held'
  · obtain ⟨events, history, new⟩ := frame.history
    rw [history] at member
    rcases List.mem_append.mp member with old | added
    · exact sound.accepted token workspace t old
    · obtain ⟨g, x, rfl, here, rfl, storing, rfl⟩ := new token workspace t added
      obtain ⟨e, at_, sent, received, soon, mid, old, after, active⟩ :=
        sound.granted g x workspace here (Auth.Pc.grant_of_storing storing)
      have stored : s.auth.now ≤ at_ + delay := by
        simpa [prompt, here, sent, storing, received] using timely
      exact ⟨mid, old, active, sound.past mid old, by omega⟩

/-- A step of the API alone: `here` is the state its statements read. -/
theorem Sound.serve (sound : Sound hash timeout delay seen s) (here : seen s) {a : ApiKeys.Action}
    {api : ApiKeys.State} (stepped : ApiKeys.step hash s.api a = some api) :
    Sound hash timeout delay (fun m => seen m ∨ m = { s with api := api }) { s with api := api } := by
  have more : ∀ m, seen m → seen m ∨ m = { s with api := api } := fun _ => .inl
  refine ⟨sound.api.step stepped, ?_, ?_, fun g e sent => ?_, fun g x workspace here held => ?_,
    fun token workspace t member => ?_⟩
  · refine (sound.minted.mono (WasMember.mono more)).step sound.api stepped fun p member => ?_
    exact ⟨_, .inr rfl, member⟩
  · rintro mid (old | rfl)
    exacts [sound.past mid old, le_refl _]
  · obtain ⟨at_, own, h, old, about⟩ := sound.asked g e sent
    refine ⟨at_, own, ?_⟩
    rcases step_handler stepped old with same | ⟨keys, startedAt, pc, moves, same⟩ | ⟨_, _, _, same⟩
    exacts [⟨h, same, about.mono more⟩, ⟨_, same, (about.move here at_ moves).mono more⟩,
      ⟨_, same, trivial⟩]
  · obtain ⟨e, at_, sent, received, soon, mid, old, rest⟩ := sound.granted g x workspace here held
    exact ⟨e, at_, sent, received, soon, mid, .inl old, rest⟩
  · obtain ⟨mid, old, rest⟩ := sound.accepted token workspace t member
    exact ⟨mid, .inl old, rest⟩

theorem Sound.tick (sound : Sound hash timeout delay seen s) (elapsed : Nat) :
    Sound hash timeout delay seen { s with
      auth := { s.auth with now := s.auth.now + elapsed }
      api := { s.api with now := s.api.now + elapsed } } := by
  have ticked : ApiKeys.step hash s.api (.tick elapsed) = some { s.api with now := s.api.now + elapsed } :=
    rfl
  have later : s.auth.now ≤ s.auth.now + elapsed := by omega
  refine ⟨sound.api.step ticked, sound.minted.step sound.api ticked sound.minted.members,
    fun mid old => (sound.past mid old).trans later, fun g e sent => ?_, sound.granted, sound.accepted⟩
  obtain ⟨at_, rest⟩ := sound.asked g e sent
  exact ⟨at_.trans later, rest⟩

/-- A goroutine that is calling holds nothing, so its exchange may be a new one. -/
theorem Sound.send (sound : Sound hash timeout delay seen s) {g r : Nat} {x : Auth.Goroutine}
    {api : ApiKeys.State} (here : s.auth.goroutines g = some x) (calling : x.pc.grant = none)
    (started : ApiKeys.step hash s.api (.start r (.verify (sentKey x.token))) = some api) :
    Sound hash timeout delay seen { s with
      api := api
      exchanges := Function.update s.exchanges g (some ⟨x.token, r, s.auth.now, none⟩) } := by
  obtain ⟨free, rfl⟩ : s.api.handlers r = none ∧
      api = s.api.set r ⟨.verify (sentKey x.token), s.api.now, .verify (sentKey x.token)⟩ := by
    simp only [ApiKeys.step, Call.draw] at started
    split at started
    next s₁ free drawn =>
      cases Option.some.inj drawn
      exact ⟨free, (Option.some.inj started).symm⟩
    next => cases started
  refine ⟨sound.api.step started, sound.minted.step sound.api started sound.minted.members, sound.past,
    fun i e sent => ?_, fun i y workspace there held => ?_, sound.accepted⟩
  · rcases Steps.update_eq_some sent with ⟨rfl, ⟨⟩⟩ | ⟨-, old⟩
    · exact ⟨le_refl _, ⟨x, here, rfl⟩, _, Function.update_self .., rfl⟩
    · obtain ⟨at_, own, h, there, about⟩ := sound.asked i e old
      have other : e.request ≠ r := by
        rintro rfl
        cases free.symm.trans there
      exact ⟨at_, own, h, (Function.update_of_ne other ..).trans there, about⟩
  · obtain ⟨e, at_, sent, rest⟩ := sound.granted i y workspace there held
    have other : i ≠ g := by
      rintro rfl
      cases Option.some.inj (here.symm.trans there)
      rw [calling] at held
      cases held
    exact ⟨e, at_, (Function.update_of_ne other ..).trans sent, rest⟩

theorem callVerify_ok {response : Auth.Response} {workspace : Str}
    (verified : Auth.callVerify response = .ok workspace) : response = .http 200 (some workspace) := by
  unfold Auth.callVerify at verified
  split at verified
  next => cases verified
  next =>
    split at verified
    next => cases verified
    next =>
      cases verified
      rfl
  all_goals cases verified

theorem ok_of_grant {answer : Except Auth.Error Str} {workspace : Str}
    (held : (Auth.Pc.answered answer).grant = some workspace) : answer = .ok workspace := by
  cases answer <;> cases held
  rfl

theorem answered_grant {reply : Reply} {workspace : Str}
    (held : (Auth.Pc.answered (Auth.callVerify (wire reply))).grant = some workspace) :
    reply = .granted workspace := by
  have written := callVerify_ok (ok_of_grant held)
  cases reply <;> cases written
  rfl

/-- What an answer changes: the goroutine that was calling takes it. -/
theorem answer_spec {auth auth' : Auth.State} {cfg : Auth.Config} {g : Nat} {response : Auth.Response}
    (stepped : Auth.step cfg hash auth (.answer g response) = some auth') :
    ∃ x, auth.goroutines g = some x ∧ x.pc.grant = none ∧
      auth' = auth.goto g x (.answered (Auth.callVerify response)) := by
  obtain ⟨x, here, stepped⟩ := Option.bind_eq_some_iff.mp stepped
  split at stepped
  next calling => exact ⟨x, here, by rw [calling]; rfl, (Option.some.inj stepped).symm⟩
  next => cases stepped

/-- The exchanges and the answer are kept apart from what the answer grants. -/
theorem Sound.answer (sound : Sound hash timeout delay seen s) {g : Nat} {x : Auth.Goroutine}
    {response : Auth.Response} (here : s.auth.goroutines g = some x)
    {exchanges : Nat → Option Exchange}
    (same : ∀ i e', exchanges i = some e' → ∃ e, s.exchanges i = some e ∧ e'.token = e.token ∧
      e'.request = e.request ∧ e'.sentAt = e.sentAt)
    (others : ∀ i, i ≠ g → exchanges i = s.exchanges i)
    (grants : ∀ workspace, (Auth.Pc.answered (Auth.callVerify response)).grant = some workspace →
      ∃ e at_, exchanges g = some e ∧ e.receivedAt = some at_ ∧ at_ ≤ e.sentAt + timeout ∧
        ∃ mid, seen mid ∧ e.sentAt ≤ mid.auth.now ∧ Active hash mid x.token workspace) :
    Sound hash timeout delay seen { s with
      auth := s.auth.goto g x (.answered (Auth.callVerify response))
      exchanges := exchanges } := by
  refine ⟨sound.api, sound.minted, sound.past, fun i e' sent => ?_, fun i y workspace there held => ?_,
    sound.accepted⟩
  · obtain ⟨e, old, token, request, sentAt⟩ := same i e' sent
    obtain ⟨at_, ⟨y, there, own⟩, h, asked, about⟩ := sound.asked i e old
    have about' : About hash seen e' h.pc := by
      unfold About at about ⊢
      rw [token, sentAt]
      exact about
    refine ⟨sentAt ▸ at_, ?_, h, request ▸ asked, about'⟩
    by_cases mine : i = g
    · subst mine
      cases Option.some.inj (here.symm.trans there)
      exact ⟨_, Function.update_self .., own.trans token.symm⟩
    · exact ⟨y, (Function.update_of_ne mine ..).trans there, own.trans token.symm⟩
  · rcases Steps.update_eq_some there with ⟨rfl, ⟨⟩⟩ | ⟨other, old⟩
    · exact grants workspace held
    · obtain ⟨e, at_, sent, rest⟩ := sound.granted i y workspace old held
      exact ⟨e, at_, (others i other).trans sent, rest⟩

/-- The workspace a goroutine holds is one the API found for it within the timeout. -/
theorem Sound.receive (sound : Sound hash timeout delay seen s) {g : Nat} {e : Exchange}
    {h : Handler} {reply : Reply} (sent : s.exchanges g = some e)
    (asked : s.api.handlers e.request = some h) (done : h.pc = .done reply)
    (soon : s.auth.now ≤ e.sentAt + timeout) {auth : Auth.State}
    (stepped : Auth.step cfg hash s.auth (.answer g (wire reply)) = some auth) :
    Sound hash timeout delay seen { s with
      auth := auth
      exchanges := Function.update s.exchanges g (some { e with receivedAt := some s.auth.now }) } := by
  obtain ⟨x, here, -, rfl⟩ := answer_spec stepped
  obtain ⟨-, ⟨y, there, own⟩, h', found, about⟩ := sound.asked g e sent
  cases Option.some.inj (here.symm.trans there)
  cases Option.some.inj (asked.symm.trans found)
  refine sound.answer here ?_ (fun i other => Function.update_of_ne other ..) fun workspace held => ?_
  · intro i e' found
    rcases Steps.update_eq_some found with ⟨rfl, ⟨⟩⟩ | ⟨-, old⟩
    exacts [⟨e, sent, rfl, rfl, rfl⟩, ⟨e', old, rfl, rfl, rfl⟩]
  · cases answered_grant held
    rw [done] at about
    obtain ⟨mid, old, after, active⟩ := about
    exact ⟨_, _, Function.update_self .., rfl, soon, mid, old, after, own ▸ active⟩

theorem Sound.fail (sound : Sound hash timeout delay seen s) {g : Nat} {response : Auth.Response}
    (silent : verdict response = false) {auth : Auth.State}
    (stepped : Auth.step cfg hash s.auth (.answer g response) = some auth) :
    Sound hash timeout delay seen { s with auth := auth } := by
  obtain ⟨x, here, -, rfl⟩ := answer_spec stepped
  refine sound.answer here (fun i e sent => ⟨e, sent, rfl, rfl, rfl⟩) (fun _ _ => rfl) fun workspace held => ?_
  rw [callVerify_ok (ok_of_grant held)] at silent
  cases silent

theorem Sound.step (sound : Sound hash timeout delay seen s) (here : seen s) {a : Action}
    (timely : prompt delay s a = true) (stepped : Grant.step cfg hash timeout s a = some s') :
    Sound hash timeout delay (fun m => seen m ∨ m = s') s' := by
  unfold Grant.step at stepped
  split at stepped
  next => cases stepped
  next => cases stepped
  next => cases stepped
  next a ticks answers =>
    obtain ⟨auth, inner, rfl⟩ := Option.map_eq_some_iff.mp stepped
    have next_ := sound.collector (Auth.step_frame ticks answers inner) timely
    exact next_.see next_.past
  next a ticks =>
    obtain ⟨api, inner, rfl⟩ := Option.map_eq_some_iff.mp stepped
    exact sound.serve here inner
  next elapsed =>
    rw [← Option.some.inj stepped]
    exact (sound.tick elapsed).see (sound.tick elapsed).past
  next g r =>
    obtain ⟨x, there, stepped⟩ := Option.bind_eq_some_iff.mp stepped
    split at stepped
    next calling =>
      obtain ⟨api, started, rfl⟩ := Option.map_eq_some_iff.mp stepped
      have next_ := sound.send there (by rw [calling]; rfl) started
      exact next_.see next_.past
    next => cases stepped
  next g =>
    obtain ⟨e, sent, stepped⟩ := Option.bind_eq_some_iff.mp stepped
    obtain ⟨h, asked, stepped⟩ := Option.bind_eq_some_iff.mp stepped
    split at stepped
    next reply done =>
      split at stepped
      next soon =>
        obtain ⟨auth, inner, rfl⟩ := Option.map_eq_some_iff.mp stepped
        have next_ := sound.receive sent asked done soon.2 inner
        exact next_.see next_.past
      next => cases stepped
    next => cases stepped
  next g response =>
    split at stepped
    next => cases stepped
    next silent =>
      obtain ⟨auth, inner, rfl⟩ := Option.map_eq_some_iff.mp stepped
      have next_ := sound.fail (by simpa using silent) inner
      exact next_.see next_.past

theorem sound_newSystem (cfg : Auth.Config) (now apiNow : Int) :
    Sound hash timeout delay (· = newSystem cfg now apiNow) (newSystem cfg now apiNow) := by
  refine ⟨invariant_newStore apiNow, ⟨?_, ?_, ?_, ?_⟩, ?_, ?_, ?_, ?_⟩ <;>
    simp [newSystem, newStore, Auth.newAuth]

theorem sound_run {now apiNow : Int} {actions : List Action}
    (timely : Steps.Along (step cfg hash timeout) (fun s a => prompt delay s a = true)
      (newSystem cfg now apiNow) actions)
    (ran : Steps.run (step cfg hash timeout) (newSystem cfg now apiNow) actions = some s) :
    Sound hash timeout delay
      (Steps.Visited (step cfg hash timeout) (newSystem cfg now apiNow) actions) s :=
  Steps.run_history (fun _ _ _ _ here sound timely stepped => sound.step here timely stepped) timely ran
    (sound_newSystem cfg now apiNow)

end Tracium.Grant
