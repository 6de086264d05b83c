import Tracium.ApiKeys.Grant
import Tracium.ApiKeys.Revocation

/-! How long a key outlives its revocation at the collector, and whose key lets a sender in. -/
namespace Tracium.Grant

open Go ApiKeys

variable {cfg : Auth.Config} {hash : Str → Str} {timeout delay now apiNow : Int} {s s' mid : System}

/-- A step is at most one step of the collector. -/
theorem step_auth {a : Action} (stepped : step cfg hash timeout s a = some s') :
    ∃ auths, Steps.run (Auth.step cfg hash) s.auth auths = some s'.auth ∧
      ∀ g token sender, .start g token sender ∈ auths → a = .collector (.start g token sender) := by
  have one : ∀ {b : Auth.Action} {auth : Auth.State}, Auth.step cfg hash s.auth b = some auth →
      Steps.run (Auth.step cfg hash) s.auth [b] = some auth := by
    intro b auth stepped
    rw [Steps.run, stepped]
    rfl
  unfold step at stepped
  split at stepped
  next => cases stepped
  next => cases stepped
  next => cases stepped
  next b _ _ =>
    obtain ⟨auth, inner, rfl⟩ := Option.map_eq_some_iff.mp stepped
    exact ⟨[b], one inner, fun g token sender member => by rw [List.mem_singleton.mp member]⟩
  next =>
    obtain ⟨api, -, rfl⟩ := Option.map_eq_some_iff.mp stepped
    exact ⟨[], rfl, by simp⟩
  next elapsed => exact ⟨[.tick elapsed], Option.some.inj stepped ▸ rfl, by simp⟩
  next g r =>
    obtain ⟨x, -, stepped⟩ := Option.bind_eq_some_iff.mp stepped
    split at stepped
    next =>
      obtain ⟨api, -, rfl⟩ := Option.map_eq_some_iff.mp stepped
      exact ⟨[], rfl, by simp⟩
    next => cases stepped
  next g =>
    obtain ⟨e, -, stepped⟩ := Option.bind_eq_some_iff.mp stepped
    obtain ⟨h, -, stepped⟩ := Option.bind_eq_some_iff.mp stepped
    split at stepped
    next reply _ =>
      split at stepped
      next =>
        obtain ⟨auth, inner, rfl⟩ := Option.map_eq_some_iff.mp stepped
        exact ⟨[.answer g (wire reply)], one inner, by simp⟩
      next => cases stepped
    next => cases stepped
  next g response =>
    split at stepped
    next => cases stepped
    next =>
      obtain ⟨auth, inner, rfl⟩ := Option.map_eq_some_iff.mp stepped
      exact ⟨[.answer g response], one inner, by simp⟩

/-- A step is at most one step of the API. -/
theorem step_api {a : Action} (stepped : step cfg hash timeout s a = some s') :
    s'.api = s.api ∨ ∃ b, ApiKeys.step hash s.api b = some s'.api := by
  unfold step at stepped
  split at stepped
  next => cases stepped
  next => cases stepped
  next => cases stepped
  next =>
    obtain ⟨auth, -, rfl⟩ := Option.map_eq_some_iff.mp stepped
    exact .inl rfl
  next b _ =>
    obtain ⟨api, inner, rfl⟩ := Option.map_eq_some_iff.mp stepped
    exact .inr ⟨b, inner⟩
  next elapsed => exact .inr ⟨.tick elapsed, Option.some.inj stepped ▸ rfl⟩
  next g r =>
    obtain ⟨x, -, stepped⟩ := Option.bind_eq_some_iff.mp stepped
    split at stepped
    next =>
      obtain ⟨api, inner, rfl⟩ := Option.map_eq_some_iff.mp stepped
      exact .inr ⟨_, inner⟩
    next => cases stepped
  next g =>
    obtain ⟨e, -, stepped⟩ := Option.bind_eq_some_iff.mp stepped
    obtain ⟨h, -, stepped⟩ := Option.bind_eq_some_iff.mp stepped
    split at stepped
    next =>
      split at stepped
      next =>
        obtain ⟨auth, -, rfl⟩ := Option.map_eq_some_iff.mp stepped
        exact .inl rfl
      next => cases stepped
    next => cases stepped
  next g response =>
    split at stepped
    next => cases stepped
    next =>
      obtain ⟨auth, -, rfl⟩ := Option.map_eq_some_iff.mp stepped
      exact .inl rfl

theorem auth_run {actions : List Action} (ran : Steps.run (step cfg hash timeout) s actions = some s') :
    ∃ auths, Steps.run (Auth.step cfg hash) s.auth auths = some s'.auth ∧
      Auth.presentedTokens auths ⊆ presentedTokens actions := by
  induction actions generalizing s with
  | nil => exact ⟨[], congrArg (some ∘ System.auth) (Option.some.inj ran), by simp [Auth.presentedTokens]⟩
  | cons a rest ih =>
    obtain ⟨middle, first, later⟩ := Steps.run_cons ran
    obtain ⟨early, ranFirst, ownFirst⟩ := step_auth first
    obtain ⟨late, ranRest, ownRest⟩ := ih later
    refine ⟨early ++ late, by rw [Steps.run_append, ranFirst]; exact ranRest, ?_⟩
    rintro token ⟨g, sender, member⟩
    rcases List.mem_append.mp member with member | member
    · exact ⟨g, sender, ownFirst g token sender member ▸ List.mem_cons_self⟩
    · obtain ⟨g', sender', member'⟩ := ownRest ⟨g, sender, member⟩
      exact ⟨g', sender', List.mem_cons_of_mem _ member'⟩

theorem collector_invariant {actions : List Action}
    (distinct : (presentedTokens actions).InjOn hash)
    (ran : Steps.run (step cfg hash timeout) (newSystem cfg now apiNow) actions = some s) :
    ∃ tokens, Auth.Invariant cfg hash tokens s.auth := by
  obtain ⟨auths, ranAuth, own⟩ := auth_run ran
  exact ⟨_, Auth.invariant_run (distinct.mono own) ranAuth⟩

/-- A workspace is decided only while, or shortly after, an active key of it hashes as the
token presented. -/
theorem decided_active {actions : List Action} (distinct : (presentedTokens actions).InjOn hash)
    (timely : Steps.Along (step cfg hash timeout) (fun s a => prompt delay s a = true)
      (newSystem cfg now apiNow) actions)
    (ran : Steps.run (step cfg hash timeout) (newSystem cfg now apiNow) actions = some s)
    {i : Nat} {token workspace : Str} {t : Int}
    (decided : s.auth.history[i]? = some (.decided token workspace t)) :
    ∃ mid, Steps.Visited (step cfg hash timeout) (newSystem cfg now apiNow) actions mid ∧
      Active hash mid token workspace ∧ mid.auth.now ≤ t ∧
      t ≤ mid.auth.now + timeout + delay + max cfg.cacheTTL cfg.maxStaleAge := by
  obtain ⟨tokens, inv⟩ := collector_invariant distinct ran
  obtain ⟨j, t', -, accepted, past, age, -⟩ := inv.decisions i token workspace t decided
  obtain ⟨mid, visited, active, before, soon⟩ :=
    (sound_run timely ran).accepted token workspace t' (List.mem_of_getElem? accepted)
  exact ⟨mid, visited, active, before.trans past, by omega⟩

/-- What is true of a key hereafter stays true of it through the rest of the run. -/
theorem hereafter_run {key : ApiKey} {P : ApiKey → Prop} (stable : ∀ a b, P a → Advances a b → P b)
    (inv : ApiKeys.Invariant s.api) (hereafter : Hereafter s.api key P) {actions : List Action}
    (ran : Steps.run (step cfg hash timeout) s actions = some s') : Hereafter s'.api key P := by
  induction actions generalizing s with
  | nil => exact Option.some.inj ran ▸ hereafter
  | cons a rest ih =>
    obtain ⟨middle, first, later⟩ := Steps.run_cons ran
    rcases step_api first with same | ⟨b, stepped⟩
    · exact ih (same ▸ inv) (same ▸ hereafter) later
    · exact ih (inv.step stepped) (hereafter.step stable (inv.effect stepped)) later

theorem api_invariant_run {actions : List Action}
    (ran : Steps.run (step cfg hash timeout) (newSystem cfg now apiNow) actions = some s) :
    ApiKeys.Invariant s.api := by
  refine Steps.run_invariant_along (I := fun s => ApiKeys.Invariant s.api) (fun s a s' inv _ stepped => ?_)
    (Steps.along_always _ _) ran (invariant_newStore apiNow)
  rcases step_api stepped with same | ⟨b, stepped⟩
  exacts [same ▸ inv, inv.step stepped]

/-- A key that was there and that no active row stands for any more, because it was revoked
or its workspace deleted, lets nobody in once the call under way, the pause before its answer
is stored and the trust in a stored answer are over. -/
theorem revoked_key_expires (cfg : Auth.Config) (hash : Str → Str) (timeout delay now apiNow : Int)
    (before after : List Action) (past mid s : System)
    (distinct : (presentedTokens (before ++ after)).InjOn hash)
    (timely : Steps.Along (step cfg hash timeout) (fun s a => prompt delay s a = true)
      (newSystem cfg now apiNow) (before ++ after))
    (reached : Steps.run (step cfg hash timeout) (newSystem cfg now apiNow) before = some mid)
    (ran : Steps.run (step cfg hash timeout) mid after = some s)
    (visited : Steps.Visited (step cfg hash timeout) (newSystem cfg now apiNow) before past)
    (key : ApiKey) (row : key ∈ past.api.db.keys)
    (dead : ∀ row ∈ mid.api.db.keys, row.keyHash = key.keyHash → row.active = false)
    (i : Nat) (token workspace : Str) (t : Int)
    (named : key.keyHash = hash (trimSpace (sentKey token)))
    (decided : s.auth.history[i]? = some (.decided token workspace t)) :
    t ≤ mid.auth.now + timeout + delay + max cfg.cacheTTL cfg.maxStaleAge := by
  have whole : Steps.run (step cfg hash timeout) (newSystem cfg now apiNow) (before ++ after) = some s := by
    rw [Steps.run_append, reached]
    exact ran
  obtain ⟨there, reach, ⟨holder, held, active, hashed, -⟩, -, soon⟩ :=
    decided_active distinct timely whole decided
  rcases Steps.visited_append reached reach with ⟨early, rest, split, ranEarly, -⟩ | later
  · -- the key was found active before `mid`
    have sound := sound_run (Steps.along_front timely) reached
    have := sound.past there ⟨early, rest, split, ranEarly⟩
    omega
  · -- or after it, when no row of the hash is active any more
    obtain ⟨front, back, split, ranFront⟩ := visited
    have known := (api_invariant_run ranFront).hereafter (P := (·.keyHash = key.keyHash)) row rfl
    have toMid : Steps.run (step cfg hash timeout) past back = some mid := by
      rw [split, Steps.run_append, ranFront] at reached
      exact reached
    have atMid := hereafter_run (fun a b same advances => advances.columns.2.1.trans same)
      (api_invariant_run ranFront) known toMid
    have shut : Hereafter mid.api key (·.active = false) :=
      ⟨atMid.spent, fun row member same => dead row member (atMid.rows row member same)⟩
    obtain ⟨front', back', -, ranFront'⟩ := later
    have ended := hereafter_run inactive_stable (api_invariant_run reached) shut ranFront'
    have revoked := ended.rows holder held (.inr (hashed.trans named.symm))
    rw [active] at revoked
    cases revoked

/-- The team's key is minted, lets a sender in, and is revoked. -/
def mintUseRevoke : List Action :=
  mintKey.map .api ++
  .collector (.start 0 sampleToken (lit "10.0.0.1")) ::
    List.replicate 6 (Action.collector (.advance 0)) ++
  .send 0 1 :: List.replicate 3 (Action.api (.advance 1)) ++
  .receive 0 :: List.replicate 7 (Action.collector (.advance 0)) ++
  .api (.start 2 (.revoke (lit "team") (lit "alice") (lit "k1"))) ::
    List.replicate 3 (Action.api (.advance 2))

/-- Half a minute later the collector still trusts the answer. -/
def useAgain : List Action :=
  .tick (30 * 1000000000) :: .collector (.start 1 sampleToken (lit "10.0.0.1")) ::
    List.replicate 2 (Action.collector (.advance 1))

abbrev sampleStep : System → Action → Option System := step Auth.outageConfig sampleHash (5 * Auth.second)

theorem presentedTokens_sample {token : Str}
    (presented : token ∈ presentedTokens (mintUseRevoke ++ useAgain)) : token = sampleToken := by
  obtain ⟨g, sender, member⟩ := presented
  simp [mintUseRevoke, useAgain] at member
  rcases member with ⟨-, same, -⟩ | ⟨-, same, -⟩ <;> exact same

theorem revoked_key_expires_sample : ∃ mid s : System,
    Steps.run sampleStep (newSystem Auth.outageConfig 0 0) mintUseRevoke = some mid ∧
    Steps.run sampleStep mid useAgain = some s ∧ mid.api.db.keys.map (·.active) = [false] ∧
    s.auth.history[2]? = some (.decided sampleToken (lit "team") (30 * Auth.second)) ∧
    30 * Auth.second ≤ mid.auth.now + 5 * Auth.second + 0 + max (60 * Auth.second) (300 * Auth.second) := by
  have ends : (Steps.run sampleStep (newSystem Auth.outageConfig 0 0) mintUseRevoke).bind (fun mid =>
      (Steps.run sampleStep mid useAgain).map fun s =>
        (mid.api.db.keys.map fun key =>
          (key.active, key.keyHash == sampleHash (trimSpace (sentKey sampleToken))),
          s.auth.history[2]?)) =
      some ([(false, true)], some (.decided sampleToken (lit "team") (30 * Auth.second))) := by
    decide +kernel
  have timely : Steps.Along sampleStep (fun s a => prompt 0 s a = true)
      (newSystem Auth.outageConfig 0 0) (mintUseRevoke ++ useAgain) := by decide +kernel
  obtain ⟨mid, reached, ends⟩ := Option.bind_eq_some_iff.mp ends
  obtain ⟨s, ran, shown⟩ := Option.map_eq_some_iff.mp ends
  obtain ⟨rows, decided⟩ := Prod.mk.inj shown
  obtain ⟨key, only, found⟩ := List.map_eq_singleton_iff.mp rows
  obtain ⟨revoked, hashed⟩ := Prod.mk.inj found
  have row : key ∈ mid.api.db.keys := by rw [only]; exact List.mem_singleton_self key
  have dead : ∀ row ∈ mid.api.db.keys, row.active = false := by
    intro other member
    rw [only] at member
    rw [List.mem_singleton.mp member]
    exact revoked
  have distinct : (presentedTokens (mintUseRevoke ++ useAgain)).InjOn sampleHash := by
    intro a ha b hb _
    rw [presentedTokens_sample ha, presentedTokens_sample hb]
  refine ⟨mid, s, reached, ran, by rw [only, List.map_singleton, revoked], decided, ?_⟩
  exact revoked_key_expires Auth.outageConfig sampleHash (5 * Auth.second) 0 0 0 mintUseRevoke useAgain
    mid mid s distinct timely reached ran ⟨mintUseRevoke, [], by simp, reached⟩ key row
    (fun other member _ => dead other member) 2 sampleToken (lit "team") _ (by simpa using hashed) decided

/-- Whoever is let into a workspace presents a token of an active key of that workspace, or
did so within the bound, and a member of the workspace minted the key. -/
theorem verified_key_minted (cfg : Auth.Config) (hash : Str → Str) (timeout delay now apiNow : Int)
    (actions : List Action) (s : System) (distinct : (presentedTokens actions).InjOn hash)
    (timely : Steps.Along (step cfg hash timeout) (fun s a => prompt delay s a = true)
      (newSystem cfg now apiNow) actions)
    (ran : Steps.run (step cfg hash timeout) (newSystem cfg now apiNow) actions = some s)
    (g : Nat) (x : Auth.Goroutine) (workspace : Str) (i : Nat) (here : s.auth.goroutines g = some x)
    (returned : x.pc = .done (.verified workspace i)) :
    ∃ t before after mid key past,
      s.auth.history[i]? = some (.decided x.token workspace t) ∧ actions = before ++ after ∧
      Steps.run (step cfg hash timeout) (newSystem cfg now apiNow) before = some mid ∧
      mid.auth.now ≤ t ∧ t ≤ mid.auth.now + timeout + delay + max cfg.cacheTTL cfg.maxStaleAge ∧
      key ∈ mid.api.db.keys ∧ key.active = true ∧ key.workspaceID = workspace ∧
      key.keyHash = hash (trimSpace (sentKey x.token)) ∧
      Steps.Visited (step cfg hash timeout) (newSystem cfg now apiNow) before past ∧
      (workspace, key.createdBy) ∈ past.api.db.members := by
  obtain ⟨tokens, inv⟩ := collector_invariant distinct ran
  obtain ⟨t, decided⟩ := (inv.each g x here).outcome (.verified workspace i) (by rw [returned]; rfl)
  obtain ⟨mid, ⟨before, after, split, reached⟩, ⟨key, row, active, hashed, own⟩, since, soon⟩ :=
    decided_active distinct timely ran decided
  subst split
  obtain ⟨past, visited, member⟩ := (sound_run (Steps.along_front timely) reached).minted.rows key row
  rw [own] at member
  exact ⟨t, before, after, mid, key, past, decided, rfl, reached, since, soon, row, active, own, hashed,
    visited, member⟩

def returned : Auth.Pc → Option Auth.Outcome
  | .done o => some o
  | _ => none

theorem done_of_returned {pc : Auth.Pc} {o : Auth.Outcome} (done : returned pc = some o) : pc = .done o := by
  cases pc <;> cases done
  rfl

theorem verified_key_minted_sample : ∃ s x before mid key past,
    Steps.run sampleStep (newSystem Auth.outageConfig 0 0) (mintUseRevoke ++ useAgain) = some s ∧
    s.auth.goroutines 1 = some x ∧ x.pc = .done (.verified (lit "team") 2) ∧
    Steps.run sampleStep (newSystem Auth.outageConfig 0 0) before = some mid ∧
    key ∈ mid.api.db.keys ∧ key.active = true ∧
    Steps.Visited sampleStep (newSystem Auth.outageConfig 0 0) before past ∧
    (lit "team", key.createdBy) ∈ past.api.db.members := by
  have ends : (Steps.run sampleStep (newSystem Auth.outageConfig 0 0) (mintUseRevoke ++ useAgain)).map
      (fun s => (s.auth.goroutines 1).map fun x => returned x.pc) =
      some (some (some (.verified (lit "team") 2))) := by decide +kernel
  have timely : Steps.Along sampleStep (fun s a => prompt 0 s a = true)
      (newSystem Auth.outageConfig 0 0) (mintUseRevoke ++ useAgain) := by decide +kernel
  obtain ⟨s, ran, shown⟩ := Option.map_eq_some_iff.mp ends
  obtain ⟨x, here, done⟩ := Option.map_eq_some_iff.mp shown
  have distinct : (presentedTokens (mintUseRevoke ++ useAgain)).InjOn sampleHash := by
    intro a ha b hb _
    rw [presentedTokens_sample ha, presentedTokens_sample hb]
  obtain ⟨t, before, after, mid, key, past, -, -, reached, -, -, row, active, -, -, visited, member⟩ :=
    verified_key_minted Auth.outageConfig sampleHash (5 * Auth.second) 0 0 0 (mintUseRevoke ++ useAgain) s
      distinct timely ran 1 x (lit "team") 2 here (done_of_returned done)
  exact ⟨s, x, before, mid, key, past, ran, here, done_of_returned done, reached, row, active, visited, member⟩

end Tracium.Grant
