import Mathlib.Data.Set.Function
import Mathlib.Data.List.Infix
import Tracium.Auth.Verify

/-! What one goroutine of verify may rely on while the others run. Only the leader of a
token writes its entry or records a rejection of it, so a step's obligations are about the
goroutine that took it and its own token. -/
namespace Tracium.Auth

open Go

namespace Pc

/-- From joinInflight to the delete in finishInflight. -/
def leads : Pc → Bool
  | .enter | .lookup | .join | .wait _ | .close _ | .done _ => false
  | _ => true

/-- The leader's second lookup missed, and it has not written the entry yet. -/
def missed : Pc → Bool
  | .limit | .charge _ | .calling | .answered _ | .fallback _ | .store _ | .storeStale _ _
  | .storeEntry _ _ => true
  | _ => false

/-- A 401 answer was taken and the rejection is not in the cache yet. -/
def rejecting : Pc → Bool
  | .store entry | .storeEntry entry _ => !entry.ok
  | _ => false

/-- The cached entry a leader read or is about to write. -/
def held : Pc → Option CacheEntry
  | .storeStale entry _ | .storeEntry entry _ => some entry
  | _ => none

def outcome : Pc → Option Outcome
  | .storeStale _ o | .storeEntry _ o | .result o | .mark o | .unregister o | .close o | .done o =>
    some o
  | _ => none

theorem leads_of_missed {pc : Pc} (missed : pc.missed = true) : pc.leads = true := by
  cases pc <;> simp_all [Pc.missed, leads]

theorem missed_of_rejecting {pc : Pc} (rejecting : pc.rejecting = true) : pc.missed = true := by
  cases pc <;> simp_all [Pc.rejecting, missed]

theorem leads_of_held {pc : Pc} {entry : CacheEntry} (held : pc.held = some entry) :
    pc.leads = true := by
  cases pc <;> simp_all [Pc.held, leads]

end Pc

/-- The token was accepted for the workspace at `at_` and not rejected since. -/
def Supported (history : List Event) (token workspace : Str) (at_ : Int) : Prop :=
  ∃ j : Nat, history[j]? = some (.accepted token workspace at_) ∧
    ∀ (m : Nat) (t : Int), j < m → history[m]? ≠ some (.rejected token t)

def EntryFresh (history : List Event) (now : Int) (token : Str) (entry : CacheEntry) : Prop :=
  ∃ at_, entry.verifiedAt = some at_ ∧ at_ ≤ now ∧ Supported history token entry.workspace at_

/-- A positive entry ends with its first lifetime or, re-cached, by the stale deadline. -/
def EntryLife (cfg : Config) (entry : CacheEntry) : Prop :=
  ∃ at_, entry.verifiedAt = some at_ ∧ (entry.expires = at_ + cfg.cacheTTL ∨
    0 < cfg.maxStaleAge ∧ entry.expires ≤ at_ + cfg.maxStaleAge)

/-- The `i`-th event may decide the workspace at `t`. -/
def DecisionFresh (cfg : Config) (history : List Event) (i : Nat) (token workspace : Str)
    (t : Int) : Prop :=
  ∃ (j : Nat) (t' : Int), j < i ∧ history[j]? = some (.accepted token workspace t') ∧ t' ≤ t ∧
    t - t' ≤ max cfg.cacheTTL cfg.maxStaleAge ∧ (cfg.maxStaleAge = 0 → t - t' ≤ cfg.cacheTTL) ∧
    ∀ (m : Nat) (u : Int), j < m → m < i → history[m]? ≠ some (.rejected token u)

/-- The outcome repeats a decision of the history. -/
def Recorded (history : List Event) (token : Str) : Outcome → Prop
  | .verified workspace i => ∃ t, history[i]? = some (.decided token workspace t)
  | .failed _ => True

section History

variable {history history' : List Event} {token workspace : Str}

/-- The history grows without a rejection of the token. -/
structure Unrejected (history history' : List Event) (token : Str) : Prop where
  grown : history <+: history'
  quiet : ∀ (m : Nat) (t : Int), history.length ≤ m → history'[m]? ≠ some (.rejected token t)

theorem getElem?_grown (grown : history <+: history') {m : Nat} (old : m < history.length) :
    history'[m]? = history[m]? := by
  obtain ⟨later, rfl⟩ := grown
  exact List.getElem?_append_left old

theorem event_grown (grown : history <+: history') {m : Nat} {event : Event}
    (recorded : history[m]? = some event) : history'[m]? = some event :=
  (getElem?_grown grown (List.getElem?_eq_some_iff.mp recorded).1).trans recorded

theorem Unrejected.refl (history : List Event) (token : Str) : Unrejected history history token :=
  ⟨List.prefix_rfl, fun m t past => by simp [List.getElem?_eq_none past]⟩

theorem Unrejected.append {events : List Event} (quiet : ∀ t, .rejected token t ∉ events) :
    Unrejected history (history ++ events) token := by
  refine ⟨List.prefix_append history events, fun m t past rejected => quiet t ?_⟩
  rw [List.getElem?_append_right past] at rejected
  exact List.mem_of_getElem? rejected

theorem Supported.grow {at_ : Int} (supported : Supported history token workspace at_)
    (grown : Unrejected history history' token) : Supported history' token workspace at_ := by
  obtain ⟨j, accepted, quiet⟩ := supported
  refine ⟨j, event_grown grown.grown accepted, fun m t after rejected => ?_⟩
  by_cases old : m < history.length
  · exact quiet m t after (getElem?_grown grown.grown old ▸ rejected)
  · exact grown.quiet m t (Nat.le_of_not_lt old) rejected

theorem EntryFresh.grow {now now' : Int} {entry : CacheEntry}
    (fresh : EntryFresh history now token entry) (later : now ≤ now')
    (grown : Unrejected history history' token) : EntryFresh history' now' token entry := by
  obtain ⟨at_, verified, past, supported⟩ := fresh
  exact ⟨at_, verified, past.trans later, supported.grow grown⟩

theorem DecisionFresh.grow {cfg : Config} {i : Nat} {t : Int}
    (fresh : DecisionFresh cfg history i token workspace t) (known : i < history.length)
    (grown : history <+: history') : DecisionFresh cfg history' i token workspace t := by
  obtain ⟨j, t', before, accepted, past, age, ttl, quiet⟩ := fresh
  refine ⟨j, t', before, event_grown grown accepted, past, age, ttl, fun m u after upto => ?_⟩
  rw [getElem?_grown grown (upto.trans known)]
  exact quiet m u after upto

theorem Recorded.grow {o : Outcome} (recorded : Recorded history token o)
    (grown : history <+: history') : Recorded history' token o := by
  cases o with
  | failed err => trivial
  | verified w i =>
    obtain ⟨t, decided⟩ := recorded
    exact ⟨t, event_grown grown decided⟩

/-- A decision taken on a supported entry within its life. -/
theorem Supported.decide {cfg : Config} {at_ now : Int} {later : List Event}
    (supported : Supported history token workspace at_) (past : at_ ≤ now)
    (age : now ≤ at_ + cfg.cacheTTL ∨ 0 < cfg.maxStaleAge ∧ now ≤ at_ + cfg.maxStaleAge) :
    DecisionFresh cfg (history ++ later) history.length token workspace now := by
  obtain ⟨j, accepted, quiet⟩ := supported
  have known := (List.getElem?_eq_some_iff.mp accepted).1
  refine ⟨j, at_, known, event_grown (List.prefix_append _ _) accepted, past, ?_, ?_, ?_⟩
  · rcases age with age | ⟨-, age⟩ <;> omega
  · intro off
    rcases age with age | ⟨on, age⟩ <;> omega
  · intro m u after upto
    rw [getElem?_grown (List.prefix_append _ _) upto]
    exact quiet m u after

end History

/-- What the code promises about a positive cached entry: it is fresh, unless its
rejection is under way. -/
def EntryOk (cfg : Config) (s : State) (token : Str) (entry : CacheEntry) : Prop :=
  0 < cfg.cacheTTL ∧ EntryLife cfg entry ∧ (EntryFresh s.history s.now token entry ∨
    ∃ g x, s.goroutines g = some x ∧ x.token = token ∧ x.pc.rejecting = true)

/-- What holds of one goroutine at each place of the code. -/
structure Local (cfg : Config) (cacheKeyFor : Str → Str) (s : State) (g : Nat) (x : Goroutine) :
    Prop where
  leads : x.pc.leads = true → s.inflight (cacheKeyFor x.token) = some g
  waits : ∀ leader, x.pc = .wait leader → ∃ y, s.goroutines leader = some y ∧ y.token = x.token
  missed : x.pc.missed = true → live cfg s.now s.cache (cacheKeyFor x.token) = none
  held : ∀ entry, x.pc.held = some entry → entry.ok = true →
    EntryFresh s.history s.now x.token entry
  written : ∀ entry o, x.pc = .storeEntry entry o →
    0 < cfg.cacheTTL ∧ (entry.ok = true → EntryLife cfg entry)
  outcome : ∀ o, x.pc.outcome = some o → Recorded s.history x.token o

structure Invariant (cfg : Config) (cacheKeyFor : Str → Str) (tokens : Set Str) (s : State) :
    Prop where
  cache : s.cache.WellFormed
  presented : ∀ g x, s.goroutines g = some x → x.token ∈ tokens
  registered : ∀ k g, s.inflight k = some g →
    ∃ x, s.goroutines g = some x ∧ cacheKeyFor x.token = k
  each : ∀ g x, s.goroutines g = some x → Local cfg cacheKeyFor s g x
  calls : ∀ leader call o, s.calls leader = some call → call.result = some o →
    ∃ y, s.goroutines leader = some y ∧ Recorded s.history y.token o
  decisions : ∀ i token workspace t, s.history[i]? = some (.decided token workspace t) →
    DecisionFresh cfg s.history i token workspace t
  entries : ∀ token ∈ tokens, ∀ entry, s.cache.peek (cacheKeyFor token) = some entry →
    entry.ok = true → EntryOk cfg s token entry

variable {cfg : Config} {cacheKeyFor : Str → Str} {tokens : Set Str} {s s' : State} {g : Nat}
  {x x' : Goroutine}

/-- No goroutine forgets its token. -/
def TokensKept (s s' : State) : Prop :=
  ∀ h y, s.goroutines h = some y → ∃ y', s'.goroutines h = some y' ∧ y'.token = y.token

/-- What a leader of the token relies on is as it was, up to an eviction. -/
structure Undisturbed (cacheKeyFor : Str → Str) (s s' : State) (token : Str) : Prop where
  unrejected : Unrejected s.history s'.history token
  peek : ∀ entry, s'.cache.peek (cacheKeyFor token) = some entry →
    s.cache.peek (cacheKeyFor token) = some entry

theorem Local.keep (ok : Local cfg cacheKeyFor s g x) (later : s.now ≤ s'.now)
    (grown : s.history <+: s'.history) (kept : TokensKept s s')
    (leader : x.pc.leads = true → s'.inflight (cacheKeyFor x.token) = some g ∧
      Undisturbed cacheKeyFor s s' x.token) : Local cfg cacheKeyFor s' g x where
  leads := fun leads => (leader leads).1
  waits := fun c waiting => by
    obtain ⟨y, started, same⟩ := ok.waits c waiting
    obtain ⟨y', started', same'⟩ := kept c y started
    exact ⟨y', started', same'.trans same⟩
  missed := fun missed =>
    live_none_mono later (leader (Pc.leads_of_missed missed)).2.peek (ok.missed missed)
  held := fun entry holding positive =>
    (ok.held entry holding positive).grow later (leader (Pc.leads_of_held holding)).2.unrejected
  written := ok.written
  outcome := fun o settled => (ok.outcome o settled).grow grown

/-- One goroutine moves and only a leader touches what belongs to its token. -/
structure Moved (cacheKeyFor : Str → Str) (tokens : Set Str) (s s' : State) (g : Nat)
    (x x' : Goroutine) : Prop where
  goroutines : s'.goroutines = Function.update s.goroutines g (some x')
  token : x'.token = x.token
  now : s'.now = s.now
  cache : s'.cache.WellFormed
  grown : s.history <+: s'.history
  others : ∀ token ∈ tokens, (x.pc.leads = true → token ≠ x.token) →
    Undisturbed cacheKeyFor s s' token
  kept : ∀ k h, h ≠ g → s.inflight k = some h → s'.inflight k = some h
  origin : ∀ k h, s'.inflight k = some h → s.inflight k = some h ∨ h = g ∧ k = cacheKeyFor x.token
  calls : ∀ leader call o, s'.calls leader = some call → call.result = some o →
    (∃ call', s.calls leader = some call' ∧ call'.result = some o) ∨
      leader = g ∧ x'.pc.outcome = some o

theorem Moved.tokensKept (moved : Moved cacheKeyFor tokens s s' g x x')
    (here : s.goroutines g = some x) : TokensKept s s' := by
  intro h y started
  rw [moved.goroutines]
  by_cases same : h = g
  · subst same
    rw [here] at started
    exact ⟨x', Function.update_self .., by rw [moved.token, Option.some.inj started]⟩
  · exact ⟨y, by rw [Function.update_of_ne same, started], rfl⟩

/-- Two leaders of one token are one goroutine. -/
theorem Invariant.leader_unique (inv : Invariant cfg cacheKeyFor tokens s) {h : Nat}
    {y : Goroutine} (here : s.goroutines g = some x) (there : s.goroutines h = some y)
    (leads : x.pc.leads = true) (leads' : y.pc.leads = true) (same : y.token = x.token) : h = g := by
  have first := (inv.each g x here).leads leads
  have second := (inv.each h y there).leads leads'
  rw [same, first] at second
  exact (Option.some.inj second).symm

/-- A positive entry under a leader's own token is fresh, unless the leader itself is the
one to reject it. -/
theorem Invariant.entry_of_leader (inv : Invariant cfg cacheKeyFor tokens s)
    (here : s.goroutines g = some x) (leads : x.pc.leads = true) {entry : CacheEntry}
    (cached : s.cache.peek (cacheKeyFor x.token) = some entry) (positive : entry.ok = true) :
    0 < cfg.cacheTTL ∧ EntryLife cfg entry ∧
      (EntryFresh s.history s.now x.token entry ∨ x.pc.rejecting = true) := by
  obtain ⟨on, life, fresh | ⟨h, y, started, token, under⟩⟩ :=
    inv.entries x.token (inv.presented g x here) entry cached positive
  · exact ⟨on, life, .inl fresh⟩
  · obtain rfl := inv.leader_unique here started leads
      (Pc.leads_of_missed (Pc.missed_of_rejecting under)) token
    obtain rfl := Option.some.inj (here.symm.trans started)
    exact ⟨on, life, .inr under⟩

/-- The obligations of a move are about the goroutine that moved and its own token. -/
theorem Invariant.move (inv : Invariant cfg cacheKeyFor tokens s) (x' : Goroutine)
    (here : s.goroutines g = some x)
    (moved : Moved cacheKeyFor tokens s s' g x x') (own : Local cfg cacheKeyFor s' g x')
    (decisions : ∀ i token workspace t, s.history.length ≤ i →
      s'.history[i]? = some (.decided token workspace t) →
      DecisionFresh cfg s'.history i token workspace t)
    (entries : x.pc.leads = true → ∀ entry, s'.cache.peek (cacheKeyFor x.token) = some entry →
      entry.ok = true → EntryOk cfg s' x.token entry) :
    Invariant cfg cacheKeyFor tokens s' := by
  have kept := moved.tokensKept here
  have later : s.now ≤ s'.now := by rw [moved.now]
  -- a goroutine of the new state is the mover or an old one
  have cases : ∀ h y, s'.goroutines h = some y →
      (h = g ∧ y = x') ∨ (h ≠ g ∧ s.goroutines h = some y) := by
    intro h y started
    rw [moved.goroutines] at started
    rcases Steps.update_eq_some started with ⟨rfl, ⟨⟩⟩ | other
    exacts [.inl ⟨rfl, rfl⟩, .inr other]
  refine ⟨moved.cache, ?_, ?_, ?_, ?_, ?_, ?_⟩
  · intro h y started
    rcases cases h y started with ⟨rfl, rfl⟩ | ⟨-, old⟩
    · rw [moved.token]
      exact inv.presented h x here
    · exact inv.presented h y old
  · intro k h registered
    rcases moved.origin k h registered with old | ⟨rfl, rfl⟩
    · obtain ⟨y, started, rfl⟩ := inv.registered k h old
      obtain ⟨y', started', same⟩ := kept h y started
      exact ⟨y', started', by rw [same]⟩
    · obtain ⟨y', started', same⟩ := kept h x here
      exact ⟨y', started', by rw [same]⟩
  · intro h y started
    rcases cases h y started with ⟨rfl, rfl⟩ | ⟨other, old⟩
    · exact own
    · refine (inv.each h y old).keep later moved.grown kept fun leads => ?_
      refine ⟨moved.kept _ h other ((inv.each h y old).leads leads), ?_⟩
      refine moved.others y.token (inv.presented h y old) fun leads' same => ?_
      exact other (inv.leader_unique here old leads' leads same)
  · intro leader call o known settled
    rcases moved.calls leader call o known settled with ⟨call', known', settled'⟩ | ⟨rfl, settled'⟩
    · obtain ⟨y, started, recorded⟩ := inv.calls leader call' o known' settled'
      obtain ⟨y', started', same⟩ := kept leader y started
      exact ⟨y', started', by rw [same]; exact recorded.grow moved.grown⟩
    · exact ⟨x', by rw [moved.goroutines, Function.update_self], own.outcome o settled'⟩
  · intro i token workspace t decided
    by_cases old : i < s.history.length
    · rw [getElem?_grown moved.grown old] at decided
      exact (inv.decisions i token workspace t decided).grow old moved.grown
    · exact decisions i token workspace t (Nat.le_of_not_lt old) decided
  · intro token presented entry cached positive
    by_cases mine : x.pc.leads = true ∧ token = x.token
    · obtain ⟨leads, rfl⟩ := mine
      exact entries leads entry cached positive
    · have still := moved.others token presented fun leads same => mine ⟨leads, same⟩
      obtain ⟨on, life, fresh | ⟨h, y, started, rfl, rejecting⟩⟩ :=
        inv.entries token presented entry (still.peek entry cached) positive
      · exact ⟨on, life, .inl (fresh.grow later still.unrejected)⟩
      · -- the rejecting leader is not the mover, so its rejection is still under way
        refine ⟨on, life, .inr ⟨h, y, ?_, rfl, rejecting⟩⟩
        rw [moved.goroutines, Function.update_of_ne, started]
        rintro rfl
        rw [here] at started
        cases Option.some.inj started
        exact mine ⟨Pc.leads_of_missed (Pc.missed_of_rejecting rejecting), rfl⟩

/-- The state before the goroutine's own move differs from the old one at most in recency,
in accepted and decided events and in the goroutine's own call. -/
structure Observes (s base : State) : Prop where
  goroutines : base.goroutines = s.goroutines
  now : base.now = s.now
  inflight : base.inflight = s.inflight
  cache : base.cache.WellFormed
  peek : ∀ k, base.cache.peek k = s.cache.peek k
  history : ∀ token, Unrejected s.history base.history token

theorem Invariant.observes_self (inv : Invariant cfg cacheKeyFor tokens s) : Observes s s :=
  ⟨rfl, rfl, rfl, inv.cache, fun _ => rfl, Unrejected.refl s.history⟩

theorem Observes.record {base : State} (observes : Observes s base) {events : List Event}
    (quiet : ∀ token t, .rejected token t ∉ events) : Observes s (base.record events) where
  goroutines := observes.goroutines
  now := observes.now
  inflight := observes.inflight
  cache := observes.cache
  peek := observes.peek
  history := fun token => by
    have more : Unrejected base.history (base.history ++ events) token := .append (quiet token)
    refine ⟨(observes.history token).grown.trans more.grown, fun m t past rejected => ?_⟩
    by_cases known : m < base.history.length
    · rw [show (base.record events).history[m]? = base.history[m]? from
        getElem?_grown more.grown known] at rejected
      exact (observes.history token).quiet m t past rejected
    · exact more.quiet m t (Nat.le_of_not_lt known) rejected

theorem Observes.decide {base : State} (observes : Observes s base) (token workspace : Str) :
    Observes s (base.decide token workspace).1 := observes.record (by simp)

theorem recorded_decide (s : State) (token workspace : Str) :
    Recorded (s.decide token workspace).1.history token (s.decide token workspace).2 :=
  ⟨s.now, by simp [State.decide, State.record]⟩

theorem Observes.undisturbed {base : State} (observes : Observes s base) (token : Str) :
    Undisturbed cacheKeyFor s base token :=
  ⟨observes.history token, fun _ cached => by rw [← observes.peek]; exact cached⟩

theorem Local.observe {base : State} {y : Goroutine} (ok : Local cfg cacheKeyFor s g y)
    (observes : Observes s base) : Local cfg cacheKeyFor base g y := by
  refine ok.keep (by rw [observes.now]) (observes.history y.token).grown ?_ fun leads => ?_
  · intro h z started
    exact ⟨z, by rw [observes.goroutines, started], rfl⟩
  · exact ⟨by rw [observes.inflight, ok.leads leads], observes.undisturbed y.token⟩

theorem Local.goto {y : Goroutine} (ok : Local cfg cacheKeyFor s g y)
    (here : s.goroutines g = some x) (pc : Pc) : Local cfg cacheKeyFor (s.goto g x pc) g y := by
  refine ok.keep (Int.le_refl _) List.prefix_rfl ?_ fun leads =>
    ⟨ok.leads leads, Unrejected.refl _ _, fun _ cached => cached⟩
  intro h z started
  by_cases same : h = g
  · subst same
    rw [here] at started
    exact ⟨{ x with pc := pc }, Function.update_self .., by rw [← Option.some.inj started]⟩
  · exact ⟨z, (Function.update_of_ne same ..).trans started, rfl⟩

/-- A move that touches no entry and rejects nobody. -/
theorem Invariant.observe (inv : Invariant cfg cacheKeyFor tokens s)
    (here : s.goroutines g = some x) {base : State} {pc : Pc} (observes : Observes s base)
    (calls : ∀ leader call o, base.calls leader = some call → call.result = some o →
      (∃ call', s.calls leader = some call' ∧ call'.result = some o) ∨
        leader = g ∧ pc.outcome = some o)
    (rejecting : x.pc.rejecting = true → 0 < cfg.cacheTTL → pc.rejecting = true)
    (own : Local cfg cacheKeyFor base g { x with pc := pc })
    (decisions : ∀ i token workspace t, s.history.length ≤ i →
      base.history[i]? = some (.decided token workspace t) →
      DecisionFresh cfg base.history i token workspace t) :
    Invariant cfg cacheKeyFor tokens (base.goto g x pc) := by
  have same : ∀ token, Undisturbed cacheKeyFor s (base.goto g x pc) token := fun token =>
    ⟨observes.history token, (observes.undisturbed token).peek⟩
  refine inv.move { x with pc := pc } here
    ⟨by rw [← observes.goroutines]; rfl, rfl, observes.now, observes.cache,
      (same x.token).unrejected.grown, fun token _ _ => same token,
      fun k h _ registered => by rw [← observes.inflight] at registered; exact registered,
      fun k h registered => .inl (by rw [← observes.inflight]; exact registered), calls⟩
    (own.goto (observes.goroutines ▸ here) pc) decisions fun leads entry cached positive => ?_
  obtain ⟨on, life, fresh | under⟩ :=
    inv.entry_of_leader here leads ((same x.token).peek entry cached) positive
  · exact ⟨on, life, .inl (fresh.grow (by rw [← observes.now]; rfl) (same x.token).unrejected)⟩
  · exact ⟨on, life, .inr ⟨g, { x with pc := pc }, Function.update_self .., rfl,
      rejecting under on⟩⟩

/-- A goroutine goes on to a place that asks no more of the state than the last one did. -/
theorem Local.next (ok : Local cfg cacheKeyFor s g x) (pc : Pc)
    (leads : pc.leads = true → x.pc.leads = true) (missed : pc.missed = true → x.pc.missed = true)
    (waits : ∀ leader, pc = .wait leader → ∃ y, s.goroutines leader = some y ∧ y.token = x.token)
    (held : ∀ entry, pc.held = some entry → entry.ok = true →
      EntryFresh s.history s.now x.token entry)
    (written : ∀ entry o, pc = .storeEntry entry o →
      0 < cfg.cacheTTL ∧ (entry.ok = true → EntryLife cfg entry))
    (outcome : ∀ o, pc.outcome = some o → Recorded s.history x.token o) :
    Local cfg cacheKeyFor s g { x with pc := pc } where
  leads := fun h => ok.leads (leads h)
  waits := waits
  missed := fun h => ok.missed (missed h)
  held := held
  written := written
  outcome := outcome

/-- Places that hold no entry and no outcome. -/
theorem Local.silent (ok : Local cfg cacheKeyFor s g x) (pc : Pc)
    (leads : pc.leads = true → x.pc.leads = true) (missed : pc.missed = true → x.pc.missed = true)
    (waits : ∀ leader, pc ≠ .wait leader) (held : pc.held = none) (outcome : pc.outcome = none) :
    Local cfg cacheKeyFor s g { x with pc := pc } := by
  refine ok.next pc leads missed (fun leader at_ => absurd at_ (waits leader)) ?_ ?_ ?_
  · intro entry holding
    rw [held] at holding
    cases holding
  · rintro entry o rfl
    cases held
  · intro o settled
    rw [outcome] at settled
    cases settled

/-- Places past the last write, with an outcome the history knows. -/
theorem Local.settled (ok : Local cfg cacheKeyFor s g x) (pc : Pc) {o : Outcome}
    (leads : pc.leads = true → x.pc.leads = true) (missed : pc.missed = false)
    (waits : ∀ leader, pc ≠ .wait leader) (held : pc.held = none) (outcome : pc.outcome = some o)
    (recorded : Recorded s.history x.token o) : Local cfg cacheKeyFor s g { x with pc := pc } := by
  refine ok.next pc leads (fun h => absurd h (by simp [missed]))
    (fun leader at_ => absurd at_ (waits leader)) ?_ ?_ ?_
  · intro entry holding
    rw [held] at holding
    cases holding
  · rintro entry o rfl
    cases held
  · intro o' settled
    rw [outcome] at settled
    exact Option.some.inj settled ▸ recorded

theorem Invariant.stay (inv : Invariant cfg cacheKeyFor tokens s)
    (here : s.goroutines g = some x) {base : State} {pc : Pc} (observes : Observes s base)
    (history : base.history = s.history)
    (calls : ∀ leader call o, base.calls leader = some call → call.result = some o →
      (∃ call', s.calls leader = some call' ∧ call'.result = some o) ∨
        leader = g ∧ pc.outcome = some o)
    (rejecting : x.pc.rejecting = true → 0 < cfg.cacheTTL → pc.rejecting = true)
    (own : Local cfg cacheKeyFor s g { x with pc := pc }) :
    Invariant cfg cacheKeyFor tokens (base.goto g x pc) := by
  refine inv.observe here observes calls rejecting (own.observe observes) ?_
  intro i token workspace t past decided
  rw [history, List.getElem?_eq_none past] at decided
  cases decided

theorem Invariant.goto (inv : Invariant cfg cacheKeyFor tokens s)
    (here : s.goroutines g = some x) {pc : Pc}
    (rejecting : x.pc.rejecting = true → 0 < cfg.cacheTTL → pc.rejecting = true)
    (own : Local cfg cacheKeyFor s g { x with pc := pc }) :
    Invariant cfg cacheKeyFor tokens (s.goto g x pc) :=
  inv.stay here inv.observes_self rfl (fun _ call _ known settled => .inl ⟨call, known, settled⟩)
    rejecting own

/-- The leader writes to its own call and nothing else. -/
theorem Invariant.updateCall (inv : Invariant cfg cacheKeyFor tokens s)
    (here : s.goroutines g = some x) {pc : Pc} (f : VerifyCall → VerifyCall) {o : Outcome}
    (outcome : pc.outcome = some o)
    (results : ∀ call, (f call).result = call.result ∨ (f call).result = some o)
    (rejecting : x.pc.rejecting = false) (own : Local cfg cacheKeyFor s g { x with pc := pc }) :
    Invariant cfg cacheKeyFor tokens ((s.updateCall g f).goto g x pc) := by
  have observes : Observes s (s.updateCall g f) :=
    ⟨rfl, rfl, rfl, inv.cache, fun _ => rfl, Unrejected.refl s.history⟩
  refine inv.stay here observes rfl ?_ (fun h => absurd h (by simp [rejecting])) own
  intro leader call o' known settled
  by_cases mine : leader = g
  · subst mine
    rw [show (s.updateCall leader f).calls leader = (s.calls leader).map f from
      Function.update_self .., Option.map_eq_some_iff] at known
    obtain ⟨old, known, rfl⟩ := known
    rcases results old with kept | written
    · exact .inl ⟨old, known, by rw [← kept]; exact settled⟩
    · exact .inr ⟨rfl, by rw [outcome, ← written, settled]⟩
  · rw [show (s.updateCall g f).calls leader = s.calls leader from
      Function.update_of_ne mine ..] at known
    exact .inl ⟨call, known, settled⟩

/-- A workspace is decided and recorded on a supported verification. -/
theorem Invariant.decide (inv : Invariant cfg cacheKeyFor tokens s)
    (here : s.goroutines g = some x) {base : State} {pc : Pc} (observes : Observes s base)
    (calls : base.calls = s.calls) {workspace : Str} {at_ : Int}
    (known : ∀ i token w t, s.history.length ≤ i →
      base.history[i]? ≠ some (.decided token w t))
    (supported : Supported base.history x.token workspace at_) (past : at_ ≤ s.now)
    (age : s.now ≤ at_ + cfg.cacheTTL ∨ 0 < cfg.maxStaleAge ∧ s.now ≤ at_ + cfg.maxStaleAge)
    (rejecting : x.pc.rejecting = false)
    (own : Local cfg cacheKeyFor (base.decide x.token workspace).1 g { x with pc := pc }) :
    Invariant cfg cacheKeyFor tokens ((base.decide x.token workspace).1.goto g x pc) := by
  refine inv.observe here (observes.decide x.token workspace) ?_
    (fun h => absurd h (by simp [rejecting])) own ?_
  · intro leader call o called settled
    refine .inl ⟨call, ?_, settled⟩
    rw [← calls]
    exact called
  · intro i token w t later decided
    rw [show (base.decide x.token workspace).1.history =
      base.history ++ [.decided x.token workspace base.now] from rfl] at decided ⊢
    by_cases old : i < base.history.length
    · rw [List.getElem?_append_left old] at decided
      exact absurd decided (known i token w t later)
    · -- the only new event is the decision itself
      have at_end : i = base.history.length := by
        have bound := (List.getElem?_eq_some_iff.mp decided).1
        simp only [List.length_append, List.length_cons, List.length_nil] at bound
        omega
      subst at_end
      rw [List.getElem?_append_right (Nat.le_refl _), Nat.sub_self] at decided
      cases Option.some.inj decided
      rw [observes.now]
      exact supported.decide past age

end Tracium.Auth
