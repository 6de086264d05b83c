import Tracium.Go.Net
import Tracium.Steps

/-! middleware.RateLimiter.isNamedProxy over any interleaving of requests. A snapshot is
trusted until a refresh replaces it. Only a request that becomes the refresher acts on its
expiry, so while it refreshes the others trust a snapshot of any age. Times are
nanoseconds; a critical section is one action. -/
namespace Tracium.RateLimit

open Go Steps

/-- The names of the dns: entries, as NewRateLimiter collects them. -/
def proxyNames (trustedProxies : List Str) : List Str :=
  (trustedProxies.map trimSpace).filterMap fun entry =>
    if hasPrefix entry (lit "dns:") && entry != lit "dns:" then some (entry.drop 4) else none

def second : Int := 1000000000

/-- A refresh that is over, and what each of its lookups returned. -/
structure Refresh where
  finished : Int
  lookups : List (Option (List IP))

/-- The addresses refreshProxies collects; a lookup that failed adds none. -/
def gathered (lookups : List (Option (List IP))) : List IP := lookups.flatMap fun l => l.getD []

/-- Where a request stands: still looking names up, or answered. -/
inductive Lookup
  | refreshing (names : List Str) (lookups : List (Option (List IP)))
  | done (accepted : Bool)

structure Check where
  ip : IP
  at_ : Lookup

structure NamedProxies where
  proxyIPs : List IP
  /-- `none` is the zero time, which is over. -/
  proxyExpires : Option Int
  proxyRefreshing : Bool
  requests : Nat → Option Check
  clock : Int
  -- what has happened, which no step reads: the refreshes that are over, the latest
  -- first, who refreshes since when, and when requests looked at the snapshot
  refreshes : List Refresh
  refresher : Option (Nat × Int)
  checks : List Int

def newNamedProxies (clock : Int) : NamedProxies where
  proxyIPs := []
  proxyExpires := none
  proxyRefreshing := false
  requests := fun _ => none
  clock := clock
  refreshes := []
  refresher := none
  checks := []

inductive ProxyAction
  /-- The first critical section of isNamedProxy. -/
  | check (request : Nat) (ip : IP) (now : Int)
  /-- The next lookup of a refresh. -/
  | lookup (request : Nat) (result : Option (List IP)) (now : Int)
  /-- The critical section of refreshProxies. -/
  | finish (request : Nat) (now : Int)

def ProxyAction.time : ProxyAction → Int
  | .check _ _ now => now
  | .lookup _ _ now => now
  | .finish _ now => now

/-- The loop over the addresses at the end of isNamedProxy. -/
def includes (addresses : List IP) (ip : IP) : Bool := addresses.any fun address => address.equal ip

namespace NamedProxies

def expired (s : NamedProxies) (now : Int) : Bool :=
  match s.proxyExpires with
  | none => true
  | some expires => ¬now < expires

def put (s : NamedProxies) (request : Nat) (ip : IP) (at_ : Lookup) : NamedProxies :=
  { s with requests := Function.update s.requests request (some ⟨ip, at_⟩) }

/-- What an enabled action does once the clock has come to its time. -/
def act (proxyNames : List Str) (s : NamedProxies) : ProxyAction → Option NamedProxies
  | .check request ip now =>
    if (s.requests request).isSome then none
    else if proxyNames = [] then some (s.put request ip (.done false))
    else
      let s := { s with checks := now :: s.checks }
      if ¬s.proxyRefreshing ∧ s.expired now then
        some ({ s with proxyRefreshing := true, refresher := some (request, now) }.put request ip
          (.refreshing proxyNames []))
      else some (s.put request ip (.done (includes s.proxyIPs ip)))
  | .lookup request result _ =>
    match s.requests request with
    | some ⟨ip, .refreshing (_ :: names) lookups⟩ =>
      some (s.put request ip (.refreshing names (lookups ++ [result])))
    | _ => none
  | .finish request now =>
    match s.requests request with
    | some ⟨ip, .refreshing [] lookups⟩ =>
      some ({ s with
        proxyIPs := gathered lookups
        proxyExpires := some (now + 5 * second)
        proxyRefreshing := false
        refreshes := ⟨now, lookups⟩ :: s.refreshes
        refresher := none }.put request ip (.done (includes (gathered lookups) ip)))
    | _ => none

def step (proxyNames : List Str) (s : NamedProxies) (a : ProxyAction) : Option NamedProxies :=
  if a.time < s.clock then none else act proxyNames { s with clock := a.time } a

variable {names : List Str} {s s' : NamedProxies} {a : ProxyAction} {request : Nat} {ip : IP}
  {now : Int}

/-- Everything an enabled action can do. -/
theorem act_cases (acted : act names s a = some s') :
    (∃ request ip now, a = .check request ip now ∧ s.requests request = none ∧
      s' = s.put request ip (.done false)) ∨
    (∃ request ip now, a = .check request ip now ∧ s.requests request = none ∧
      s.proxyRefreshing = false ∧ s.expired now = true ∧
      s' = { s with
        checks := now :: s.checks
        proxyRefreshing := true
        refresher := some (request, now) }.put request ip (.refreshing names [])) ∨
    (∃ request ip now, a = .check request ip now ∧ s.requests request = none ∧
      ¬(s.proxyRefreshing = false ∧ s.expired now = true) ∧
      s' = { s with checks := now :: s.checks }.put request ip
        (.done (includes s.proxyIPs ip))) ∨
    (∃ request ip now name rest lookups result, a = .lookup request result now ∧
      s.requests request = some ⟨ip, .refreshing (name :: rest) lookups⟩ ∧
      s' = s.put request ip (.refreshing rest (lookups ++ [result]))) ∨
    ∃ request ip now lookups, a = .finish request now ∧
      s.requests request = some ⟨ip, .refreshing [] lookups⟩ ∧
      s' = { s with
        proxyIPs := gathered lookups
        proxyExpires := some (now + 5 * second)
        proxyRefreshing := false
        refreshes := ⟨now, lookups⟩ :: s.refreshes
        refresher := none }.put request ip (.done (includes (gathered lookups) ip)) := by
  cases a with
  | check request ip now =>
    simp only [act] at acted
    split at acted
    · cases acted
    · rename_i fresh
      have absent : s.requests request = none := by simpa using fresh
      split at acted
      · exact .inl ⟨request, ip, now, rfl, absent, (Option.some.inj acted).symm⟩
      · split at acted
        · rename_i begins
          exact .inr (.inl ⟨request, ip, now, rfl, absent, by simpa using begins.1, begins.2,
            (Option.some.inj acted).symm⟩)
        · rename_i keeps
          exact .inr (.inr (.inl ⟨request, ip, now, rfl, absent,
            fun both => keeps ⟨by simpa using both.1, both.2⟩, (Option.some.inj acted).symm⟩))
  | lookup request result now =>
    simp only [act] at acted
    split at acted
    · rename_i ip name rest lookups here
      exact .inr (.inr (.inr (.inl ⟨request, ip, now, name, rest, lookups, result, rfl, here,
        (Option.some.inj acted).symm⟩)))
    · cases acted
  | finish request now =>
    simp only [act] at acted
    split at acted
    · rename_i ip lookups here
      exact .inr (.inr (.inr (.inr ⟨request, ip, now, lookups, rfl, here,
        (Option.some.inj acted).symm⟩)))
    · cases acted

theorem step_act (stepped : step names s a = some s') :
    s.clock ≤ a.time ∧ act names { s with clock := a.time } a = some s' := by
  unfold step at stepped
  split at stepped
  · cases stepped
  · rename_i on
    exact ⟨Int.not_lt.mp on, stepped⟩

/-! What is always so. -/

/-- The latest refresh that is over. -/
def latest (s : NamedProxies) : Option Refresh := s.refreshes.head?

/-- The snapshot and its expiry are those of the latest refresh; one request refreshes at a
time; and no request has looked at the snapshot between its expiry and the start of the
refresh that replaces it. -/
structure Sound (s : NamedProxies) : Prop where
  snapshot : s.proxyIPs = (s.latest.map fun r => gathered r.lookups).getD []
  expires : s.proxyExpires = s.latest.map fun r => r.finished + 5 * second
  busy : s.proxyRefreshing = s.refresher.isSome
  owner : ∀ i began, s.refresher = some (i, began) →
    ∃ ip names lookups, s.requests i = some ⟨ip, .refreshing names lookups⟩
  alone : ∀ i ip names lookups, s.requests i = some ⟨ip, .refreshing names lookups⟩ →
    ∃ began, s.refresher = some (i, began)
  began : ∀ i began, s.refresher = some (i, began) →
    began ≤ s.clock ∧ ∀ r, s.latest = some r → r.finished + 5 * second ≤ began
  checked : ∀ c ∈ s.checks, c ≤ s.clock ∧ ∀ r, s.latest = some r →
    c < r.finished + 5 * second ∨ ∃ i began, s.refresher = some (i, began) ∧ began ≤ c

theorem Sound.new (clock : Int) : (newNamedProxies clock).Sound where
  snapshot := rfl
  expires := rfl
  busy := rfl
  owner := by simp [newNamedProxies]
  alone := by simp [newNamedProxies]
  began := by simp [newNamedProxies]
  checked := by simp [newNamedProxies]

theorem Sound.later (sound : s.Sound) (le : s.clock ≤ now) : { s with clock := now }.Sound := by
  refine ⟨sound.snapshot, sound.expires, sound.busy, sound.owner, sound.alone, ?_, ?_⟩
  · intro i began refreshing
    obtain ⟨past, late⟩ := sound.began i began refreshing
    exact ⟨Int.le_trans past le, late⟩
  · intro c member
    obtain ⟨past, outside⟩ := sound.checked c member
    exact ⟨Int.le_trans past le, outside⟩

theorem put_requests (s : NamedProxies) (request i : Nat) (ip : IP) (at_ : Lookup) :
    (s.put request ip at_).requests i =
      if i = request then some ⟨ip, at_⟩ else s.requests i :=
  Function.update_apply s.requests request (some ⟨ip, at_⟩) i

/-- The snapshot of a refresh is over five seconds after it. -/
theorem Sound.expired_iff (sound : s.Sound) {r : Refresh} (latest : s.latest = some r) (now : Int) :
    s.expired now = true ↔ r.finished + 5 * second ≤ now := by
  have expires := sound.expires
  rw [latest] at expires
  simp [expired, expires]

/-- A request that is answered without a refresh. -/
theorem Sound.answer (sound : s.Sound) (absent : s.requests request = none) (accepted : Bool) :
    (s.put request ip (.done accepted)).Sound := by
  refine ⟨sound.snapshot, sound.expires, sound.busy, ?_, ?_, sound.began, sound.checked⟩
  · intro i began refreshing
    obtain ⟨ip', names, lookups, here⟩ := sound.owner i began refreshing
    have apart : i ≠ request := by
      rintro rfl
      rw [absent] at here
      cases here
    exact ⟨ip', names, lookups, by rw [put_requests, if_neg apart, here]⟩
  · intro i ip' names lookups here
    rw [put_requests] at here
    split at here
    · cases here
    · exact sound.alone i ip' names lookups here

theorem Sound.check (sound : s.Sound) (kept : ¬(s.proxyRefreshing = false ∧ s.expired s.clock = true)) :
    { s with checks := s.clock :: s.checks }.Sound := by
  refine ⟨sound.snapshot, sound.expires, sound.busy, sound.owner, sound.alone, sound.began, ?_⟩
  intro c member
  rcases List.mem_cons.mp member with rfl | earlier
  · refine ⟨Int.le_refl _, ?_⟩
    intro r latest
    cases refreshing : s.refresher with
    | none =>
      have idle : s.proxyRefreshing = false := by rw [sound.busy, refreshing]; rfl
      left
      exact Int.not_le.mp fun late => kept ⟨idle, (sound.expired_iff latest s.clock).mpr late⟩
    | some pair => exact .inr ⟨pair.1, pair.2, rfl, (sound.began pair.1 pair.2 refreshing).1⟩
  · exact sound.checked c earlier

theorem Sound.begin (sound : s.Sound) (idle : s.proxyRefreshing = false)
    (over_ : s.expired s.clock = true) :
    ({ s with
      checks := s.clock :: s.checks
      proxyRefreshing := true
      refresher := some (request, s.clock) }.put request ip (.refreshing names [])).Sound := by
  have free : s.refresher = none := by
    have busy := sound.busy
    rw [idle] at busy
    exact Option.not_isSome_iff_eq_none.mp (by rw [← busy]; decide)
  have late : ∀ r, s.latest = some r → r.finished + 5 * second ≤ s.clock := fun r latest =>
    (sound.expired_iff latest s.clock).mp over_
  refine ⟨sound.snapshot, sound.expires, rfl, ?_, ?_, ?_, ?_⟩
  · rintro i began ⟨⟩
    exact ⟨ip, names, [], by rw [put_requests, if_pos rfl]⟩
  · intro i ip' names' lookups here
    rw [put_requests] at here
    split at here
    · rename_i own
      exact ⟨s.clock, by rw [own]; rfl⟩
    · obtain ⟨began, refreshing⟩ := sound.alone i ip' names' lookups here
      rw [free] at refreshing
      cases refreshing
  · rintro i began ⟨⟩
    exact ⟨Int.le_refl _, late⟩
  · intro c member
    rcases List.mem_cons.mp member with rfl | earlier
    · exact ⟨Int.le_refl _, fun r _ => .inr ⟨request, s.clock, rfl, Int.le_refl _⟩⟩
    · obtain ⟨past, outside⟩ := sound.checked c earlier
      refine ⟨past, ?_⟩
      intro r latest
      rcases outside r latest with before | ⟨i, began, refreshing, _⟩
      · exact .inl before
      · rw [free] at refreshing
        cases refreshing

theorem Sound.lookup (sound : s.Sound) {rest rest' : List Str} {lookups lookups' : List (Option (List IP))}
    (here : s.requests request = some ⟨ip, .refreshing rest lookups⟩) :
    (s.put request ip (.refreshing rest' lookups')).Sound := by
  refine ⟨sound.snapshot, sound.expires, sound.busy, ?_, ?_, sound.began, sound.checked⟩
  · intro i began refreshing
    by_cases own : i = request
    · exact ⟨ip, rest', lookups', by rw [put_requests, if_pos own]⟩
    · obtain ⟨ip', names, lookups, other⟩ := sound.owner i began refreshing
      exact ⟨ip', names, lookups, by rw [put_requests, if_neg own, other]⟩
  · intro i ip' names' lookups'' found
    rw [put_requests] at found
    split at found
    · rename_i own
      exact own ▸ sound.alone request ip rest lookups here
    · exact sound.alone i ip' names' lookups'' found

theorem Sound.finish (sound : s.Sound) {lookups : List (Option (List IP))} {accepted : Bool}
    (here : s.requests request = some ⟨ip, .refreshing [] lookups⟩) :
    ({ s with
      proxyIPs := gathered lookups
      proxyExpires := some (s.clock + 5 * second)
      proxyRefreshing := false
      refreshes := ⟨s.clock, lookups⟩ :: s.refreshes
      refresher := none }.put request ip (.done accepted)).Sound := by
  refine ⟨rfl, rfl, rfl, ?_, ?_, ?_, ?_⟩
  · rintro i began ⟨⟩
  · intro i ip' names' lookups' found
    rw [put_requests] at found
    split at found
    · cases found
    · rename_i other
      -- only one request refreshes
      obtain ⟨began, own⟩ := sound.alone request ip [] lookups here
      obtain ⟨began', also⟩ := sound.alone i ip' names' lookups' found
      rw [own] at also
      cases also
      exact absurd rfl other
  · rintro i began ⟨⟩
  · intro c member
    have past := (sound.checked c member).1
    refine ⟨past, ?_⟩
    rintro r ⟨⟩
    left
    simp only [second]
    omega

theorem Sound.act (sound : s.Sound) (present : a.time = s.clock) (acted : act names s a = some s') :
    s'.Sound := by
  rcases act_cases acted with ⟨request, ip, now, rfl, absent, rfl⟩ |
    ⟨request, ip, now, rfl, absent, idle, over_, rfl⟩ | ⟨request, ip, now, rfl, absent, kept, rfl⟩ |
    ⟨request, ip, now, name, rest, lookups, result, rfl, here, rfl⟩ |
    ⟨request, ip, now, lookups, rfl, here, rfl⟩
  · exact sound.answer absent false
  · obtain rfl : now = s.clock := present
    exact sound.begin idle over_
  · obtain rfl : now = s.clock := present
    exact (sound.check kept).answer absent _
  · exact sound.lookup here
  · obtain rfl : now = s.clock := present
    exact sound.finish here

theorem Sound.step (sound : s.Sound) (stepped : step names s a = some s') : s'.Sound := by
  obtain ⟨on, acted⟩ := step_act stepped
  exact (sound.later on).act rfl acted

theorem Sound.run (sound : s.Sound) {actions : List ProxyAction}
    (ran : run (NamedProxies.step names) s actions = some s') : s'.Sound :=
  run_invariant_along (fun _ _ _ before _ stepped => before.step stepped) (along_always _ _) ran sound

/-- Refreshes are only added. -/
theorem refreshes_step (stepped : NamedProxies.step names s a = some s') :
    ∃ newer, s'.refreshes = newer ++ s.refreshes := by
  obtain ⟨-, acted⟩ := step_act stepped
  rcases act_cases acted with ⟨request, ip, now, -, -, rfl⟩ | ⟨request, ip, now, -, -, -, -, rfl⟩ |
    ⟨request, ip, now, -, -, -, rfl⟩ | ⟨request, ip, now, name, rest, lookups, result, -, -, rfl⟩ |
    ⟨request, ip, now, lookups, -, -, rfl⟩
  · exact ⟨[], rfl⟩
  · exact ⟨[], rfl⟩
  · exact ⟨[], rfl⟩
  · exact ⟨[], rfl⟩
  · exact ⟨[⟨now, lookups⟩], rfl⟩

theorem refreshes_run {actions : List ProxyAction}
    (ran : Steps.run (NamedProxies.step names) s actions = some s') :
    ∃ newer, s'.refreshes = newer ++ s.refreshes := by
  induction actions generalizing s with
  | nil =>
    cases ran
    exact ⟨[], rfl⟩
  | cons a rest ih =>
    obtain ⟨middle, stepped, later⟩ := run_cons ran
    obtain ⟨first, grown⟩ := refreshes_step stepped
    obtain ⟨newer, grown'⟩ := ih later
    exact ⟨newer ++ first, by rw [grown', grown, List.append_assoc]⟩

end NamedProxies

/-! Which refresh an accepted address comes from. -/

def Refresh.Returned (r : Refresh) (ip : IP) : Prop :=
  ∃ addresses, some addresses ∈ r.lookups ∧ ∃ address ∈ addresses, address.equal ip = true

def Refresh.Failed (r : Refresh) : Prop := ∀ result ∈ r.lookups, result = none

theorem Refresh.Failed.not_returned {r : Refresh} (failed : r.Failed) (ip : IP) : ¬r.Returned ip := by
  rintro ⟨addresses, member, -⟩
  have none := failed (some addresses) member
  cases none

theorem includes_gathered (r : Refresh) (ip : IP) :
    includes (gathered r.lookups) ip = true ↔ r.Returned ip := by
  rw [includes, List.any_eq_true]
  constructor
  · rintro ⟨address, member, same⟩
    obtain ⟨result, looked, inside⟩ := List.mem_flatMap.mp member
    cases result with
    | none => simp at inside
    | some addresses => exact ⟨addresses, looked, address, inside, same⟩
  · rintro ⟨addresses, looked, address, inside, same⟩
    exact ⟨address, List.mem_flatMap.mpr ⟨some addresses, looked, inside⟩, same⟩

namespace NamedProxies

/-- The request's last critical section, from which it takes the addresses, makes
isNamedProxy accept the address. -/
structure Accepts (proxyNames : List Str) (s : NamedProxies) (a : ProxyAction) (s' : NamedProxies)
    (request : Nat) (ip : IP) : Prop where
  stepped : step proxyNames s a = some s'
  before : s.requests request ≠ some ⟨ip, .done true⟩
  after : s'.requests request = some ⟨ip, .done true⟩

/-- Another request has been replacing the snapshot since `began`, when it was the first to
look at it after its expiry. -/
structure Replacing (s : NamedProxies) (request : Nat) (r : Refresh) (began : Int) : Prop where
  other : ∃ i, i ≠ request ∧ s.refresher = some (i, began)
  late : r.finished + 5 * second ≤ began
  first : ∀ c ∈ s.checks, c < r.finished + 5 * second ∨ began ≤ c

/-- A refresh lasts at most a second. -/
def Prompt (s : NamedProxies) (a : ProxyAction) : Prop :=
  ∀ i began, s.refresher = some (i, began) → a.time ≤ began + second

variable {names : List Str} {s s' : NamedProxies} {a : ProxyAction} {request i : Nat} {ip ip' : IP}
  {at_ : Lookup}

/-- An action answers only its own request. -/
theorem answered_own (before : s.requests i ≠ some ⟨ip, .done true⟩)
    (after : (s.put request ip' at_).requests i = some ⟨ip, .done true⟩) :
    i = request ∧ ip' = ip ∧ at_ = .done true := by
  rw [put_requests] at after
  split at after
  · rename_i own
    obtain ⟨rfl, rfl⟩ : ip' = ip ∧ at_ = .done true := by simpa using after
    exact ⟨own, rfl, rfl⟩
  · exact absurd after before

/-- A request that does not refresh finds the snapshot live or being replaced. -/
theorem Sound.live_or_replacing (sound : s.Sound) (absent : s.requests request = none)
    {r : Refresh} (latest : s.latest = some r) {now : Int}
    (kept : ¬(s.proxyRefreshing = false ∧ s.expired now = true)) :
    now < r.finished + 5 * second ∨ ∃ began, s.Replacing request r began := by
  cases refreshing : s.refresher with
  | none =>
    left
    have busy := sound.busy
    rw [refreshing] at busy
    exact Int.not_le.mp fun late => kept ⟨busy, (sound.expired_iff latest now).mpr late⟩
  | some pair =>
    obtain ⟨i, began⟩ := pair
    refine .inr ⟨began, ⟨i, ?_, refreshing⟩, (sound.began i began refreshing).2 r latest, ?_⟩
    · rintro rfl
      obtain ⟨_, _, _, here⟩ := sound.owner i began refreshing
      exact absurd (absent.symm.trans here) (by simp)
    · intro c member
      rcases (sound.checked c member).2 r latest with before | ⟨j, began', also, past⟩
      · exact .inl before
      · rw [refreshing] at also
        cases also
        exact .inr past

/-- What is accepted was returned by the latest refresh, which is less than five seconds
old unless another request is replacing it. -/
theorem Accepts.latest (accepts : Accepts names s a s' request ip) (sound : s.Sound) :
    ∃ r, s'.latest = some r ∧ r.Returned ip ∧
      (a.time < r.finished + 5 * second ∨ ∃ began, s.Replacing request r began) := by
  obtain ⟨-, acted⟩ := step_act accepts.stepped
  rcases act_cases acted with ⟨i, ip', now, rfl, absent, rfl⟩ |
    ⟨i, ip', now, rfl, absent, idle, over_, rfl⟩ | ⟨i, ip', now, rfl, absent, kept, rfl⟩ |
    ⟨i, ip', now, name, rest, lookups, result, rfl, here, rfl⟩ | ⟨i, ip', now, lookups, rfl, here, rfl⟩
  · obtain ⟨-, -, accepted⟩ := answered_own accepts.before accepts.after
    cases accepted
  · obtain ⟨-, -, accepted⟩ := answered_own accepts.before accepts.after
    cases accepted
  · obtain ⟨rfl, rfl, accepted⟩ := answered_own accepts.before accepts.after
    have included : includes s.proxyIPs ip' = true := Lookup.done.inj accepted
    rw [sound.snapshot] at included
    cases latest : s.latest with
    | none =>
      rw [latest] at included
      cases included
    | some r =>
      rw [latest] at included
      exact ⟨r, latest, (includes_gathered r ip').mp included,
        sound.live_or_replacing absent latest kept⟩
  · obtain ⟨-, -, accepted⟩ := answered_own accepts.before accepts.after
    cases accepted
  · obtain ⟨rfl, rfl, accepted⟩ := answered_own accepts.before accepts.after
    refine ⟨⟨now, lookups⟩, rfl, (includes_gathered ⟨now, lookups⟩ ip').mp
      (Lookup.done.inj accepted), .inl ?_⟩
    simp only [ProxyAction.time, second]
    omega

end NamedProxies

/-- What isNamedProxy accepts was returned by the latest refresh, its own included. Unless
another request is replacing it, that refresh is less than five seconds old; else it is at
most six seconds older than the idle time between its expiry and the next look at it. After
a refresh whose lookups all failed, an address is accepted only once a later refresh has
returned it. -/
theorem namedProxy_trust (names : List Str) (clock : Int) {actions : List ProxyAction}
    {s : NamedProxies}
    (ran : run (NamedProxies.step names) (newNamedProxies clock) actions = some s) :
    (∀ a s' request ip, s.Accepts names a s' request ip → s.Prompt a →
      ∃ r, s'.latest = some r ∧ r.Returned ip ∧
        (a.time < r.finished + 5 * second ∨ ∃ began, s.Replacing request r began ∧
          a.time ≤ r.finished + 6 * second + (began - (r.finished + 5 * second)))) ∧
    ∀ failed, s.latest = some failed → failed.Failed → ∀ more s' a s'' request ip,
      run (NamedProxies.step names) s more = some s' → s'.Accepts names a s'' request ip →
        ∃ newer, s''.refreshes = newer ++ s.refreshes ∧ ∃ r ∈ newer, Refresh.Returned r ip := by
  have sound := (NamedProxies.Sound.new clock).run ran
  constructor
  · intro a s' request ip accepts prompt
    obtain ⟨r, latest, returned, live | ⟨began, replacing⟩⟩ := accepts.latest sound
    · exact ⟨r, latest, returned, .inl live⟩
    · refine ⟨r, latest, returned, .inr ⟨began, replacing, ?_⟩⟩
      obtain ⟨i, -, refreshing⟩ := replacing.other
      have inTime := prompt i began refreshing
      simp only [second] at inTime ⊢
      omega
  · intro failed last allFailed more s' a s'' request ip later accepts
    obtain ⟨r, latest, returned, -⟩ := accepts.latest (sound.run later)
    obtain ⟨first, grown⟩ := NamedProxies.refreshes_run later
    obtain ⟨newest, grown'⟩ := NamedProxies.refreshes_step accepts.stepped
    have all : s''.refreshes = (newest ++ first) ++ s.refreshes := by
      rw [grown', grown, List.append_assoc]
    refine ⟨newest ++ first, all, r, ?_, returned⟩
    rw [NamedProxies.latest, all] at latest
    cases newer : newest ++ first with
    | nil =>
      rw [newer] at latest
      obtain rfl : failed = r := Option.some.inj (last.symm.trans latest)
      exact absurd returned (allFailed.not_returned ip)
    | cons r' rest =>
      rw [newer] at latest
      obtain rfl : r' = r := Option.some.inj latest
      exact List.mem_cons_self

/-- The proxy's address is looked up at 0. -/
def lookedUp : List ProxyAction :=
  [.check 0 [10, 0, 0, 3] 0, .lookup 0 (some [[10, 0, 0, 3]]) 0, .finish 0 0]

/-- Where a run and one more action lead, if both are possible. -/
def afterRun (actions : List ProxyAction) : NamedProxies :=
  (run (NamedProxies.step [lit "dashboard"]) (newNamedProxies 0) actions).getD (newNamedProxies 0)

def afterNext (actions : List ProxyAction) (a : ProxyAction) : NamedProxies :=
  (NamedProxies.step [lit "dashboard"] (afterRun actions) a).getD (newNamedProxies 0)

/-- Three seconds after a refresh its address is still accepted. -/
theorem freshSnapshot_trust :
    (afterRun lookedUp).Accepts [lit "dashboard"] (.check 2 [10, 0, 0, 3] (3 * second))
      (afterNext lookedUp (.check 2 [10, 0, 0, 3] (3 * second))) 2 [10, 0, 0, 3] ∧
    ∃ r, (afterNext lookedUp (.check 2 [10, 0, 0, 3] (3 * second))).latest = some r ∧
      r.Returned [10, 0, 0, 3] := by
  have ran : run (NamedProxies.step [lit "dashboard"]) (newNamedProxies 0) lookedUp =
      some (afterRun lookedUp) := rfl
  have absent : (afterRun lookedUp).requests 2 = none := rfl
  have accepts : (afterRun lookedUp).Accepts [lit "dashboard"] (.check 2 [10, 0, 0, 3] (3 * second))
      (afterNext lookedUp (.check 2 [10, 0, 0, 3] (3 * second))) 2 [10, 0, 0, 3] :=
    ⟨rfl, by simp [absent], rfl⟩
  have idle : (afterRun lookedUp).refresher = none := rfl
  have prompt : (afterRun lookedUp).Prompt (.check 2 [10, 0, 0, 3] (3 * second)) := by
    intro i began refreshing
    rw [idle] at refreshing
    cases refreshing
  obtain ⟨r, latest, returned, -⟩ :=
    (namedProxy_trust [lit "dashboard"] 0 ran).1 _ _ _ _ accepts prompt
  exact ⟨accepts, r, latest, returned⟩

/-- The same, and an hour later request 1 begins to refresh. -/
def idleHour : List ProxyAction := lookedUp ++ [.check 1 [10, 0, 0, 3] (3600 * second)]

/-- While request 1 refreshes, request 2 trusts the snapshot of an hour ago. -/
theorem idleHour_trusted :
    run (NamedProxies.step [lit "dashboard"]) (newNamedProxies 0) idleHour =
      some (afterRun idleHour) ∧
    (afterRun idleHour).Accepts [lit "dashboard"] (.check 2 [10, 0, 0, 3] (3600 * second))
      (afterNext idleHour (.check 2 [10, 0, 0, 3] (3600 * second))) 2 [10, 0, 0, 3] ∧
    (afterRun idleHour).Prompt (.check 2 [10, 0, 0, 3] (3600 * second)) ∧
    ∀ r ∈ (afterNext idleHour (.check 2 [10, 0, 0, 3] (3600 * second))).refreshes,
      r.finished < 3600 * second - 6 * second := by
  have absent : (afterRun idleHour).requests 2 = none := rfl
  have refreshing : (afterRun idleHour).refresher = some (1, 3600 * second) := rfl
  have refreshes : (afterNext idleHour (.check 2 [10, 0, 0, 3] (3600 * second))).refreshes =
      [⟨0, [some [[10, 0, 0, 3]]]⟩] := rfl
  refine ⟨rfl, ⟨rfl, by simp [absent], rfl⟩, ?_, ?_⟩
  · intro i began same
    obtain ⟨rfl, rfl⟩ : 1 = i ∧ 3600 * second = began := by simpa [refreshing] using same
    decide
  · intro r member
    rw [refreshes] at member
    obtain rfl := List.mem_singleton.mp member
    decide

end Tracium.RateLimit
