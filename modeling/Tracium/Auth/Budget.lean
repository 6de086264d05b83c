import Tracium.Auth.Freshness

/-! Why verify rejects. The run is read together with notes the code does not keep: the 401
answers, the refusals of the sender limiter, the cached rejections that decided a request
and the results a waiter took from the call it joined. -/
namespace Tracium.Auth

open Go

inductive Note
  | answered (g : Nat) (at_ : Int)
  | refused (g : Nat)
  | hit (g : Nat) (at_ expires : Int)
  | took (g leader : Nat)
  deriving DecidableEq

/-- A run so far. -/
structure Noted where
  state : State
  notes : List Note

variable (cfg : Config) (cacheKeyFor : Str → Str)

/-- What one action adds, read off the state it is taken in. -/
def notesOf (s : State) : Action → List Note
  | .answer g response =>
    match callVerify response with
    | .error .unauthenticated => [.answered g s.now]
    | _ => []
  | .advance g =>
    match s.goroutines g with
    | none => []
    | some x =>
      match x.pc with
      | .lookup | .recheck =>
        match live cfg s.now s.cache (cacheKeyFor x.token) with
        | some entry => if entry.ok then [] else [.hit g s.now entry.expires]
        | none => []
      | .charge now => if (allow s.limiter x.sender now).1 then [] else [.refused g]
      | .wait leader =>
        match s.calls leader with
        | some call => if call.canceled then [] else [.took g leader]
        | none => []
      | _ => []
  | _ => []

def notedStep (n : Noted) (a : Action) : Option Noted :=
  (step cfg cacheKeyFor n.state a).map
    fun s => ⟨s, n.notes ++ notesOf cfg cacheKeyFor n.state a⟩

/-- A waiter is about to return the rejection of a leader that was over its budget. -/
def takesRefusal (n : Noted) : Action → Bool
  | .advance g =>
    match n.state.goroutines g with
    | none => false
    | some x =>
      match x.pc with
      | .wait leader =>
        match n.state.calls leader with
        | some call => call.closed && !call.canceled &&
            decide (call.result = some (.failed .unauthenticated)) &&
            decide (.refused leader ∈ n.notes)
        | none => false
      | _ => false
  | _ => false

/-- A rejection of the token in the cache until `expires`: the API answered 401 to a call
for it, and the call cached that. -/
def CachedRejection (n : Noted) (token : Str) (expires : Int) : Prop :=
  ∃ h y t stamp, .answered h t ∈ n.notes ∧ n.state.goroutines h = some y ∧ y.token = token ∧
    t ≤ stamp ∧ stamp ≤ n.state.now ∧ expires = stamp + cfg.shortTTL

/-- The API answered 401 to the request's own call, or to one whose cached rejection was
still live when the request was decided by it. -/
def Rejected (n : Noted) (g : Nat) (token : Str) : Prop :=
  (∃ t, .answered g t ∈ n.notes) ∨
    ∃ t expires, .hit g t expires ∈ n.notes ∧ t ≤ expires ∧ CachedRejection cfg n token expires

/-- The grounds a request may be rejected on: its own budget, or a 401 for its token. -/
def Grounded (n : Noted) (g : Nat) (token : Str) : Prop :=
  .refused g ∈ n.notes ∨ Rejected cfg n g token ∨
    ∃ leader y, .took g leader ∈ n.notes ∧ n.state.goroutines leader = some y ∧
      y.token = token ∧ Rejected cfg n leader token

/-- A leader's own grounds. -/
def Blamed (n : Noted) (g : Nat) (token : Str) : Prop :=
  .refused g ∈ n.notes ∨ Rejected cfg n g token

/-- What the notes say of a request at each place of the code. -/
def Explained (n : Noted) (g : Nat) (token : Str) : Pc → Prop
  | .answered answer => answer = .error .unauthenticated →
      ∃ t, t ≤ n.state.now ∧ .answered g t ∈ n.notes
  | .store entry => entry.ok = false → ∃ t, t ≤ n.state.now ∧ .answered g t ∈ n.notes
  | .fallback onMiss => onMiss = .unauthenticated → .refused g ∈ n.notes
  | .storeStale entry o => entry.ok = true ∧ o ≠ .failed .unauthenticated
  | .storeEntry entry o => (entry.ok = false → CachedRejection cfg n token entry.expires) ∧
      (o = .failed .unauthenticated → Blamed cfg n g token)
  | .result o | .mark o | .unregister o | .close o =>
      o = .failed .unauthenticated → Blamed cfg n g token
  | .done o => o = .failed .unauthenticated → Grounded cfg n g token
  | _ => True

structure Traced (tokens : Set Str) (n : Noted) : Prop where
  each : ∀ g x, n.state.goroutines g = some x → Explained cfg n g x.token x.pc
  calls : ∀ leader call y, n.state.calls leader = some call →
    call.result = some (.failed .unauthenticated) → n.state.goroutines leader = some y →
    Blamed cfg n leader y.token
  entries : ∀ token ∈ tokens, ∀ entry, n.state.cache.peek (cacheKeyFor token) = some entry →
    entry.ok = false → CachedRejection cfg n token entry.expires

/-- A run goes on. -/
structure Grown (n n' : Noted) : Prop where
  notes : ∀ note ∈ n.notes, note ∈ n'.notes
  now : n.state.now ≤ n'.state.now
  kept : TokensKept n.state n'.state

variable {cfg cacheKeyFor} {tokens : Set Str} {n n' : Noted} {g : Nat} {x : Goroutine} {token : Str}

theorem CachedRejection.grow {expires : Int} (cached : CachedRejection cfg n token expires)
    (grown : Grown n n') : CachedRejection cfg n' token expires := by
  obtain ⟨h, y, t, stamp, answered, started, same, before, past, life⟩ := cached
  obtain ⟨y', started', same'⟩ := grown.kept h y started
  exact ⟨h, y', t, stamp, grown.notes _ answered, started', same'.trans same, before,
    past.trans grown.now, life⟩

theorem Rejected.grow (rejected : Rejected cfg n g token) (grown : Grown n n') :
    Rejected cfg n' g token := by
  rcases rejected with ⟨t, answered⟩ | ⟨t, expires, hit, live, cached⟩
  · exact .inl ⟨t, grown.notes _ answered⟩
  · exact .inr ⟨t, expires, grown.notes _ hit, live, cached.grow grown⟩

theorem Blamed.grow (blamed : Blamed cfg n g token) (grown : Grown n n') :
    Blamed cfg n' g token := by
  rcases blamed with refused | rejected
  exacts [.inl (grown.notes _ refused), .inr (rejected.grow grown)]

theorem Blamed.grounded (blamed : Blamed cfg n g token) : Grounded cfg n g token := by
  rcases blamed with refused | rejected
  exacts [.inl refused, .inr (.inl rejected)]

theorem Grounded.grow (grounded : Grounded cfg n g token) (grown : Grown n n') :
    Grounded cfg n' g token := by
  rcases grounded with refused | rejected | ⟨leader, y, took, started, same, rejected⟩
  · exact .inl (grown.notes _ refused)
  · exact .inr (.inl (rejected.grow grown))
  · obtain ⟨y', started', same'⟩ := grown.kept leader y started
    exact .inr (.inr ⟨leader, y', grown.notes _ took, started', same'.trans same,
      rejected.grow grown⟩)

theorem Explained.grow {pc : Pc} (explained : Explained cfg n g token pc) (grown : Grown n n') :
    Explained cfg n' g token pc := by
  have answered : (∃ t, t ≤ n.state.now ∧ .answered g t ∈ n.notes) →
      ∃ t, t ≤ n'.state.now ∧ .answered g t ∈ n'.notes := by
    rintro ⟨t, past, noted⟩
    exact ⟨t, past.trans grown.now, grown.notes _ noted⟩
  cases pc with
  | answered answer => exact fun rejected => answered (explained rejected)
  | store entry => exact fun negative => answered (explained negative)
  | fallback onMiss => exact fun limited => grown.notes _ (explained limited)
  | storeStale entry o => exact explained
  | storeEntry entry o =>
    exact ⟨fun negative => (explained.1 negative).grow grown,
      fun failed => (explained.2 failed).grow grown⟩
  | result o | mark o | unregister o | close o => exact fun failed => (explained failed).grow grown
  | done o => exact fun failed => (explained failed).grow grown
  | _ => trivial

/-- A goroutine moves, with its own token; the notes only grow. -/
theorem grown_of_update {s' : State} {x' : Goroutine} {added : List Note}
    (here : n.state.goroutines g = some x)
    (goroutines : s'.goroutines = Function.update n.state.goroutines g (some x'))
    (token : x'.token = x.token) (now : s'.now = n.state.now) :
    Grown n ⟨s', n.notes ++ added⟩ where
  notes := fun note noted => List.mem_append_left _ noted
  now := Int.le_of_eq now.symm
  kept := by
    intro h y started
    by_cases same : h = g
    · subst same
      obtain rfl := Option.some.inj (here.symm.trans started)
      exact ⟨x', by rw [goroutines, Function.update_self], token⟩
    · exact ⟨y, by rw [goroutines, Function.update_of_ne same, started], rfl⟩

theorem grown_goto {base : State} {pc : Pc} {added : List Note}
    (here : n.state.goroutines g = some x) (goroutines : base.goroutines = n.state.goroutines)
    (now : base.now = n.state.now) : Grown n ⟨base.goto g x pc, n.notes ++ added⟩ := by
  have moved : (base.goto g x pc).goroutines =
      Function.update n.state.goroutines g (some { x with pc := pc }) := by
    rw [← goroutines]
    rfl
  exact grown_of_update here moved rfl now

/-- The obligations of a move are about the request that moved. -/
theorem Traced.move (traced : Traced cfg cacheKeyFor tokens n) {s' : State} (x' : Goroutine)
    {added : List Note} (here : n.state.goroutines g = some x)
    (goroutines : s'.goroutines = Function.update n.state.goroutines g (some x'))
    (token : x'.token = x.token) (now : s'.now = n.state.now)
    (own : Explained cfg ⟨s', n.notes ++ added⟩ g x.token x'.pc)
    (calls : ∀ leader call, s'.calls leader = some call →
      call.result = some (.failed .unauthenticated) →
      (∃ call', n.state.calls leader = some call' ∧
        call'.result = some (.failed .unauthenticated)) ∨
      leader = g ∧ Blamed cfg ⟨s', n.notes ++ added⟩ g x.token)
    (entries : ∀ token ∈ tokens, ∀ entry, s'.cache.peek (cacheKeyFor token) = some entry →
      entry.ok = false → n.state.cache.peek (cacheKeyFor token) = some entry ∨
        CachedRejection cfg ⟨s', n.notes ++ added⟩ token entry.expires) :
    Traced cfg cacheKeyFor tokens ⟨s', n.notes ++ added⟩ := by
  have grown : Grown n ⟨s', n.notes ++ added⟩ := grown_of_update here goroutines token now
  refine ⟨?_, ?_, ?_⟩
  · intro h y started
    rw [goroutines] at started
    rcases Steps.update_eq_some started with ⟨rfl, same⟩ | ⟨-, old⟩
    · obtain rfl := Option.some.inj same
      rw [token]
      exact own
    · exact (traced.each h y old).grow grown
  · intro leader call y known failed started
    rw [goroutines] at started
    rcases calls leader call known failed with ⟨call', known', failed'⟩ | ⟨rfl, blamed⟩
    · rcases Steps.update_eq_some started with ⟨rfl, same⟩ | ⟨-, old⟩
      · obtain rfl := Option.some.inj same
        rw [token]
        exact (traced.calls leader call' x known' failed' here).grow grown
      · exact (traced.calls leader call' y known' failed' old).grow grown
    · rw [Function.update_self] at started
      obtain rfl := Option.some.inj started
      rw [token]
      exact blamed
  · intro token presented entry cached negative
    rcases entries token presented entry cached negative with old | cached
    exacts [(traced.entries token presented entry old negative).grow grown, cached]

/-- A move that touches no call and no entry. -/
theorem Traced.goto (traced : Traced cfg cacheKeyFor tokens n)
    (here : n.state.goroutines g = some x) {base : State} {pc : Pc} {added : List Note}
    (goroutines : base.goroutines = n.state.goroutines) (now : base.now = n.state.now)
    (calls : base.calls = n.state.calls) (peek : ∀ k, base.cache.peek k = n.state.cache.peek k)
    (own : Explained cfg ⟨base.goto g x pc, n.notes ++ added⟩ g x.token pc) :
    Traced cfg cacheKeyFor tokens ⟨base.goto g x pc, n.notes ++ added⟩ := by
  refine traced.move { x with pc := pc } here (by rw [← goroutines]; rfl) rfl now own ?_ ?_
  · intro leader call known failed
    refine .inl ⟨call, ?_, failed⟩
    rw [← calls]
    exact known
  · intro token _ entry cached _
    left
    rw [← peek]
    exact cached

/-- The leader writes to its own call. -/
theorem Traced.updateCall (traced : Traced cfg cacheKeyFor tokens n)
    (here : n.state.goroutines g = some x) {pc : Pc} (f : VerifyCall → VerifyCall) {o : Outcome}
    (results : ∀ call, (f call).result = call.result ∨ (f call).result = some o) {added : List Note}
    (blamed : o = .failed .unauthenticated →
      Blamed cfg ⟨(n.state.updateCall g f).goto g x pc, n.notes ++ added⟩ g x.token)
    (own : Explained cfg ⟨(n.state.updateCall g f).goto g x pc, n.notes ++ added⟩ g x.token pc) :
    Traced cfg cacheKeyFor tokens
      ⟨(n.state.updateCall g f).goto g x pc, n.notes ++ added⟩ := by
  refine traced.move { x with pc := pc } here rfl rfl rfl own ?_ ?_
  · intro leader call known failed
    rcases Steps.update_eq_some known with ⟨rfl, mine⟩ | ⟨-, old⟩
    · obtain ⟨old, had, rfl⟩ := Option.map_eq_some_iff.mp mine
      rcases results old with kept | written
      · exact .inl ⟨old, had, kept.symm.trans failed⟩
      · exact .inr ⟨rfl, blamed (Option.some.inj (written.symm.trans failed))⟩
    · exact .inl ⟨call, old, failed⟩
  · exact fun token _ entry cached _ => .inl cached

theorem Traced.cachedResult (traced : Traced cfg cacheKeyFor tokens n)
    (wellFormed : n.state.cache.WellFormed) (here : n.state.goroutines g = some x)
    (presented : x.token ∈ tokens) {hit : Outcome → Pc} {miss : Pc} {added : List Note}
    (noted : ∀ entry, live cfg n.state.now n.state.cache (cacheKeyFor x.token) = some entry →
      entry.ok = false → .hit g n.state.now entry.expires ∈ added)
    (missed : ∀ n' : Noted, Explained cfg n' g x.token miss)
    (positive : ∀ (n' : Noted) workspace i, Explained cfg n' g x.token (hit (.verified workspace i)))
    (negative : ∀ n' : Noted, Blamed cfg n' g x.token →
      Explained cfg n' g x.token (hit (.failed .unauthenticated))) :
    Traced cfg cacheKeyFor tokens
      ⟨n.state.cachedResult cfg g x (cacheKeyFor x.token) hit miss, n.notes ++ added⟩ := by
  have looked : (lookup cfg n.state.now n.state.cache (cacheKeyFor x.token)).1 =
      live cfg n.state.now n.state.cache (cacheKeyFor x.token) := lookup_fst
  have peek : ∀ k, (lookup cfg n.state.now n.state.cache (cacheKeyFor x.token)).2.peek k =
      n.state.cache.peek k := peek_lookup wellFormed
  unfold State.cachedResult
  generalize lookup cfg n.state.now n.state.cache (cacheKeyFor x.token) = found at looked peek
  obtain ⟨found, cache⟩ := found
  cases found with
  | none => exact traced.goto here rfl rfl rfl (fun _ => rfl) (missed _)
  | some entry =>
    simp only
    split
    next => exact traced.goto here rfl rfl rfl peek (positive _ _ _)
    next notOk =>
      refine traced.goto here rfl rfl rfl peek (negative _ (.inr (.inr ?_)))
      obtain ⟨-, cached, unexpired⟩ := live_eq_some_iff.mp looked.symm
      have off : entry.ok = false := by simpa using notOk
      refine ⟨n.state.now, entry.expires, ?_, unexpired, ?_⟩
      · exact List.mem_append_right _ (noted entry looked.symm off)
      · apply (traced.entries x.token presented entry cached off).grow
        exact grown_goto here rfl rfl

theorem storeStamp_negative {now : Int} {entry stamped : CacheEntry}
    (stored : storeStamp cfg now entry = some stamped) (negative : entry.ok = false) :
    stamped.expires = now + cfg.shortTTL := by
  unfold storeStamp at stored
  split at stored
  next => cases stored
  next =>
    simp only [negative, Bool.false_eq_true, if_false, Option.some.injEq] at stored
    rw [← stored]

theorem Traced.joinInflight (traced : Traced cfg cacheKeyFor tokens n)
    (here : n.state.goroutines g = some x) {added : List Note} :
    Traced cfg cacheKeyFor tokens
      ⟨n.state.joinInflight g x (cacheKeyFor x.token), n.notes ++ added⟩ := by
  unfold State.joinInflight
  split
  next => exact traced.goto here rfl rfl rfl (fun _ => rfl) trivial
  next =>
    refine traced.move { x with pc := .recheck } here rfl rfl rfl trivial ?_ ?_
    · intro leader call known failed
      rcases Steps.update_eq_some known with ⟨rfl, same⟩ | ⟨-, old⟩
      · obtain rfl := Option.some.inj same
        cases failed
      · exact .inl ⟨call, old, failed⟩
    · exact fun token _ entry cached _ => .inl cached

/-- A waiter takes its leader's grounds over, unless they are the leader's budget. -/
theorem Traced.wait (traced : Traced cfg cacheKeyFor tokens n)
    (inv : Invariant cfg cacheKeyFor tokens n.state) (here : n.state.goroutines g = some x)
    {leader : Nat} (at_ : x.pc = .wait leader) (own : takesRefusal n (.advance g) = false)
    {s' : State} (stepped : advance cfg cacheKeyFor n.state g x = some s') :
    Traced cfg cacheKeyFor tokens
      ⟨s', n.notes ++ notesOf cfg cacheKeyFor n.state (.advance g)⟩ := by
  simp only [advance, at_] at stepped
  obtain ⟨call, known, stepped⟩ := Option.bind_eq_some_iff.mp stepped
  split at stepped
  next closed =>
    split at stepped
    next =>
      obtain rfl := Option.some.inj stepped
      exact traced.goto here rfl rfl rfl (fun _ => rfl) trivial
    next live =>
      obtain ⟨o, settled, rfl⟩ := Option.map_eq_some_iff.mp stepped
      refine traced.goto here rfl rfl rfl (fun _ => rfl) ?_
      rintro rfl
      obtain ⟨y, started, same⟩ := (inv.each g x here).waits leader at_
      have spared : .refused leader ∉ n.notes := by
        simpa [takesRefusal, here, at_, known, closed, live, settled] using own
      have grown : Grown n ⟨n.state.goto g x (.done (.failed .unauthenticated)),
          n.notes ++ notesOf cfg cacheKeyFor n.state (.advance g)⟩ := grown_goto here rfl rfl
      rcases traced.calls leader call y known settled started with refused | rejected
      · exact absurd refused spared
      · obtain ⟨y', started', same'⟩ := grown.kept leader y started
        refine .inr (.inr ⟨leader, y', ?_, started', same'.trans same, ?_⟩)
        · apply List.mem_append_right
          simp [notesOf, here, at_, known, live]
        · rw [← same]
          exact rejected.grow grown
  next => cases stepped

theorem Traced.answered (traced : Traced cfg cacheKeyFor tokens n)
    (here : n.state.goroutines g = some x) {answer : Except Error Str}
    (at_ : x.pc = .answered answer) {s' : State}
    (stepped : advance cfg cacheKeyFor n.state g x = some s') {added : List Note} :
    Traced cfg cacheKeyFor tokens ⟨s', n.notes ++ added⟩ := by
  have explained := traced.each g x here
  rw [at_] at explained
  simp only [advance, at_] at stepped
  split at stepped
  next =>
    obtain rfl := Option.some.inj stepped
    exact traced.goto here rfl rfl rfl (fun _ => rfl) fun failed => by cases failed
  next =>
    split at stepped
    next =>
      obtain rfl := Option.some.inj stepped
      exact traced.goto here rfl rfl rfl (fun _ => rfl) fun failed => by cases failed
    next =>
      obtain rfl := Option.some.inj stepped
      exact traced.goto here rfl rfl rfl (fun _ => rfl) fun failed => by cases failed
    next =>
      obtain rfl := Option.some.inj stepped
      refine traced.goto here rfl rfl rfl (fun _ => rfl) fun _ => ?_
      obtain ⟨t, past, noted⟩ := explained rfl
      exact ⟨t, past, List.mem_append_left _ noted⟩
    next =>
      obtain rfl := Option.some.inj stepped
      exact traced.goto here rfl rfl rfl (fun _ => rfl) fun failed => by cases failed

theorem Traced.store (traced : Traced cfg cacheKeyFor tokens n)
    (here : n.state.goroutines g = some x) {entry : CacheEntry} (at_ : x.pc = .store entry)
    {s' : State} (stepped : advance cfg cacheKeyFor n.state g x = some s') {added : List Note} :
    Traced cfg cacheKeyFor tokens ⟨s', n.notes ++ added⟩ := by
  have explained := traced.each g x here
  rw [at_] at explained
  simp only [advance, at_] at stepped
  by_cases positive : entry.ok = true
  · rw [if_pos positive] at stepped
    split at stepped
    next stamped stamp =>
      obtain rfl := Option.some.inj stepped
      obtain ⟨-, kept, -⟩ := storeStamp_positive stamp
      refine traced.goto here rfl rfl rfl (fun _ => rfl) ⟨fun off => ?_, fun failed => by cases failed⟩
      rw [kept, positive] at off
      cases off
    next =>
      obtain rfl := Option.some.inj stepped
      exact traced.goto here rfl rfl rfl (fun _ => rfl) fun failed => by cases failed
  · have negative : entry.ok = false := by simpa using positive
    obtain ⟨t, past, noted⟩ := explained negative
    rw [if_neg positive] at stepped
    split at stepped
    next stamped stamp =>
      obtain rfl := Option.some.inj stepped
      refine traced.goto here rfl rfl rfl (fun _ => rfl) ⟨fun _ => ?_, fun _ => .inr (.inl ?_)⟩
      · refine ⟨g, _, t, n.state.now, List.mem_append_left _ noted, Function.update_self _ _ _, rfl,
          past, Int.le_refl _, storeStamp_negative stamp negative⟩
      · exact ⟨t, List.mem_append_left _ noted⟩
    next =>
      obtain rfl := Option.some.inj stepped
      refine traced.goto here rfl rfl rfl (fun _ => rfl) fun _ => .inr (.inl ?_)
      exact ⟨t, List.mem_append_left _ noted⟩

theorem Traced.storeStale (traced : Traced cfg cacheKeyFor tokens n)
    (here : n.state.goroutines g = some x) {stale : CacheEntry} {o : Outcome}
    (at_ : x.pc = .storeStale stale o) {s' : State}
    (stepped : advance cfg cacheKeyFor n.state g x = some s') {added : List Note} :
    Traced cfg cacheKeyFor tokens ⟨s', n.notes ++ added⟩ := by
  have explained := traced.each g x here
  rw [at_] at explained
  obtain ⟨positive, accepted⟩ := explained
  simp only [advance, at_] at stepped
  split at stepped
  next stamped stamp =>
    obtain rfl := Option.some.inj stepped
    obtain ⟨-, -, kept, -⟩ := storeStaleStamp_spec stamp
    refine traced.goto here rfl rfl rfl (fun _ => rfl)
      ⟨fun off => ?_, fun failed => absurd failed accepted⟩
    rw [kept, positive] at off
    cases off
  next =>
    obtain rfl := Option.some.inj stepped
    exact traced.goto here rfl rfl rfl (fun _ => rfl) fun failed => absurd failed accepted

theorem Traced.storeEntry (traced : Traced cfg cacheKeyFor tokens n)
    (inv : Invariant cfg cacheKeyFor tokens n.state) (distinct : tokens.InjOn cacheKeyFor)
    (here : n.state.goroutines g = some x) {entry : CacheEntry} {o : Outcome}
    (at_ : x.pc = .storeEntry entry o) {added : List Note} :
    Traced cfg cacheKeyFor tokens
      ⟨{ n.state with
        cache := Auth.storeEntry cfg n.state.cache (cacheKeyFor x.token) entry }.goto g x
        (.result o), n.notes ++ added⟩ := by
  have explained := traced.each g x here
  rw [at_] at explained
  obtain ⟨rejection, blamed⟩ := explained
  have grown : Grown n ⟨{ n.state with
      cache := Auth.storeEntry cfg n.state.cache (cacheKeyFor x.token) entry }.goto g x
        (.result o), n.notes ++ added⟩ := grown_goto here rfl rfl
  refine traced.move { x with pc := .result o } here rfl rfl rfl
    (fun failed => (blamed failed).grow grown)
    (fun _ call known failed => .inl ⟨call, known, failed⟩) ?_
  intro token presented entry' cached negative
  rcases inv.cache.peek_put cached with ⟨same, rfl⟩ | ⟨-, old⟩
  · obtain rfl := distinct presented (inv.presented g x here) same
    exact .inr ((rejection negative).grow grown)
  · exact .inl old

theorem Traced.advance (traced : Traced cfg cacheKeyFor tokens n)
    (inv : Invariant cfg cacheKeyFor tokens n.state) (distinct : tokens.InjOn cacheKeyFor)
    (here : n.state.goroutines g = some x) (own : takesRefusal n (.advance g) = false)
    {s' : State} (stepped : advance cfg cacheKeyFor n.state g x = some s') :
    Traced cfg cacheKeyFor tokens
      ⟨s', n.notes ++ notesOf cfg cacheKeyFor n.state (.advance g)⟩ := by
  have explained := traced.each g x here
  have presented := inv.presented g x here
  -- a rejection in the cache that decides the request is in its notes
  have noted : (x.pc = .lookup ∨ x.pc = .recheck) → ∀ entry,
      live cfg n.state.now n.state.cache (cacheKeyFor x.token) = some entry → entry.ok = false →
      .hit g n.state.now entry.expires ∈ notesOf cfg cacheKeyFor n.state (.advance g) := by
    rintro (at_ | at_) entry hit negative <;> simp [notesOf, here, at_, hit, negative]
  cases at_ : x.pc with
  | wait leader => exact traced.wait inv here at_ own stepped
  | answered answer => exact traced.answered here at_ stepped
  | store entry => exact traced.store here at_ stepped
  | storeStale stale o => exact traced.storeStale here at_ stepped
  | calling | done o =>
    simp only [Auth.advance, at_] at stepped
    cases stepped
  | enter =>
    simp only [Auth.advance, at_] at stepped
    obtain rfl := Option.some.inj stepped
    refine traced.goto here rfl rfl rfl (fun _ => rfl) ?_
    split
    · intro failed
      cases failed
    · trivial
  | lookup =>
    simp only [Auth.advance, at_] at stepped
    obtain rfl := Option.some.inj stepped
    exact traced.cachedResult inv.cache here presented (noted (.inl at_)) (fun _ => trivial)
      (fun _ _ _ failed => by cases failed) fun _ blamed _ => blamed.grounded
  | join =>
    simp only [Auth.advance, at_] at stepped
    obtain rfl := Option.some.inj stepped
    exact traced.joinInflight here
  | recheck =>
    simp only [Auth.advance, at_] at stepped
    obtain rfl := Option.some.inj stepped
    exact traced.cachedResult inv.cache here presented (noted (.inr at_)) (fun _ => trivial)
      (fun _ _ _ failed => by cases failed) fun _ blamed _ => blamed
  | limit =>
    simp only [Auth.advance, at_] at stepped
    obtain rfl := Option.some.inj stepped
    exact traced.goto here rfl rfl rfl (fun _ => rfl) trivial
  | charge now =>
    simp only [Auth.advance, at_] at stepped
    obtain rfl := Option.some.inj stepped
    refine traced.goto here rfl rfl rfl (fun _ => rfl) ?_
    split
    next => trivial
    next denied =>
      intro _
      apply List.mem_append_right
      simp [notesOf, here, at_, denied]
  | fallback onMiss =>
    rw [at_] at explained
    simp only [Auth.advance, at_] at stepped
    split at stepped
    next =>
      obtain rfl := Option.some.inj stepped
      refine traced.goto here rfl rfl rfl (fun _ => rfl) fun failed => .inl ?_
      exact List.mem_append_left _ (explained (Outcome.failed.inj failed))
    next stale found =>
      obtain rfl := Option.some.inj stepped
      obtain ⟨-, -, -, positive, -⟩ := lookupStale_eq_some_iff.mp found
      exact traced.goto here rfl rfl rfl (fun _ => rfl) ⟨positive, by simp [State.decide]⟩
  | storeEntry entry o =>
    simp only [Auth.advance, at_] at stepped
    obtain rfl := Option.some.inj stepped
    exact traced.storeEntry inv distinct here at_
  | unregister o =>
    rw [at_] at explained
    simp only [Auth.advance, at_] at stepped
    obtain rfl := Option.some.inj stepped
    exact traced.goto here rfl rfl rfl (fun _ => rfl)
      fun failed => (explained failed).grow (grown_goto here rfl rfl)
  | result o | mark o =>
    rw [at_] at explained
    simp only [Auth.advance, at_] at stepped
    obtain rfl := Option.some.inj stepped
    exact traced.updateCall here _ (by simp) (fun failed => (explained failed).grow (grown_goto here rfl rfl))
      fun failed => (explained failed).grow (grown_goto here rfl rfl)
  | close o =>
    rw [at_] at explained
    simp only [Auth.advance, at_] at stepped
    obtain rfl := Option.some.inj stepped
    exact traced.updateCall here _ (by simp) (fun failed => (explained failed).grow (grown_goto here rfl rfl))
      fun failed => ((explained failed).grow (grown_goto here rfl rfl)).grounded

theorem Traced.start (traced : Traced cfg cacheKeyFor tokens n)
    (inv : Invariant cfg cacheKeyFor tokens n.state) (free : n.state.goroutines g = none) (token sender : Str) {added : List Note} :
    Traced cfg cacheKeyFor tokens
      ⟨n.state.set g ⟨token, sender, false, .enter⟩, n.notes ++ added⟩ := by
  have other : ∀ {h y}, n.state.goroutines h = some y → h ≠ g := by
    rintro h y started rfl
    cases free.symm.trans started
  have grown : Grown n ⟨n.state.set g ⟨token, sender, false, .enter⟩, n.notes ++ added⟩ :=
    ⟨fun _ noted => List.mem_append_left _ noted, Int.le_refl _,
      fun h y started => ⟨y, (Function.update_of_ne (other started) _ _).trans started, rfl⟩⟩
  refine ⟨?_, ?_, ?_⟩
  · intro h y started
    rcases Steps.update_eq_some started with ⟨rfl, same⟩ | ⟨-, old⟩
    · obtain rfl := Option.some.inj same
      trivial
    · exact (traced.each h y old).grow grown
  · intro leader call y known failed started
    obtain ⟨z, started', -⟩ := inv.calls leader call _ known failed
    have same := (Function.update_of_ne (other started') _ _).symm.trans started
    exact (traced.calls leader call y known failed same).grow grown
  · exact fun token presented entry cached negative =>
      (traced.entries token presented entry cached negative).grow grown

theorem Traced.tick (traced : Traced cfg cacheKeyFor tokens n) (elapsed : Nat)
    {added : List Note} : Traced cfg cacheKeyFor tokens
      ⟨{ n.state with now := n.state.now + elapsed }, n.notes ++ added⟩ := by
  have grown : Grown n ⟨{ n.state with now := n.state.now + elapsed }, n.notes ++ added⟩ :=
    ⟨fun _ noted => List.mem_append_left _ noted, Int.le_add_of_nonneg_right (Int.natCast_nonneg _),
      fun h y started => ⟨y, started, rfl⟩⟩
  exact ⟨fun h y started => (traced.each h y started).grow grown,
    fun leader call y known failed started =>
      (traced.calls leader call y known failed started).grow grown,
    fun token presented entry cached negative =>
      (traced.entries token presented entry cached negative).grow grown⟩

theorem Traced.step (traced : Traced cfg cacheKeyFor tokens n)
    (inv : Invariant cfg cacheKeyFor tokens n.state) (distinct : tokens.InjOn cacheKeyFor)
    {a : Action} (own : takesRefusal n a = false)
    (noted : notedStep cfg cacheKeyFor n a = some n') : Traced cfg cacheKeyFor tokens n' := by
  obtain ⟨s', stepped, rfl⟩ := Option.map_eq_some_iff.mp noted
  cases a with
  | start g token sender =>
    simp only [Auth.step] at stepped
    split at stepped
    next free =>
      obtain rfl := Option.some.inj stepped
      exact traced.start inv free token sender
    next => cases stepped
  | tick elapsed =>
    obtain rfl := Option.some.inj stepped
    exact traced.tick elapsed
  | cancel g =>
    obtain ⟨x, here, rfl⟩ := Option.map_eq_some_iff.mp stepped
    have moved : (n.state.set g { x with canceled := true }).goroutines =
        Function.update n.state.goroutines g (some { x with canceled := true }) := rfl
    have grown : Grown n ⟨n.state.set g { x with canceled := true },
        n.notes ++ notesOf cfg cacheKeyFor n.state (.cancel g)⟩ :=
      grown_of_update here moved rfl rfl
    exact traced.move { x with canceled := true } here rfl rfl rfl
      ((traced.each g x here).grow grown) (fun _ call known failed => .inl ⟨call, known, failed⟩)
      fun _ _ _ cached _ => .inl cached
  | giveUp g =>
    obtain ⟨x, here, stepped⟩ := Option.bind_eq_some_iff.mp stepped
    split at stepped
    next =>
      split at stepped
      next =>
        obtain rfl := Option.some.inj stepped
        exact traced.goto here rfl rfl rfl (fun _ => rfl) fun failed => by cases failed
      next => cases stepped
    next => cases stepped
  | answer g response =>
    obtain ⟨x, here, stepped⟩ := Option.bind_eq_some_iff.mp stepped
    split at stepped
    next =>
      obtain rfl := Option.some.inj stepped
      refine traced.goto here rfl rfl rfl (fun _ => rfl) fun rejected => ?_
      refine ⟨n.state.now, Int.le_refl _, List.mem_append_right _ ?_⟩
      simp [notesOf, rejected]
    next => cases stepped
  | advance g =>
    obtain ⟨x, here, stepped⟩ := Option.bind_eq_some_iff.mp stepped
    exact traced.advance inv distinct here own stepped

theorem traced_newAuth (cfg : Config) (cacheKeyFor : Str → Str) (tokens : Set Str) (now : Int) :
    Traced cfg cacheKeyFor tokens ⟨newAuth cfg now, []⟩ := by
  refine ⟨?_, ?_, ?_⟩ <;> simp [newAuth, Lru.peek, Lru.node, Lru.empty]

/-- Where no waiter takes over a refusal of its leader's budget, every rejection is
grounded in a 401 for the request's own token or in its own sender's budget. -/
theorem rejections_grounded (cfg : Config) (cacheKeyFor : Str → Str) (now : Int)
    (actions : List Action) (distinct : (presentedTokens actions).InjOn cacheKeyFor) (n : Noted)
    (ran : Steps.run (notedStep cfg cacheKeyFor) ⟨newAuth cfg now, []⟩ actions = some n)
    (own : Steps.Along (notedStep cfg cacheKeyFor) (fun n a => takesRefusal n a = false)
      ⟨newAuth cfg now, []⟩ actions) :
    ∀ g x, n.state.goroutines g = some x → x.pc = .done (.failed .unauthenticated) →
      Grounded cfg n g x.token := by
  have presented : Steps.Along (notedStep cfg cacheKeyFor)
      (fun _ action => ∀ g token sender, action = .start g token sender →
        token ∈ presentedTokens actions) ⟨newAuth cfg now, []⟩ actions := by
    refine Steps.along_of_mem _ fun action member _ g token sender same => ?_
    exact ⟨g, sender, same ▸ member⟩
  have inv : Invariant cfg cacheKeyFor (presentedTokens actions) n.state ∧
      Traced cfg cacheKeyFor (presentedTokens actions) n := by
    apply Steps.run_invariant_along (I := fun n =>
        Invariant cfg cacheKeyFor (presentedTokens actions) n.state ∧
        Traced cfg cacheKeyFor (presentedTokens actions) n) _ (presented.and own) ran
      ⟨invariant_newAuth cfg cacheKeyFor _ now, traced_newAuth cfg cacheKeyFor _ now⟩
    rintro n a n' ⟨inv, traced⟩ ⟨presented, own⟩ noted
    refine ⟨?_, traced.step inv distinct own noted⟩
    obtain ⟨s', stepped, rfl⟩ := Option.map_eq_some_iff.mp noted
    exact inv.step distinct a presented stepped
  intro g x started returned
  have explained := inv.2.each g x started
  rw [returned] at explained
  exact explained rfl

def Pc.returned : Pc → Option Outcome
  | .done o => some o
  | _ => none

theorem Pc.returned_eq_some {pc : Pc} {o : Outcome} (returned : pc.returned = some o) :
    pc = .done o := by
  cases pc with
  | done o' => exact congrArg Pc.done (Option.some.inj returned)
  | _ => cases returned

theorem minute_pos : 0 < 60 * second := by decide

/-- One verification a minute for each sender. -/
def tightConfig : Config where
  cacheTTL := 60 * second
  maxStaleAge := 300 * second
  cacheMaxEntries := 100
  senderVerifyLimit := 1
  senderVerifyWindow := 60 * second
  cacheTTL_nonneg := outageConfig.cacheTTL_nonneg
  maxStaleAge_nonneg := outageConfig.maxStaleAge_nonneg
  window_pos := fun _ => minute_pos

/-- SHA-256 on the keys of the runs, in hex. -/
def tightKeyFor (token : Str) : Str :=
  if token = lit "j" then lit "189f40034be7a199f1fa9891668ee3ab6049f82d38c68be70f596eab2e1857b7"
  else outageKeyFor token

/-- A goroutine runs on for so many pieces. -/
def advances (g pieces : Nat) : List Action := List.replicate pieces (.advance g)

/-- The first sender spends its budget on another key, leads the call for `k` and is
refused; the second sender waits on that call with its own budget untouched. -/
def sharedRefusal : List Action := List.flatten
  [[.start 0 (lit "j") (lit "10.0.0.1")], advances 0 6, [.answer 0 (.http 200 (some (lit "w")))],
   advances 0 7, [.start 1 (lit "k") (lit "10.0.0.1")], advances 1 3,
   [.start 2 (lit "k") (lit "10.0.0.2")], advances 2 3, advances 1 8, advances 2 1]

/-- The second sender is turned away for the first one's budget. -/
theorem refusal_shared : ∃ n x,
    Steps.run (notedStep tightConfig tightKeyFor) ⟨newAuth tightConfig 0, []⟩ sharedRefusal =
      some n ∧
    n.state.goroutines 2 = some x ∧ x.pc = .done (.failed .unauthenticated) ∧
      ¬Grounded tightConfig n 2 x.token := by
  have ends : (Steps.run (notedStep tightConfig tightKeyFor) ⟨newAuth tightConfig 0, []⟩
      sharedRefusal).map (fun n => (n.notes, (n.state.goroutines 2).map (·.pc.returned))) =
      some ([.refused 1, .took 2 1], some (some (.failed .unauthenticated))) := by decide +kernel
  obtain ⟨n, ran, last⟩ := Option.map_eq_some_iff.mp ends
  obtain ⟨notes, returned⟩ := Prod.mk.inj last
  obtain ⟨x, started, returned⟩ := Option.map_eq_some_iff.mp returned
  refine ⟨n, x, ran, started, Pc.returned_eq_some returned, ?_⟩
  simp [Grounded, Rejected, notes]

/-- The same two requests of `k`, led by the second sender and answered 401. -/
def ownBudgets : List Action := List.flatten
  [[.start 0 (lit "j") (lit "10.0.0.1")], advances 0 6, [.answer 0 (.http 200 (some (lit "w")))],
   advances 0 7, [.start 2 (lit "k") (lit "10.0.0.2")], advances 2 3,
   [.start 1 (lit "k") (lit "10.0.0.1")], advances 1 3, advances 2 3,
   [.answer 2 (.http 401 none)], advances 2 7, advances 1 1]

theorem presentedTokens_ownBudgets {token : Str} (presented : token ∈ presentedTokens ownBudgets) :
    token = lit "j" ∨ token = lit "k" := by
  obtain ⟨g, sender, member⟩ := presented
  simp [ownBudgets, advances] at member
  rcases member with ⟨-, same, -⟩ | ⟨-, same, -⟩ | ⟨-, same, -⟩
  exacts [.inl same, .inr same, .inr same]

theorem ownBudgets_grounded : ∃ n x,
    Steps.run (notedStep tightConfig tightKeyFor) ⟨newAuth tightConfig 0, []⟩ ownBudgets = some n ∧
    n.state.goroutines 1 = some x ∧ x.pc = .done (.failed .unauthenticated) ∧
      Grounded tightConfig n 1 x.token := by
  have ends : (Steps.run (notedStep tightConfig tightKeyFor) ⟨newAuth tightConfig 0, []⟩
      ownBudgets).map (fun n => (n.state.goroutines 1).map (·.pc.returned)) =
      some (some (some (.failed .unauthenticated))) := by decide +kernel
  obtain ⟨n, ran, returned⟩ := Option.map_eq_some_iff.mp ends
  obtain ⟨x, started, returned⟩ := Option.map_eq_some_iff.mp returned
  have rejected := Pc.returned_eq_some returned
  have distinct : (presentedTokens ownBudgets).InjOn tightKeyFor := by
    intro a ha b hb same
    rcases presentedTokens_ownBudgets ha with rfl | rfl <;>
      rcases presentedTokens_ownBudgets hb with rfl | rfl
    · rfl
    · revert same
      decide +kernel
    · revert same
      decide +kernel
    · rfl
  refine ⟨n, x, ran, started, rejected, ?_⟩
  exact rejections_grounded tightConfig tightKeyFor 0 ownBudgets distinct n ran
    (by decide +kernel) 1 x started rejected

end Tracium.Auth
