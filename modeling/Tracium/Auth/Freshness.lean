import Tracium.Auth.Leader

/-! How old a verification may be when it lets a request in. The history of a run orders
the 200 and 401 answers leaders took and the workspaces verify decided; every decision
has a recent acceptance before it and no rejection in between. -/
namespace Tracium.Auth

open Go

variable {cfg : Config} {cacheKeyFor : Str → Str} {tokens : Set Str} {s s' : State} {g : Nat}
  {x : Goroutine}

/-- A live entry has no rejection under way: its leader would have missed it. -/
theorem Invariant.live_fresh (inv : Invariant cfg cacheKeyFor tokens s)
    (here : s.goroutines g = some x) {entry : CacheEntry}
    (hit : live cfg s.now s.cache (cacheKeyFor x.token) = some entry) (positive : entry.ok = true) :
    ∃ at_, Supported s.history x.token entry.workspace at_ ∧ at_ ≤ s.now ∧
      (s.now ≤ at_ + cfg.cacheTTL ∨ 0 < cfg.maxStaleAge ∧ s.now ≤ at_ + cfg.maxStaleAge) := by
  obtain ⟨-, cached, unexpired⟩ := live_eq_some_iff.mp hit
  obtain ⟨-, ⟨at_, verified, life⟩, fresh | ⟨h, y, started, token, under⟩⟩ :=
    inv.entries x.token (inv.presented g x here) entry cached positive
  · obtain ⟨at', verified', past, supported⟩ := fresh
    cases Option.some.inj (verified.symm.trans verified')
    refine ⟨at_, supported, past, ?_⟩
    rcases life with life | ⟨on, life⟩
    · exact .inl (life ▸ unexpired)
    · exact .inr ⟨on, unexpired.trans life⟩
  · have missed := (inv.each h y started).missed (Pc.missed_of_rejecting under)
    rw [token, hit] at missed
    cases missed

theorem Invariant.cachedResult (inv : Invariant cfg cacheKeyFor tokens s)
    (here : s.goroutines g = some x) {hit : Outcome → Pc} {miss : Pc}
    (leads : ∀ o, (hit o).leads = x.pc.leads) (missed : ∀ o, (hit o).missed = false)
    (waits : ∀ o leader, hit o ≠ .wait leader) (held : ∀ o, (hit o).held = none)
    (outcome : ∀ o, (hit o).outcome = some o) (rejecting : x.pc.rejecting = false)
    (ownMiss : live cfg s.now s.cache (cacheKeyFor x.token) = none →
      Local cfg cacheKeyFor s g { x with pc := miss }) :
    Invariant cfg cacheKeyFor tokens (s.cachedResult cfg g x (cacheKeyFor x.token) hit miss) := by
  have never : x.pc.rejecting = true → ∀ {p : Prop}, p := fun h => absurd h (by simp [rejecting])
  have looked : (lookup cfg s.now s.cache (cacheKeyFor x.token)).1 =
      live cfg s.now s.cache (cacheKeyFor x.token) := lookup_fst
  have observes : Observes s
      { s with cache := (lookup cfg s.now s.cache (cacheKeyFor x.token)).2 } :=
    ⟨rfl, rfl, rfl, lookup_wellFormed inv.cache, peek_lookup inv.cache, Unrejected.refl s.history⟩
  unfold State.cachedResult
  generalize lookup cfg s.now s.cache (cacheKeyFor x.token) = found at looked observes
  obtain ⟨found, cache⟩ := found
  cases found with
  | none => exact inv.goto here (fun h _ => never h) (ownMiss looked.symm)
  | some entry =>
    simp only
    split
    next positive =>
      obtain ⟨at_, supported, past, age⟩ := inv.live_fresh here looked.symm positive
      refine inv.decide here observes rfl ?_ supported past age rejecting ?_
      · intro i token w t past' decided
        rw [List.getElem?_eq_none past'] at decided
        cases decided
      · exact ((inv.each g x here).observe (observes.decide _ _)).settled (hit _)
          (fun h => leads _ ▸ h) (missed _) (waits _) (held _) (outcome _) (recorded_decide _ _ _)
    next negative =>
      refine inv.stay here observes rfl (fun _ call _ known settled => .inl ⟨call, known, settled⟩)
        (fun h _ => never h) ?_
      exact (inv.each g x here).settled (hit _) (fun h => leads _ ▸ h) (missed _) (waits _) (held _)
        (outcome _) trivial

theorem Invariant.joinInflight (inv : Invariant cfg cacheKeyFor tokens s)
    (distinct : tokens.InjOn cacheKeyFor) (here : s.goroutines g = some x) (at_ : x.pc = .join) :
    Invariant cfg cacheKeyFor tokens (s.joinInflight g x (cacheKeyFor x.token)) := by
  have ok := inv.each g x here
  unfold State.joinInflight
  cases free : s.inflight (cacheKeyFor x.token) with
  | some leader =>
    refine inv.goto here (by simp [at_, Pc.rejecting]) ?_
    refine ok.next (.wait leader) (by simp [Pc.leads]) (by simp [Pc.missed]) ?_ (by simp [Pc.held])
      (by simp) (by simp [Pc.outcome])
    rintro _ ⟨⟩
    obtain ⟨y, started, same⟩ := inv.registered _ _ free
    exact ⟨y, started, distinct (inv.presented _ y started) (inv.presented g x here) same⟩
  | none =>
    refine inv.move { x with pc := .recheck } here ?_ ?_ ?_ ?_
    · refine ⟨rfl, rfl, rfl, inv.cache, List.prefix_rfl,
        fun token _ _ => ⟨.refl _ _, fun _ cached => cached⟩, ?_, ?_, ?_⟩
      · intro k h _ registered
        refine (Function.update_of_ne ?_ ..).trans registered
        rintro rfl
        rw [free] at registered
        cases registered
      · intro k h registered
        rcases Steps.update_eq_some registered with ⟨rfl, ⟨⟩⟩ | ⟨-, old⟩
        exacts [.inr ⟨rfl, rfl⟩, .inl old]
      · intro leader call o known settled
        rcases Steps.update_eq_some known with ⟨rfl, ⟨⟩⟩ | ⟨-, old⟩
        · cases settled
        · exact .inl ⟨call, old, settled⟩
    · refine ⟨fun _ => Function.update_self .., ?_, ?_, ?_, ?_, ?_⟩ <;> simp [Pc.missed, Pc.held, Pc.outcome]
    · intro i token workspace t past decided
      cases (List.getElem?_eq_none past).symm.trans decided
    · intro leads
      simp [at_, Pc.leads] at leads

/-- A 401 answer taken by the leader of the token: every cached acceptance of the token is
now under rejection. -/
theorem Invariant.reject (inv : Invariant cfg cacheKeyFor tokens s)
    (here : s.goroutines g = some x) (leads : x.pc.leads = true) (missed : x.pc.missed = true) :
    Invariant cfg cacheKeyFor tokens
      ((s.record [.rejected x.token s.now]).goto g x (.store ⟨[], false, 0, none⟩)) := by
  have ok := inv.each g x here
  refine inv.move { x with pc := .store ⟨[], false, 0, none⟩ } here ?_ ?_ ?_ ?_
  · refine ⟨rfl, rfl, rfl, inv.cache, List.prefix_append _ _, ?_, fun _ _ _ h => h,
      fun _ _ h => .inl h, fun _ call _ known settled => .inl ⟨call, known, settled⟩⟩
    intro token _ other
    refine ⟨.append fun t member => other leads ?_, fun _ cached => cached⟩
    cases List.mem_singleton.mp member
    rfl
  · refine ⟨fun _ => ok.leads leads, ?_, fun _ => ok.missed missed, ?_, ?_, ?_⟩ <;>
      simp [Pc.held, Pc.outcome]
  · intro i token workspace t past decided
    have recent := (List.getElem?_append_right past).symm.trans decided
    cases List.mem_singleton.mp (List.mem_of_getElem? recent)
  · intro _ entry cached positive
    obtain ⟨on, life, -⟩ := inv.entries x.token (inv.presented g x here) entry cached positive
    exact ⟨on, life, .inr ⟨g, { x with pc := .store ⟨[], false, 0, none⟩ },
      Function.update_self .., rfl, rfl⟩⟩

/-- storeEntry replaces whatever was known of the token. -/
theorem Invariant.storeEntry (inv : Invariant cfg cacheKeyFor tokens s)
    (distinct : tokens.InjOn cacheKeyFor) (here : s.goroutines g = some x) {entry : CacheEntry}
    {o : Outcome} (at_ : x.pc = .storeEntry entry o) :
    Invariant cfg cacheKeyFor tokens
      ({ s with cache := storeEntry cfg s.cache (cacheKeyFor x.token) entry }.goto g x
        (.result o)) := by
  have ok := inv.each g x here
  have leads : x.pc.leads = true := by rw [at_]; rfl
  refine inv.move { x with pc := .result o } here ?_ ?_ ?_ ?_
  · refine ⟨rfl, rfl, rfl, inv.cache.put _ _ _, List.prefix_rfl, ?_, fun _ _ _ h => h,
      fun _ _ h => .inl h, fun _ call _ known settled => .inl ⟨call, known, settled⟩⟩
    intro token presented other
    refine ⟨.refl _ _, fun entry' cached => ?_⟩
    rcases inv.cache.peek_put cached with ⟨same, -⟩ | ⟨-, old⟩
    · exact absurd (distinct presented (inv.presented g x here) same) (other leads)
    · exact old
  · refine ⟨fun _ => ok.leads leads, by simp, by simp [Pc.missed], by simp [Pc.held], by simp, ?_⟩
    rintro _ ⟨⟩
    exact ok.outcome o (by rw [at_]; rfl)
  · intro i token workspace t past decided
    cases (List.getElem?_eq_none past).symm.trans decided
  · intro _ entry' cached positive
    rcases inv.cache.peek_put cached with ⟨-, rfl⟩ | ⟨other, -⟩
    · obtain ⟨on, life⟩ := ok.written entry' o at_
      exact ⟨on, life positive, .inl (ok.held entry' (by rw [at_]; rfl) positive)⟩
    · exact absurd rfl other

theorem Invariant.unregister (inv : Invariant cfg cacheKeyFor tokens s)
    (here : s.goroutines g = some x) {o : Outcome} (at_ : x.pc = .unregister o) :
    Invariant cfg cacheKeyFor tokens
      ((s.setInflight (cacheKeyFor x.token) none).goto g x (.close o)) := by
  have ok := inv.each g x here
  have mine := ok.leads (by rw [at_]; rfl)
  refine inv.move { x with pc := .close o } here ?_ ?_ ?_ ?_
  · refine ⟨rfl, rfl, rfl, inv.cache, List.prefix_rfl, fun _ _ _ => ⟨.refl _ _, fun _ cached => cached⟩,
      ?_, ?_, fun _ call _ known settled => .inl ⟨call, known, settled⟩⟩
    · intro k h other registered
      refine (Function.update_of_ne ?_ ..).trans registered
      rintro rfl
      exact other (Option.some.inj (registered.symm.trans mine))
    · intro k h registered
      rcases Steps.update_eq_some registered with ⟨rfl, ⟨⟩⟩ | ⟨-, old⟩
      exact .inl old
  · refine ⟨by simp [Pc.leads], by simp, by simp [Pc.missed], by simp [Pc.held], by simp, ?_⟩
    rintro _ ⟨⟩
    exact ok.outcome o (by rw [at_]; rfl)
  · intro i token workspace t past decided
    cases (List.getElem?_eq_none past).symm.trans decided
  · intro leads entry cached positive
    obtain ⟨on, life, fresh | under⟩ := inv.entry_of_leader here leads cached positive
    · exact ⟨on, life, .inl fresh⟩
    · rw [at_] at under
      cases under

/-- A stale entry found by the leader of its token has no rejection under way. -/
theorem Invariant.fallback (inv : Invariant cfg cacheKeyFor tokens s)
    (here : s.goroutines g = some x) {onMiss : Error} (at_ : x.pc = .fallback onMiss)
    {stale : CacheEntry}
    (found : lookupStale cfg s.now s.cache (cacheKeyFor x.token) = some stale) :
    Invariant cfg cacheKeyFor tokens ((s.decide x.token stale.workspace).1.goto g x
      (.storeStale stale (s.decide x.token stale.workspace).2)) := by
  have ok := inv.each g x here
  have leads : x.pc.leads = true := by rw [at_]; rfl
  have missed : x.pc.missed = true := by rw [at_]; rfl
  obtain ⟨-, on, cached, positive, t', verified, young⟩ := lookupStale_eq_some_iff.mp found
  obtain ⟨-, -, fresh | under⟩ := inv.entry_of_leader here leads cached positive
  · have observes := inv.observes_self.decide x.token stale.workspace
    obtain ⟨_, verified', past, supported⟩ := fresh
    cases Option.some.inj (verified.symm.trans verified')
    refine inv.decide here inv.observes_self rfl ?_ supported past
      (.inr ⟨on, Int.le_of_lt young⟩) (by rw [at_]; rfl) ?_
    · intro i token w t later decided
      cases (List.getElem?_eq_none later).symm.trans decided
    · refine (ok.observe observes).next _ (fun _ => leads) (fun _ => missed) (by simp) ?_ (by simp) ?_
      · rintro _ ⟨⟩ -
        exact EntryFresh.grow ⟨t', verified, past, supported⟩ (Int.le_refl _) (observes.history _)
      · rintro _ ⟨⟩
        exact recorded_decide s x.token stale.workspace
  · rw [at_] at under
    cases under

/-- store: a 200 answer is accepted and decided at once. -/
theorem Invariant.accept (inv : Invariant cfg cacheKeyFor tokens s)
    (here : s.goroutines g = some x) {entry : CacheEntry} (at_ : x.pc = .store entry)
    (positive : entry.ok = true) {pc : Pc}
    (next : let s₁ := ((s.record [.accepted x.token entry.workspace s.now]).decide x.token
        entry.workspace)
      (∃ stamped, storeStamp cfg s.now entry = some stamped ∧ pc = .storeEntry stamped s₁.2) ∨
        pc = .result s₁.2) :
    Invariant cfg cacheKeyFor tokens
      (((s.record [.accepted x.token entry.workspace s.now]).decide x.token
        entry.workspace).1.goto g x pc) := by
  have ok := inv.each g x here
  have leads : x.pc.leads = true := by rw [at_]; rfl
  have missed : x.pc.missed = true := by rw [at_]; rfl
  have accepted : Observes s (s.record [.accepted x.token entry.workspace s.now]) :=
    inv.observes_self.record (by simp)
  have supported : Supported (s.record [.accepted x.token entry.workspace s.now]).history x.token
      entry.workspace s.now := by
    refine ⟨s.history.length, by simp [State.record], fun m t after rejected => ?_⟩
    exact (accepted.history x.token).quiet m t (Nat.le_of_lt after) rejected
  have observes := accepted.decide x.token entry.workspace
  refine inv.decide here accepted rfl ?_ supported (Int.le_refl _)
    (.inl (by have := cfg.cacheTTL_nonneg; omega)) (by simp [at_, Pc.rejecting, positive]) ?_
  · intro i token w t later decided
    have recent := (List.getElem?_append_right later).symm.trans decided
    cases List.mem_singleton.mp (List.mem_of_getElem? recent)
  · have recorded := recorded_decide (s.record [.accepted x.token entry.workspace s.now]) x.token
      entry.workspace
    rcases next with ⟨stamped, stamp, rfl⟩ | rfl
    · obtain ⟨on, -, stampedAt⟩ := storeStamp_positive stamp
      obtain ⟨workspace, verified, expires⟩ := stampedAt positive
      refine (ok.observe observes).next _ (fun _ => leads) (fun _ => missed) (by simp) ?_ ?_ ?_
      · rintro _ ⟨⟩ -
        exact ⟨s.now, verified, Int.le_refl _, by
          rw [workspace]
          exact supported.grow (.append (by simp))⟩
      · rintro _ _ ⟨⟩
        exact ⟨on, fun _ => ⟨s.now, verified, .inl expires⟩⟩
      · rintro _ ⟨⟩
        exact recorded
    · exact (ok.observe observes).settled _ (fun _ => leads) rfl (by simp) rfl rfl recorded

theorem Invariant.store (inv : Invariant cfg cacheKeyFor tokens s)
    (here : s.goroutines g = some x) {entry : CacheEntry} (at_ : x.pc = .store entry)
    (stepped : advance cfg cacheKeyFor s g x = some s') : Invariant cfg cacheKeyFor tokens s' := by
  have ok := inv.each g x here
  simp only [advance, at_] at stepped
  by_cases positive : entry.ok = true
  · rw [if_pos positive] at stepped
    split at stepped
    next stamped stamp =>
      rw [← Option.some.inj stepped]
      exact inv.accept here at_ positive (.inl ⟨stamped, stamp, rfl⟩)
    next =>
      rw [← Option.some.inj stepped]
      exact inv.accept here at_ positive (.inr rfl)
  · rw [if_neg positive] at stepped
    split at stepped
    next stamped stamp =>
      obtain ⟨on, negative, -⟩ := storeStamp_positive stamp
      have notOk : stamped.ok = true → False := fun h => positive (negative ▸ h)
      rw [← Option.some.inj stepped]
      refine inv.goto here (fun _ _ => by simpa [Pc.rejecting] using notOk) ?_
      refine ok.next _ (by simp [at_, Pc.leads]) (by simp [at_, Pc.missed]) (by simp) ?_ ?_ ?_
      · rintro _ ⟨⟩ h
        exact (notOk h).elim
      · rintro _ _ ⟨⟩
        exact ⟨on, fun h => (notOk h).elim⟩
      · rintro _ ⟨⟩
        trivial
    next unstamped =>
      rw [← Option.some.inj stepped]
      refine inv.goto here (fun _ on => ?_) ?_
      · simp [storeStamp, positive, not_le.mpr on] at unstamped
      · exact ok.settled _ (by simp [at_, Pc.leads]) rfl (by simp) rfl rfl trivial

theorem Invariant.storeStale (inv : Invariant cfg cacheKeyFor tokens s)
    (here : s.goroutines g = some x) {stale : CacheEntry} {o : Outcome}
    (at_ : x.pc = .storeStale stale o) (stepped : advance cfg cacheKeyFor s g x = some s') :
    Invariant cfg cacheKeyFor tokens s' := by
  have ok := inv.each g x here
  have recorded := ok.outcome o (by rw [at_]; rfl)
  simp only [advance, at_] at stepped
  split at stepped
  next stamped stamp =>
    obtain ⟨ttl, on, sameOk, workspace, verified, t', verifiedAt, expires⟩ :=
      storeStaleStamp_spec stamp
    rw [← Option.some.inj stepped]
    refine inv.goto here (by simp [at_, Pc.rejecting]) ?_
    refine ok.next _ (by simp [at_, Pc.leads]) (by simp [at_, Pc.missed]) (by simp) ?_ ?_ ?_
    · rintro _ ⟨⟩ positive
      have fresh := ok.held stale (by rw [at_]; rfl) (sameOk ▸ positive)
      rw [EntryFresh, workspace, verified]
      exact fresh
    · rintro _ _ ⟨⟩
      exact ⟨ttl, fun _ => ⟨t', verified.trans verifiedAt, .inr ⟨on, expires⟩⟩⟩
    · rintro _ ⟨⟩
      exact recorded
  next =>
    rw [← Option.some.inj stepped]
    exact inv.goto here (by simp [at_, Pc.rejecting])
      (ok.settled _ (by simp [at_, Pc.leads]) rfl (by simp) rfl rfl recorded)

theorem Invariant.answered (inv : Invariant cfg cacheKeyFor tokens s)
    (here : s.goroutines g = some x) {answer : Except Error Str} (at_ : x.pc = .answered answer)
    (stepped : advance cfg cacheKeyFor s g x = some s') : Invariant cfg cacheKeyFor tokens s' := by
  have ok := inv.each g x here
  have leads : x.pc.leads = true := by rw [at_]; rfl
  have missed : x.pc.missed = true := by rw [at_]; rfl
  have calm : x.pc.rejecting = true → ∀ {p : Prop}, p := fun h => absurd h (by simp [at_, Pc.rejecting])
  have gaveUp : Invariant cfg cacheKeyFor tokens (s.goto g x (.result (.failed .canceled))) :=
    inv.goto here (fun h _ => calm h) (ok.settled _ (fun _ => leads) rfl (by simp) rfl rfl trivial)
  simp only [advance, at_] at stepped
  split at stepped
  next => exact Option.some.inj stepped ▸ gaveUp
  next =>
    cases answer with
    | ok workspace =>
      rw [← Option.some.inj stepped]
      exact inv.goto here (fun h _ => calm h)
        (ok.silent _ (fun _ => leads) (fun _ => missed) (by simp) rfl rfl)
    | error err =>
      cases err with
      | canceled => exact Option.some.inj stepped ▸ gaveUp
      | unauthenticated =>
        rw [← Option.some.inj stepped]
        exact inv.reject here leads missed
      | unreachable =>
        rw [← Option.some.inj stepped]
        exact inv.goto here (fun h _ => calm h)
          (ok.silent _ (fun _ => leads) (fun _ => missed) (by simp) rfl rfl)

/-- A waiter repeats its leader's outcome or starts over. -/
theorem Invariant.wait (inv : Invariant cfg cacheKeyFor tokens s)
    (here : s.goroutines g = some x) {leader : Nat} (at_ : x.pc = .wait leader)
    (stepped : advance cfg cacheKeyFor s g x = some s') : Invariant cfg cacheKeyFor tokens s' := by
  have ok := inv.each g x here
  have calm : x.pc.rejecting = true → ∀ {p : Prop}, p := fun h => absurd h (by simp [at_, Pc.rejecting])
  simp only [advance, at_] at stepped
  obtain ⟨call, known, stepped⟩ := Option.bind_eq_some_iff.mp stepped
  split at stepped
  next =>
    split at stepped
    next =>
      rw [← Option.some.inj stepped]
      exact inv.goto here (fun h _ => calm h)
        (ok.silent _ (by simp [Pc.leads]) (by simp [Pc.missed]) (by simp) rfl rfl)
    next =>
      obtain ⟨o, settled, rfl⟩ := Option.map_eq_some_iff.mp stepped
      obtain ⟨y, started, recorded⟩ := inv.calls leader call o known settled
      obtain ⟨y', started', token⟩ := ok.waits leader at_
      cases Option.some.inj (started.symm.trans started')
      exact inv.goto here (fun h _ => calm h)
        (ok.settled _ (by simp [Pc.leads]) rfl (by simp) rfl rfl (token ▸ recorded))
  next => cases stepped

theorem Invariant.advance (inv : Invariant cfg cacheKeyFor tokens s)
    (distinct : tokens.InjOn cacheKeyFor) (here : s.goroutines g = some x)
    (stepped : advance cfg cacheKeyFor s g x = some s') : Invariant cfg cacheKeyFor tokens s' := by
  have ok := inv.each g x here
  cases at_ : x.pc with
  | wait leader => exact inv.wait here at_ stepped
  | answered answer => exact inv.answered here at_ stepped
  | store entry => exact inv.store here at_ stepped
  | storeStale stale o => exact inv.storeStale here at_ stepped
  | calling | done o =>
    simp only [Auth.advance, at_] at stepped
    cases stepped
  | enter =>
    simp only [Auth.advance, at_] at stepped
    rw [← Option.some.inj stepped]
    refine inv.goto here (by simp [at_, Pc.rejecting]) ?_
    split
    · exact ok.settled _ (by simp [Pc.leads]) rfl (by simp) rfl rfl trivial
    · exact ok.silent _ (by simp [Pc.leads]) (by simp [Pc.missed]) (by simp) rfl rfl
  | lookup =>
    simp only [Auth.advance, at_] at stepped
    rw [← Option.some.inj stepped]
    refine inv.cachedResult here (by simp [at_, Pc.leads]) (by simp [Pc.missed]) (by simp)
      (by simp [Pc.held]) (by simp [Pc.outcome]) (by simp [at_, Pc.rejecting]) fun _ => ?_
    exact ok.silent _ (by simp [Pc.leads]) (by simp [Pc.missed]) (by simp) rfl rfl
  | join =>
    simp only [Auth.advance, at_] at stepped
    rw [← Option.some.inj stepped]
    exact inv.joinInflight distinct here at_
  | recheck =>
    simp only [Auth.advance, at_] at stepped
    rw [← Option.some.inj stepped]
    refine inv.cachedResult here (by simp [at_, Pc.leads]) (by simp [Pc.missed]) (by simp)
      (by simp [Pc.held]) (by simp [Pc.outcome]) (by simp [at_, Pc.rejecting]) fun missed => ?_
    exact ⟨fun _ => ok.leads (by rw [at_]; rfl), by simp, fun _ => missed, by simp [Pc.held],
      by simp, by simp [Pc.outcome]⟩
  | limit =>
    simp only [Auth.advance, at_] at stepped
    rw [← Option.some.inj stepped]
    exact inv.goto here (by simp [at_, Pc.rejecting])
      (ok.silent _ (by simp [at_, Pc.leads]) (by simp [at_, Pc.missed]) (by simp) rfl rfl)
  | charge now =>
    simp only [Auth.advance, at_] at stepped
    rw [← Option.some.inj stepped]
    refine inv.stay here ⟨rfl, rfl, rfl, inv.cache, fun _ => rfl, Unrejected.refl s.history⟩ rfl
      (fun _ call _ known settled => .inl ⟨call, known, settled⟩) (by simp [at_, Pc.rejecting]) ?_
    split <;>
      exact ok.silent _ (by simp [at_, Pc.leads]) (by simp [at_, Pc.missed]) (by simp) rfl rfl
  | fallback onMiss =>
    simp only [Auth.advance, at_] at stepped
    split at stepped
    next =>
      rw [← Option.some.inj stepped]
      exact inv.goto here (by simp [at_, Pc.rejecting])
        (ok.settled _ (by simp [at_, Pc.leads]) rfl (by simp) rfl rfl trivial)
    next stale found =>
      rw [← Option.some.inj stepped]
      exact inv.fallback here at_ found
  | storeEntry entry o =>
    simp only [Auth.advance, at_] at stepped
    rw [← Option.some.inj stepped]
    exact inv.storeEntry distinct here at_
  | unregister o =>
    simp only [Auth.advance, at_] at stepped
    rw [← Option.some.inj stepped]
    exact inv.unregister here at_
  | result o | mark o | close o =>
    have recorded := ok.outcome o (by rw [at_]; rfl)
    simp only [Auth.advance, at_] at stepped
    rw [← Option.some.inj stepped]
    exact inv.updateCall here _ rfl (by simp) (by simp [at_, Pc.rejecting])
      (ok.settled _ (by simp [at_, Pc.leads]) rfl (by simp) rfl rfl recorded)

theorem Invariant.start (inv : Invariant cfg cacheKeyFor tokens s)
    (free : s.goroutines g = none) {token : Str} (presented : token ∈ tokens) (sender : Str) :
    Invariant cfg cacheKeyFor tokens (s.set g ⟨token, sender, false, .enter⟩) := by
  have old : ∀ h y, s.goroutines h = some y →
      (s.set g ⟨token, sender, false, .enter⟩).goroutines h = some y := by
    intro h y started
    refine (Function.update_of_ne ?_ ..).trans started
    rintro rfl
    rw [free] at started
    cases started
  have kept : TokensKept s (s.set g ⟨token, sender, false, .enter⟩) :=
    fun h y started => ⟨y, old h y started, rfl⟩
  have each : ∀ h y, (s.set g ⟨token, sender, false, .enter⟩).goroutines h = some y →
      s.goroutines h = some y ∨ y = ⟨token, sender, false, .enter⟩ := by
    intro h y started
    rcases Steps.update_eq_some started with ⟨rfl, ⟨⟩⟩ | ⟨-, known⟩
    exacts [.inr rfl, .inl known]
  refine ⟨inv.cache, ?_, ?_, ?_, ?_, inv.decisions, ?_⟩
  · intro h y started
    rcases each h y started with known | rfl
    exacts [inv.presented h y known, presented]
  · intro k h registered
    obtain ⟨y, started, same⟩ := inv.registered k h registered
    exact ⟨y, old h y started, same⟩
  · intro h y started
    rcases each h y started with known | rfl
    · have ok := inv.each h y known
      exact ok.keep (Int.le_refl _) List.prefix_rfl kept fun leads =>
        ⟨ok.leads leads, .refl _ _, fun _ cached => cached⟩
    · exact ⟨by simp [Pc.leads], by simp, by simp [Pc.missed], by simp [Pc.held], by simp,
        by simp [Pc.outcome]⟩
  · intro leader call o known settled
    obtain ⟨y, started, recorded⟩ := inv.calls leader call o known settled
    exact ⟨y, old leader y started, recorded⟩
  · intro t ht entry cached positive
    obtain ⟨on, life, fresh | ⟨h, y, started, rest⟩⟩ := inv.entries t ht entry cached positive
    exacts [⟨on, life, .inl fresh⟩, ⟨on, life, .inr ⟨h, y, old h y started, rest⟩⟩]

/-- Time alone makes no entry live again. -/
theorem Invariant.tick (inv : Invariant cfg cacheKeyFor tokens s) (elapsed : Nat) :
    Invariant cfg cacheKeyFor tokens { s with now := s.now + elapsed } := by
  have later : s.now ≤ s.now + elapsed := by omega
  refine ⟨inv.cache, inv.presented, inv.registered, ?_, inv.calls, inv.decisions, ?_⟩
  · intro h y started
    have ok := inv.each h y started
    exact ok.keep later List.prefix_rfl (fun _ z known => ⟨z, known, rfl⟩) fun leads =>
      ⟨ok.leads leads, .refl _ _, fun _ cached => cached⟩
  · intro t ht entry cached positive
    obtain ⟨on, life, fresh | under⟩ := inv.entries t ht entry cached positive
    exacts [⟨on, life, .inl (fresh.grow later (.refl _ _))⟩, ⟨on, life, .inr under⟩]

theorem Invariant.cancel (inv : Invariant cfg cacheKeyFor tokens s)
    (here : s.goroutines g = some x) :
    Invariant cfg cacheKeyFor tokens (s.set g { x with canceled := true }) := by
  have ok : Local cfg cacheKeyFor s g { x with canceled := true } :=
    let ok := inv.each g x here
    ⟨ok.leads, ok.waits, ok.missed, ok.held, ok.written, ok.outcome⟩
  have moved : Moved cacheKeyFor tokens s (s.set g { x with canceled := true }) g x
      { x with canceled := true } :=
    ⟨rfl, rfl, rfl, inv.cache, List.prefix_rfl, fun _ _ _ => ⟨.refl _ _, fun _ cached => cached⟩,
      fun _ _ _ h => h, fun _ _ h => .inl h, fun _ call _ known settled => .inl ⟨call, known, settled⟩⟩
  refine inv.move _ here moved ?_ ?_ ?_
  · exact ok.keep (Int.le_refl _) List.prefix_rfl (moved.tokensKept here) fun leads =>
      ⟨ok.leads leads, .refl _ _, fun _ cached => cached⟩
  · intro i token workspace t past decided
    cases (List.getElem?_eq_none past).symm.trans decided
  · intro leads entry cached positive
    obtain ⟨on, life, fresh | under⟩ := inv.entry_of_leader here leads cached positive
    · exact ⟨on, life, .inl fresh⟩
    · exact ⟨on, life, .inr ⟨g, _, Function.update_self .., rfl, under⟩⟩

/-- The tokens presented in a run. -/
def presentedTokens (actions : List Action) : Set Str :=
  { token | ∃ g sender, .start g token sender ∈ actions }

theorem Invariant.step (distinct : tokens.InjOn cacheKeyFor) (action : Action)
    (inv : Invariant cfg cacheKeyFor tokens s)
    (presented : ∀ g token sender, action = .start g token sender → token ∈ tokens)
    (stepped : step cfg cacheKeyFor s action = some s') : Invariant cfg cacheKeyFor tokens s' := by
  cases action with
  | start g token sender =>
    simp only [Auth.step] at stepped
    split at stepped
    next free =>
      rw [← Option.some.inj stepped]
      exact inv.start free (presented g token sender rfl) sender
    next => cases stepped
  | tick elapsed => exact Option.some.inj stepped ▸ inv.tick elapsed
  | cancel g =>
    obtain ⟨x, here, rfl⟩ := Option.map_eq_some_iff.mp stepped
    exact inv.cancel here
  | giveUp g =>
    obtain ⟨x, here, stepped⟩ := Option.bind_eq_some_iff.mp stepped
    split at stepped
    next leader at_ =>
      split at stepped
      next =>
        rw [← Option.some.inj stepped]
        exact inv.goto here (by simp [at_, Pc.rejecting]) ((inv.each g x here).settled _
          (by simp [Pc.leads]) rfl (by simp) rfl rfl trivial)
      next => cases stepped
    next => cases stepped
  | answer g response =>
    obtain ⟨x, here, stepped⟩ := Option.bind_eq_some_iff.mp stepped
    split at stepped
    next at_ =>
      rw [← Option.some.inj stepped]
      exact inv.goto here (by simp [at_, Pc.rejecting]) ((inv.each g x here).silent _
        (by simp [at_, Pc.leads]) (by simp [at_, Pc.missed]) (by simp) rfl rfl)
    next => cases stepped
  | advance g =>
    obtain ⟨x, here, stepped⟩ := Option.bind_eq_some_iff.mp stepped
    exact inv.advance distinct here stepped

theorem invariant_newAuth (cfg : Config) (cacheKeyFor : Str → Str) (tokens : Set Str) (now : Int) :
    Invariant cfg cacheKeyFor tokens (newAuth cfg now) := by
  refine ⟨Lru.empty_wellFormed, ?_, ?_, ?_, ?_, ?_, ?_⟩ <;> simp [newAuth, Lru.peek, Lru.node, Lru.empty]

theorem invariant_run {now : Int} {actions : List Action}
    (distinct : (presentedTokens actions).InjOn cacheKeyFor)
    (ran : Steps.run (step cfg cacheKeyFor) (newAuth cfg now) actions = some s) :
    Invariant cfg cacheKeyFor (presentedTokens actions) s := by
  have along : Steps.Along (step cfg cacheKeyFor)
      (fun _ action => ∀ g token sender, action = .start g token sender →
        token ∈ presentedTokens actions) (newAuth cfg now) actions := by
    refine Steps.along_of_mem _ fun action member _ g token sender same => ?_
    exact ⟨g, sender, same ▸ member⟩
  exact Steps.run_invariant_along
    (fun s a s' inv presented stepped => inv.step distinct a presented stepped) along ran
    (invariant_newAuth cfg cacheKeyFor _ now)

/-- Every workspace verify returns repeats a decision of the history, every decision
follows a recent acceptance of its token that no rejection came after, and re-caching
never carries an entry past the stale deadline. -/
theorem verify_fresh (cfg : Config) (cacheKeyFor : Str → Str) (now : Int) (actions : List Action)
    (distinct : (presentedTokens actions).InjOn cacheKeyFor) (s : State)
    (ran : Steps.run (step cfg cacheKeyFor) (newAuth cfg now) actions = some s) :
    (∀ g x workspace i, s.goroutines g = some x → x.pc = .done (.verified workspace i) →
      ∃ t, s.history[i]? = some (.decided x.token workspace t)) ∧
    (∀ i token workspace t, s.history[i]? = some (.decided token workspace t) →
      ∃ (j : Nat) (t' : Int), j < i ∧ s.history[j]? = some (.accepted token workspace t') ∧
        t' ≤ t ∧ t - t' ≤ max cfg.cacheTTL cfg.maxStaleAge ∧
        (cfg.maxStaleAge = 0 → t - t' ≤ cfg.cacheTTL) ∧
        ∀ (m : Nat) (u : Int), j < m → m < i → s.history[m]? ≠ some (.rejected token u)) ∧
    ∀ token ∈ presentedTokens actions, ∀ entry,
      s.cache.peek (cacheKeyFor token) = some entry → entry.ok = true →
      ∃ verifiedAt, entry.verifiedAt = some verifiedAt ∧
        (entry.expires = verifiedAt + cfg.cacheTTL ∨
          0 < cfg.maxStaleAge ∧ entry.expires ≤ verifiedAt + cfg.maxStaleAge) := by
  have inv := invariant_run distinct ran
  refine ⟨?_, inv.decisions, ?_⟩
  · intro g x workspace i started returned
    exact (inv.each g x started).outcome (.verified workspace i) (by rw [returned]; rfl)
  · intro token presented entry cached positive
    obtain ⟨-, life, -⟩ := inv.entries token presented entry cached positive
    exact life

/-- A minute of trust and five minutes of outage fallback. -/
def outageConfig : Config where
  cacheTTL := 60 * second
  maxStaleAge := 300 * second
  cacheMaxEntries := 2
  senderVerifyLimit := 20
  senderVerifyWindow := 60 * second
  cacheTTL_nonneg := by decide
  maxStaleAge_nonneg := by decide
  window_pos := by decide

/-- A key verified once and asked for again two minutes later, while the API is down. -/
def outageRun : List Action :=
  .start 0 (lit "k") (lit "10.0.0.1") :: List.replicate 6 (Action.advance 0) ++
  .answer 0 (.http 200 (some (lit "w"))) :: List.replicate 7 (Action.advance 0) ++
  .tick (120 * 1000000000) :: .start 1 (lit "k") (lit "10.0.0.1") ::
  List.replicate 6 (Action.advance 1) ++
  .answer 1 (.transport false) :: List.replicate 8 (Action.advance 1)

/-- SHA-256 on the key of the run, in hex. -/
def outageKeyFor (token : Str) : Str :=
  if token = lit "k" then lit "8254c329a92850f6d539dd376f4816ee2764517da5e0235514af433164480d7a"
  else token

theorem presentedTokens_outageRun {token : Str} (presented : token ∈ presentedTokens outageRun) :
    token = lit "k" := by
  obtain ⟨g, sender, member⟩ := presented
  simp [outageRun] at member
  rcases member with ⟨-, same, -⟩ | ⟨-, same, -⟩ <;> exact same

theorem verify_fresh_outage : ∃ s : State,
    Steps.run (step outageConfig outageKeyFor) (newAuth outageConfig 0) outageRun = some s ∧
    s.history[2]? = some (.decided (lit "k") (lit "w") (120 * second)) ∧
    ∃ (j : Nat) (t' : Int), j < 2 ∧ s.history[j]? = some (.accepted (lit "k") (lit "w") t') ∧
      120 * second - t' ≤ 300 * second := by
  have ends : (Steps.run (step outageConfig outageKeyFor) (newAuth outageConfig 0) outageRun).map
      (·.history[2]?) = some (some (.decided (lit "k") (lit "w") (120 * second))) := by decide +kernel
  obtain ⟨s, ran, decided⟩ := Option.map_eq_some_iff.mp ends
  have distinct : (presentedTokens outageRun).InjOn outageKeyFor := by
    intro a ha b hb _
    rw [presentedTokens_outageRun ha, presentedTokens_outageRun hb]
  obtain ⟨-, decisions, -⟩ := verify_fresh outageConfig outageKeyFor 0 outageRun distinct s ran
  obtain ⟨j, t', before, accepted, -, age, -⟩ := decisions 2 _ _ _ decided
  exact ⟨s, ran, decided, j, t', before, accepted, age⟩

end Tracium.Auth
