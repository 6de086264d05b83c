import Tracium.Membership.Integrity
import Tracium.Membership.Lifecycle

/-! The statements a run of the store has executed, each with the tables before and after it.
From them: an invite's link admits one member, once, while it is open; a closed invite stays
closed; a request that fails has changed nothing, unless it failed to hear of its commit. -/
namespace Tracium.Membership

open Go ReadCommitted

/-- A statement that ran: the request it belongs to, its transaction's NOW(), whether its reply
was lost, and the tables. -/
structure Ran where
  session : Nat
  request : Option Request
  startedAt : Int
  lost : Bool
  before : Tables
  after : Tables

/-- The store, what its sessions were asked to do, and what they have run. -/
structure Watched where
  state : State
  requests : Nat → Option Request
  history : List Ran

def watch (now : Int) : Watched := ⟨newStore now, fun _ => none, []⟩

/-- A session's statement, or nothing where the action runs none. -/
def Watched.statement (n : Watched) (s' : State) (a : Action) : List Ran :=
  match a.runs with
  | some (t, lost) => match n.state.sessions t with
    | none => []
    | some x => [⟨t, n.requests t, x.startedAt, lost, n.state.db, s'.db⟩]
  | none => []

def Watched.asked (n : Watched) : Action → Nat → Option Request
  | .start t request => Function.update n.requests t (some request)
  | _ => n.requests

def watchedStep (users : Users) (n : Watched) (a : Action) : Option Watched :=
  (step users n.state a).map fun s' => ⟨s', n.asked a, n.history ++ n.statement s' a⟩

variable (users : Users)

/-- AcceptInvite as it should be: the link's invite was open at the transaction's NOW() and
addressed to the user, who joins as it says or is in already, and it is accepted now. -/
def Ran.Admits (e : Ran) (tokenHash userID : Str) : Prop :=
  ∃ i ∈ e.before.invites, i.tokenHash = tokenHash ∧ i.open e.startedAt = true ∧
    users.lowerEmail userID = some i.email ∧ accepting e.startedAt i ∈ e.after.invites ∧
    (e.after.members = e.before.members ∨
      e.after.members = e.before.members ++ [⟨i.workspaceID, userID, i.role⟩])

/-- The link's invite is closed and nobody will insert another one. -/
structure Shut (s : State) (tokenHash : Str) : Prop where
  drawn : tokenHash ∈ s.links.map Prod.fst
  nobody : ∀ v x, s.sessions v = some x → x.pc.inviting ≠ some tokenHash
  closed : ∀ i ∈ s.db.invites, i.tokenHash = tokenHash → i.unclosed = false

/-- A session of AcceptInvite is where its link and its user have brought it. -/
def Bound (s : State) (t : Nat) (x : Session) (tokenHash userID : Str) : Prop :=
  match x.pc with
  | .acceptBegin tokenHash' userID' | .acceptFind tokenHash' userID'
  | .acceptLock tokenHash' userID' _ | .acceptLoad tokenHash' userID' _ =>
      tokenHash' = tokenHash ∧ userID' = userID
  | .acceptAllow id userID' inviteID role | .acceptInsert id userID' inviteID role
  | .acceptClose id userID' inviteID role => userID' = userID ∧
      ∃ i, Pinned users s t x.startedAt id userID i ∧ i.tokenHash = tokenHash ∧ i.id = inviteID ∧
        i.role = role
  | .acceptCommit id => ∃ i ids, Pinned users s t x.startedAt id userID i ∧
      i.tokenHash = tokenHash ∧ i.id ∈ ids ∧ x.invites = [closing ids (accepting x.startedAt)] ∧
      (x.members = [] ∨ x.members = [.insert ⟨id, userID, i.role⟩])
  | .done _ => True
  | _ => False

/-- What holds of the history and of the sessions that go on. -/
structure Recorded (n : Watched) : Prop where
  life : Lifecycle users n.state
  bound : ∀ t x tokenHash userID, n.state.sessions t = some x →
    n.requests t = some (.acceptInvite tokenHash userID) →
    Bound users n.state t x tokenHash userID
  ended : ∀ e ∈ n.history, e.after ≠ e.before → ∃ x, n.state.sessions e.session = some x ∧
    x.pc = .done (if e.lost then .error .internal else .ok ())
  joined : ∀ e ∈ n.history, ∀ tokenHash userID,
    e.request = some (.acceptInvite tokenHash userID) → e.after ≠ e.before →
    e.Admits users tokenHash userID ∧ Shut n.state tokenHash
  once : n.history.Pairwise fun e f => ∀ tokenHash user₁ user₂,
    e.request = some (.acceptInvite tokenHash user₁) →
    f.request = some (.acceptInvite tokenHash user₂) → e.after ≠ e.before → f.after = f.before

variable {users} {s s' : State} {t u : Nat} {x x' : Session} {id : Str} {rows : List Row}
  {tokenHash userID : Str} {a : Action}

theorem InvitesOk.eq_of_token {db : Tables} (ok : InvitesOk users db) {i j : Invite}
    (first : i ∈ db.invites) (second : j ∈ db.invites) (same : i.tokenHash = j.tokenHash) : i = j := by
  by_contra apart
  have symmetric : Std.Symm fun i j : Invite => i.tokenHash ≠ j.tokenHash :=
    ⟨fun _ _ apart same => apart same.symm⟩
  exact ok.tokens.forall first second apart same

/-- A closed invite is the last one of its link. -/
theorem Lifecycle.shut (life : Lifecycle users s) {i : Invite} (stored : i ∈ s.db.invites)
    (closed : i.unclosed = false) : Shut s i.tokenHash where
  drawn := List.mem_map_of_mem (life.linked i stored)
  nobody := fun _ _ started inviting => (life.unspent started inviting).absent i stored rfl
  closed := fun j stored' same => by rw [life.ok.eq_of_token stored' stored same]; exact closed

theorem Shut.step (shut : Shut s tokenHash) (progress : Progress users s a s') :
    Shut s' tokenHash := by
  -- somebody who takes no part in the step
  obtain ⟨u, other⟩ : ∃ u, a.actor ≠ some u := by
    cases acts : a.actor with
    | none => exact ⟨0, nofun⟩
    | some t => exact ⟨t + 1, by simp⟩
  have tame := progress.tame u other
  refine ⟨?_, ?_, ?_⟩
  · obtain ⟨l, member, rfl⟩ := List.mem_map.mp shut.drawn
    exact List.mem_map_of_mem (tame.links l member)
  · intro v x' started inviting
    obtain ⟨x, old, inviting⟩ := tame.tokens v x' started _ shut.drawn inviting
    exact shut.nobody v x old inviting
  · rintro j member rfl
    rcases progress.invites j member with ⟨i, old, advances⟩ | ⟨v, x, started, inviting⟩
    · have closed := shut.closed i old advances.same.2.2.2.symm
      rcases advances with rfl | ⟨unclosed, -⟩
      · exact closed
      · rw [closed] at unclosed
        cases unclosed
    · exact absurd inviting (shut.nobody v x started)

theorem Bound.keep (bound : Bound users s u x tokenHash userID) (tame : Tame u s s') :
    Bound users s' u x tokenHash userID := by
  unfold Bound at bound ⊢
  split at bound
  case h_5 | h_6 | h_7 =>
    obtain ⟨same, i, pinned, rest⟩ := bound
    exact ⟨same, i, pinned.keep tame, rest⟩
  case h_8 =>
    obtain ⟨i, ids, pinned, rest⟩ := bound
    exact ⟨i, ids, pinned.keep tame, rest⟩
  all_goals exact bound

theorem set_self (s : State) (t : Nat) (x : Session) : (s.set t x).sessions t = some x :=
  Function.update_self ..

theorem start_same {request : Request} {s₁ : State} {pc : Pc}
    (started : request.start s = some (s₁, pc)) :
    s₁.sessions = s.sessions ∧ s₁.db = s.db ∧ s₁.now = s.now := by
  cases request with
  | delete | addMember | acceptInvite | removeMember | revokeInvite =>
    cases Option.some.inj started
    exact ⟨rfl, rfl, rfl⟩
  | create =>
    obtain ⟨-, rfl, -⟩ := Request.start_create started
    exact ⟨rfl, rfl, rfl⟩
  | createInvite =>
    obtain ⟨-, rfl, -⟩ := Request.start_createInvite started
    exact ⟨rfl, rfl, rfl⟩

theorem step_other (stepped : step users s a = some s') (other : a.actor ≠ some t) :
    s'.sessions t = s.sessions t := by
  cases step_effect stepped with
  | tick elapsed => rfl
  | start v request s₁ pc unused started =>
    have apart : t ≠ v := fun same => other (same ▸ rfl)
    rw [← (start_same started).1]
    exact Function.update_of_ne apart ..
  | stop a v y rows result acts =>
    have apart : t ≠ v := fun same => other (same ▸ acts)
    exact Function.update_of_ne apart ..
  | move v | allowed v =>
    have apart : t ≠ v := fun same => other (same ▸ rfl)
    exact Function.update_of_ne apart ..
  | commit a v lost y rows y' runs =>
    have apart : t ≠ v := fun same => other (same ▸ Action.actor_of_runs runs)
    exact Function.update_of_ne apart ..

/-- A session that has ended takes no further step. -/
theorem finished_keep {result : Except Error Unit} (stepped : step users s a = some s')
    (here : s.sessions t = some x) (finished : x.pc = .done result) : s'.sessions t = some x := by
  rw [step_other stepped, here]
  intro acts
  cases a with
  | tick => cases acts
  | start | advance | allow | interrupt | lose =>
    obtain rfl := Option.some.inj acts
    simp [step, here, advance, allow, finished] at stepped

/-- Only a commit changes the tables. -/
theorem commit_of_changed (stepped : step users s a = some s') (changed : s'.db ≠ s.db) :
    ∃ t lost x rows x', a.runs = some (t, lost) ∧ s.sessions t = some x ∧
      (∀ row ∈ rows, s.locks.free t row = true) ∧ Commits s x rows x' ∧
      s' = (s.lock t rows).commit t x' lost := by
  cases step_effect stepped with
  | commit a t lost x rows x' runs here free commits =>
    exact ⟨t, lost, x, rows, x', runs, here, free, commits, rfl⟩
  | start t request s₁ pc unused started => exact absurd (start_same started).2.1 changed
  | tick | stop | move | allowed => exact absurd rfl changed

theorem Lifecycle.bound_acceptLoad (life : Lifecycle users s) {tokenHash' userID' : Str} {i : Invite}
    {next : Pc} (sure : Sure users s t x) (bound : Bound users s t x tokenHash userID)
    (at_ : x.pc = .acceptLoad tokenHash' userID' id)
    (found : (s.view x).invites.find? (·.tokenHash = tokenHash') = some i)
    (opened : i.open x.startedAt = true) (matching : users.lowerEmail userID' = some i.email)
    (next_ : next = .acceptInsert id userID' i.id i.role ∨ next = .acceptAllow id userID' i.id i.role)
    (locked : s.locks (.invite i.id) = some t) :
    Bound users s t { x with pc := next } tokenHash userID := by
  simp only [Sure, at_] at sure
  simp only [Bound, at_] at bound
  obtain ⟨linked, -, blank⟩ := sure
  obtain ⟨rfl, rfl⟩ := bound
  obtain ⟨pinned, token⟩ := life.pinned_of_found linked blank found opened matching locked
  rcases next_ with rfl | rfl
  all_goals exact ⟨rfl, i, pinned, token, rfl, rfl⟩

theorem bound_acceptClose {userID' inviteID : Str} {role : Role} {ids : List Str}
    (sure : Sure users s t x) (bound : Bound users s t x tokenHash userID)
    (at_ : x.pc = .acceptClose id userID' inviteID role)
    (picked : ids = ((s.view x).invites.filter (·.id = inviteID)).map (·.id)) :
    Bound users s t { x with
      pc := .acceptCommit id
      invites := x.invites ++ [closing ids (accepting x.startedAt)] } tokenHash userID := by
  simp only [Sure, at_] at sure
  simp only [Bound, at_] at bound
  obtain ⟨-, -, -, members, invites⟩ := sure
  obtain ⟨rfl, i, pinned, token, rfl, rfl⟩ := bound
  refine ⟨i, ids, pinned, token, ?_, by rw [invites]; rfl, members⟩
  have stored : i ∈ (s.view x).invites := by simpa [State.view, invites] using pinned.stored
  rw [picked]
  exact List.mem_map_of_mem (List.mem_filter.mpr ⟨stored, decide_eq_true rfl⟩)

theorem Lifecycle.bound_move (life : Lifecycle users (s.lock t rows)) (here : s.sessions t = some x)
    (moves : Moves users s x rows x') (locked : ∀ row ∈ rows, (s.lock t rows).locks row = some t)
    (bound : Bound users (s.lock t rows) t x tokenHash userID) :
    Bound users (s.lock t rows) t x' tokenHash userID := by
  have sure := life.each t x here
  cases moves with
  | began next at_ =>
    cases pc : x.pc <;> simp only [pc, Pc.begins, reduceCtorEq, Option.some.injEq] at at_ <;>
      simp only [Bound, pc] at bound
    case acceptBegin =>
      obtain rfl := at_
      exact bound
  | locked id next at_ | unlocked id next at_ =>
    cases pc : x.pc <;>
      simp only [pc, Pc.locking, reduceCtorEq, Option.some.injEq, Prod.mk.injEq] at at_ <;>
      simp only [Bound, pc] at bound
    case acceptLock =>
      obtain ⟨rfl, rfl⟩ := at_
      exact bound
  | authorized caller id next at_ =>
    cases pc : x.pc <;> simp only [pc, Pc.ownerCheck, reduceCtorEq] at at_ <;>
      simp only [Bound, pc] at bound
  | acceptFound tokenHash userID i at_ =>
    simp only [Bound, at_] at bound
    exact bound
  | acceptLoaded tokenHash userID id i next at_ found opened matching next_ =>
    exact life.bound_acceptLoad sure bound at_ found opened matching next_
      (locked _ List.mem_cons_self)
  | acceptInserted id userID inviteID role at_ | acceptKept id userID inviteID role at_ =>
    simp only [Bound, at_] at bound
    exact bound
  | acceptClosed id userID inviteID role ids at_ picked =>
    exact bound_acceptClose sure bound at_ picked
  | created _ at_ | owned _ at_ | deleted _ _ at_ | cleared _ _ _ at_ | grantChecked _ _ at_
  | grantInserted _ _ at_ | grantClosed _ _ _ at_ | inviteChecked _ at_ | inviteReplaced _ _ at_
  | inviteInserted _ at_ | removable _ _ at_ =>
    simp only [Bound, at_] at bound

theorem Bound.allowed {next : Pc} (bound : Bound users s t x tokenHash userID)
    (allows : Allows x next) : Bound users s t { x with pc := next } tokenHash userID := by
  cases allows with
  | grant _ _ _ at_ | invite _ at_ => simp only [Bound, at_] at bound
  | accept id userID inviteID role at_ =>
    simp only [Bound, at_] at bound
    exact bound

/-- Of the statements of AcceptInvite only its commit changes the tables. -/
theorem Bound.commits {s₀ : State} (bound : Bound users s t x tokenHash userID)
    (commits : Commits s₀ x rows x') : x' = x ∧ ∃ id, x.pc = .acceptCommit id := by
  cases commits with
  | transaction at_ =>
    cases pc : x.pc <;> simp only [pc, Pc.commits, Bool.false_eq_true] at at_ <;>
      simp only [Bound, pc] at bound
    case acceptCommit id => exact ⟨rfl, id, rfl⟩
  | removed _ _ at_ | revoked _ _ at_ => simp only [Bound, at_] at bound

/-- The commit admits the user, and its link's invite is closed. -/
theorem Bound.admits (bound : Bound users s t x tokenHash userID)
    (at_ : x.pc = .acceptCommit id) (request : Option Request) (lost : Bool) :
    Ran.Admits users ⟨t, request, x.startedAt, lost, s.db, s.view x⟩ tokenHash userID ∧
      (∃ i ∈ s.db.invites, i.tokenHash = tokenHash ∧ i.unclosed = true) ∧
      ∃ j ∈ (s.view x).invites, j.tokenHash = tokenHash ∧ j.unclosed = false := by
  simp only [Bound, at_] at bound
  obtain ⟨i, ids, pinned, token, within, invites, members⟩ := bound
  have accepted : accepting x.startedAt i ∈ (s.view x).invites := by
    rw [view_closing invites]
    refine List.mem_map.mpr ⟨i, pinned.stored, ?_⟩
    rw [if_pos within]
  refine ⟨⟨i, pinned.stored, token, pinned.opened, pinned.matching, accepted, ?_⟩,
    ⟨i, pinned.stored, token, (Bool.and_eq_true_iff.mp pinned.opened).1⟩, _, accepted, token, rfl⟩
  rw [pinned.workspace]
  exact view_members members

theorem statement_cases (n : Watched) (s' : State) (a : Action) : n.statement s' a = [] ∨
    ∃ t lost x, a.runs = some (t, lost) ∧ n.state.sessions t = some x ∧
      n.statement s' a = [⟨t, n.requests t, x.startedAt, lost, n.state.db, s'.db⟩] := by
  unfold Watched.statement
  split
  next t lost runs =>
    split
    next => exact .inl rfl
    next x here => exact .inr ⟨t, lost, x, runs, here, rfl⟩
  next => exact .inl rfl

variable {n n' : Watched}

/-- An AcceptInvite that changes the tables finds its link's invite unclosed and closes it. -/
theorem Recorded.admits (recorded : Recorded users n) (life : Lifecycle users s') {lost : Bool}
    (runs : a.runs = some (t, lost)) (stepped : step users n.state a = some s')
    (here : n.state.sessions t = some x)
    (request : n.requests t = some (.acceptInvite tokenHash userID)) (changed : s'.db ≠ n.state.db) :
    Ran.Admits users ⟨t, n.requests t, x.startedAt, lost, n.state.db, s'.db⟩ tokenHash userID ∧
      Shut s' tokenHash ∧ ¬Shut n.state tokenHash := by
  obtain ⟨t, lost, x, rows, x', runs', here', free, commits, rfl⟩ := commit_of_changed stepped changed
  obtain ⟨⟩ := runs.symm.trans runs'
  obtain rfl := Option.some.inj (here.symm.trans here')
  have bound := (recorded.bound t x _ _ here request).keep (tame_lock free)
  obtain ⟨rfl, id, at_⟩ := bound.commits commits
  obtain ⟨admits, ⟨i, stored, token, unclosed⟩, j, stored', rfl, closed⟩ :=
    bound.admits at_ (n.requests t) lost
  refine ⟨admits, life.shut stored' closed, fun shut => ?_⟩
  rw [shut.closed i stored token] at unclosed
  cases unclosed

theorem Recorded.bound_step (recorded : Recorded users n) (progress : Progress users n.state a s')
    (stepped : step users n.state a = some s') (started : s'.sessions t = some x)
    (request : n.asked a t = some (.acceptInvite tokenHash userID)) :
    Bound users s' t x tokenHash userID := by
  by_cases acts : a.actor = some t
  · cases step_effect stepped with
    | tick => cases acts
    | start v r s₁ pc unused starts =>
      obtain rfl := Option.some.inj acts
      simp only [Watched.asked, Function.update_self, Option.some.injEq] at request
      subst request
      cases Option.some.inj starts
      obtain rfl := Option.some.inj (started.symm.trans (set_self ..))
      exact ⟨rfl, rfl⟩
    | stop a v y rows result acts' =>
      obtain rfl := Option.some.inj (acts'.symm.trans acts)
      obtain rfl := Option.some.inj (started.symm.trans (set_self ..))
      trivial
    | commit a v lost y rows y' runs =>
      obtain rfl := Option.some.inj ((Action.actor_of_runs runs).symm.trans acts)
      obtain rfl := Option.some.inj (started.symm.trans (set_self ..))
      trivial
    | move v y rows y' here free moves =>
      obtain rfl := Option.some.inj acts
      obtain rfl := Option.some.inj (started.symm.trans (set_self ..))
      have bound := (recorded.bound _ y _ _ here request).keep (tame_lock free)
      have here' : (n.state.lock v rows).sessions v = some y := here
      have moved := (recorded.life.lock free).bound_move here moves
        (fun row member => Locks.acquire_self member) bound
      exact moved.keep (tame_set here' moves.carries.1 moves.carries.2)
    | allowed v y next here allows =>
      obtain rfl := Option.some.inj acts
      obtain rfl := Option.some.inj (started.symm.trans (set_self ..))
      have allowed := (recorded.bound _ y _ _ here request).allowed allows
      exact allowed.keep (tame_set here (.inl allows.carries.1) allows.carries.2)
  · have unasked : n.asked a t = n.requests t := by
      cases a with
      | start v r =>
        have apart : t ≠ v := fun same => acts (same ▸ rfl)
        exact Function.update_of_ne apart ..
      | tick | advance | allow | interrupt | lose => rfl
    rw [step_other stepped acts] at started
    exact (recorded.bound t x _ _ started (unasked ▸ request)).keep (progress.tame t acts)

theorem Recorded.step (recorded : Recorded users n)
    (watched : watchedStep users n a = some n') : Recorded users n' := by
  obtain ⟨s', stepped, rfl⟩ := Option.map_eq_some_iff.mp watched
  have progress := recorded.life.step stepped
  have ended : ∀ e ∈ n.history, e.after ≠ e.before → ∃ x, s'.sessions e.session = some x ∧
      x.pc = .done (if e.lost then .error .internal else .ok ()) := by
    intro e member changed
    obtain ⟨x, here, finished⟩ := recorded.ended e member changed
    exact ⟨x, finished_keep stepped here finished, finished⟩
  have joined : ∀ e ∈ n.history, ∀ tokenHash userID,
      e.request = some (.acceptInvite tokenHash userID) → e.after ≠ e.before →
      e.Admits users tokenHash userID ∧ Shut s' tokenHash := by
    intro e member tokenHash userID request changed
    obtain ⟨admits, shut⟩ := recorded.joined e member tokenHash userID request changed
    exact ⟨admits, shut.step progress⟩
  have bound : ∀ t x tokenHash userID, s'.sessions t = some x →
      n.asked a t = some (.acceptInvite tokenHash userID) →
      Bound users s' t x tokenHash userID :=
    fun _ _ _ _ => recorded.bound_step progress stepped
  rcases statement_cases n s' a with silent | ⟨t, lost, x, runs, here, ran⟩
  · refine ⟨progress.life, bound, ?_, ?_, ?_⟩ <;> rw [silent, List.append_nil]
    exacts [ended, joined, recorded.once]
  · refine ⟨progress.life, bound, ?_, ?_, ?_⟩ <;> rw [ran]
    · intro e member changed
      rcases List.mem_append.mp member with old | new
      · exact ended e old changed
      · obtain rfl := List.mem_singleton.mp new
        obtain ⟨v, lost, y, rows, y', runs', -, -, -, rfl⟩ := commit_of_changed stepped changed
        obtain ⟨⟩ := runs.symm.trans runs'
        exact ⟨_, set_self .., rfl⟩
    · intro e member tokenHash userID request changed
      rcases List.mem_append.mp member with old | new
      · exact joined e old tokenHash userID request changed
      · obtain rfl := List.mem_singleton.mp new
        obtain ⟨admits, shut, -⟩ := recorded.admits progress.life runs stepped here request changed
        exact ⟨admits, shut⟩
    · refine List.pairwise_append.mpr ⟨recorded.once, List.pairwise_singleton .., ?_⟩
      intro e old f new tokenHash user₁ user₂ first second changed
      obtain rfl := List.mem_singleton.mp new
      by_contra again
      obtain ⟨-, shut⟩ := recorded.joined e old tokenHash user₁ first changed
      exact (recorded.admits progress.life runs stepped here second again).2.2 shut

theorem recorded_watch (now : Int) : Recorded users (watch now) := by
  refine ⟨lifecycle_newStore now, ?_, ?_, ?_, .nil⟩ <;> simp [watch, newStore]

theorem Shut.run (shut : Shut n.state tokenHash) (recorded : Recorded users n)
    {actions : List Action}
    (ran : Steps.run (watchedStep users) n actions = some n') : Shut n'.state tokenHash := by
  induction actions generalizing n with
  | nil => exact Option.some.inj ran ▸ shut
  | cons a rest ih =>
    obtain ⟨middle, first, later⟩ := Steps.run_cons ran
    refine ih ?_ (recorded.step first) later
    obtain ⟨s', stepped, rfl⟩ := Option.map_eq_some_iff.mp first
    exact shut.step (recorded.life.step stepped)

theorem InvitesOk.addresses_le_one {db : Tables} (ok : InvitesOk users db) (id email : Str) :
    (db.invites.filter (·.addresses id email)).length ≤ 1 := by
  have apart := ok.single.sublist (List.filter_sublist (p := (·.addresses id email)))
  have all : ∀ i ∈ db.invites.filter (·.addresses id email),
      i.workspaceID = id ∧ i.email = email ∧ i.unclosed = true := by
    intro i member
    simpa [Invite.addresses, and_assoc] using (List.mem_filter.mp member).2
  generalize db.invites.filter (·.addresses id email) = found at apart all ⊢
  rcases found with _ | ⟨i, _ | ⟨j, rest⟩⟩
  · exact Nat.zero_le 1
  · exact Nat.le_refl 1
  · obtain ⟨workspace, email, unclosed⟩ := all i List.mem_cons_self
    obtain ⟨workspace', email', unclosed'⟩ := all j (List.mem_cons_of_mem i List.mem_cons_self)
    have differ := (List.pairwise_cons.mp apart).1 j List.mem_cons_self
    exact absurd (email.trans email'.symm)
      (differ unclosed unclosed' (workspace.trans workspace'.symm))

/-- In every run, whatever the order of the statements: no invite is both accepted and
revoked, an address has at most one unclosed invite in a workspace and none where it is a
member's, a closed invite never opens again; a link admits at most one user, who is the one
it addresses, while it is open; and only statements of requests that succeed change the
tables. -/
theorem invite_lifecycle (users : Users) (normalized : users.Normalized) (now : Int)
    (actions : List Action) (n : Watched)
    (ran : Steps.run (watchedStep users) (watch now) actions = some n) :
    (∀ i ∈ n.state.db.invites, ¬(i.acceptedAt ≠ none ∧ i.revokedAt ≠ none)) ∧
    (∀ i ∈ n.state.db.invites, i.unclosed = false → ∀ more n',
      Steps.run (watchedStep users) n more = some n' →
      ∀ j ∈ n'.state.db.invites, j.tokenHash = i.tokenHash → j.unclosed = false) ∧
    (∀ id email, (n.state.db.invites.filter (·.addresses id email)).length ≤ 1) ∧
    (∀ i ∈ n.state.db.invites, i.unclosed = true → ∀ m ∈ n.state.db.members,
      m.workspaceID = i.workspaceID → users.lowerEmail m.userID ≠ some i.email) ∧
    (∀ e ∈ n.history, ∀ tokenHash userID,
      e.request = some (.acceptInvite tokenHash userID) → e.after ≠ e.before →
      e.Admits users tokenHash userID) ∧
    (n.history.Pairwise fun e f => ∀ tokenHash user₁ user₂,
      e.request = some (.acceptInvite tokenHash user₁) →
      f.request = some (.acceptInvite tokenHash user₂) →
      e.after ≠ e.before → f.after = f.before) ∧
    (∀ e ∈ n.history, ∀ x err, n.state.sessions e.session = some x →
      x.pc = .done (.error err) → (e.lost = true → err ≠ .internal) → e.after = e.before) ∧
    ∀ a n', watchedStep users n a = some n' → n'.state.db ≠ n.state.db →
      ∃ e, n'.history = n.history ++ [e] ∧ e.before = n.state.db ∧ e.after = n'.state.db := by
  have recorded : Recorded users n := Steps.run_invariant_along
    (fun _ _ _ recorded _ stepped => recorded.step stepped) (Steps.along_always _ _) ran
    (recorded_watch now)
  refine ⟨?_, ?_, recorded.life.ok.addresses_le_one, fun i stored unclosed m member same =>
    recorded.life.ok.strangers i stored unclosed m member same normalized,
    fun e member tokenHash userID request changed =>
      (recorded.joined e member tokenHash userID request changed).1, recorded.once, ?_, ?_⟩
  · rintro i stored ⟨accepted, revoked⟩
    exact revoked (recorded.life.ok.once i stored accepted)
  · intro i stored closed more n' continued
    exact ((recorded.life.shut stored closed).run recorded continued).closed
  · intro e member x err here failed heard
    by_contra changed
    obtain ⟨y, here', finished⟩ := recorded.ended e member changed
    obtain rfl := Option.some.inj (here.symm.trans here')
    rw [failed] at finished
    cases lost : e.lost with
    | false =>
      rw [lost] at finished
      cases finished
    | true =>
      rw [lost] at finished
      cases finished
      exact heard lost rfl
  · intro a n' watched changed
    obtain ⟨s', stepped, rfl⟩ := Option.map_eq_some_iff.mp watched
    obtain ⟨t, lost, x, -, -, runs, here, -⟩ := commit_of_changed stepped changed
    refine ⟨⟨t, n.requests t, x.startedAt, lost, n.state.db, s'.db⟩, ?_, rfl, rfl⟩
    simp only [Watched.statement, runs, here]

def bobsInvite : Invite :=
  ⟨lit "invite", lit "team", lit "bob@example.com", .member, lit "link", 10, none, none⟩

/-- Bob is invited and follows the link while a second AcceptInvite waits for the workspace. -/
def bobJoins : List Action :=
  createTeam ++ .start 1 (.createInvite (lit "alice") bobsInvite) ::
  List.replicate 4 (Action.advance 1) ++ .allow 1 true :: List.replicate 3 (Action.advance 1) ++
  .start 2 (.acceptInvite (lit "link") (lit "bob")) ::
  .start 3 (.acceptInvite (lit "link") (lit "bob")) :: List.replicate 2 (Action.advance 3) ++
  List.replicate 4 (Action.advance 2) ++ .allow 2 true :: List.replicate 3 (Action.advance 2) ++
  List.replicate 2 (Action.advance 3)

/-- The error the request ended in. -/
def Pc.failure : Pc → Option Error
  | .done (.error err) => some err
  | _ => none

theorem Pc.failure_eq_some {pc : Pc} {err : Error} (failed : pc.failure = some err) : pc = .done (.error err) := by
  cases pc with
  | done result =>
    cases result with
    | error _ => exact Option.some.inj failed ▸ rfl
    | ok _ => cases failed
  | _ => cases failed

/-- Bob's invite is committed and Alice is told of an error. -/
def inviteUnheard : List Action :=
  createTeam ++ .start 1 (.createInvite (lit "alice") bobsInvite) ::
  List.replicate 4 (Action.advance 1) ++ .allow 1 true :: List.replicate 2 (Action.advance 1) ++ [.lose 1]

theorem invite_unheard_kept : ∃ n : Watched,
    Steps.run (watchedStep aliceAndBob) (watch 0) inviteUnheard = some n ∧
    ∃ e ∈ n.history, ∃ x, n.state.sessions e.session = some x ∧ x.pc = .done (.error .internal) ∧
      e.before.invites = [] ∧ e.after.invites = [bobsInvite] := by
  have ends : (Steps.run (watchedStep aliceAndBob) (watch 0) inviteUnheard).any (fun n =>
      n.history.any fun e => (n.state.sessions e.session).any (fun x =>
        decide (x.pc.failure = some .internal)) &&
        decide (e.before.invites = []) && decide (e.after.invites = [bobsInvite])) = true := by
    decide +kernel
  obtain ⟨n, ran, found⟩ := (Option.any_eq_true _ _).mp ends
  obtain ⟨e, member, facts⟩ := List.any_eq_true.mp found
  simp only [Bool.and_eq_true, decide_eq_true_eq] at facts
  obtain ⟨⟨told, before⟩, after⟩ := facts
  obtain ⟨x, here, failed⟩ := (Option.any_eq_true _ _).mp told
  exact ⟨n, ran, e, member, x, here, Pc.failure_eq_some (of_decide_eq_true failed), before, after⟩

theorem invite_lifecycle_bobJoins : ∃ n : Watched,
    Steps.run (watchedStep aliceAndBob) (watch 0) bobJoins = some n ∧
    n.state.db.members = [⟨lit "team", lit "alice", .owner⟩, ⟨lit "team", lit "bob", .member⟩] ∧
    ∀ id email, (n.state.db.invites.filter (·.addresses id email)).length ≤ 1 := by
  have ends : (Steps.run (watchedStep aliceAndBob) (watch 0) bobJoins).map (·.state.db.members) =
      some [⟨lit "team", lit "alice", .owner⟩, ⟨lit "team", lit "bob", .member⟩] := by
    decide +kernel
  obtain ⟨n, ran, members⟩ := Option.map_eq_some_iff.mp ends
  obtain ⟨-, -, single, -⟩ :=
    invite_lifecycle aliceAndBob (fun _ _ _ => rfl) 0 bobJoins n ran
  exact ⟨n, ran, members, single⟩

end Tracium.Membership
