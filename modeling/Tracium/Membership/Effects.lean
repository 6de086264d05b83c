import Tracium.Membership.Sessions

/-! What one step of the workspace store does: the clock moves, a request comes in, a session
ends without a trace, a session runs one statement under its locks, or it commits. The
places of the code are looked at here once; what follows goes by these cases. -/
namespace Tracium.Membership

open Go ReadCommitted

namespace Pc

/-- The owner check a handler makes: the caller, the workspace and the place after it. -/
def ownerCheck : Pc → Option (Str × Str × Pc)
  | .grantCheckOwner caller id userID => some (caller, id, .grantBegin id userID)
  | .inviteCheckOwner caller i => some (caller, i.workspaceID, .inviteBegin i)
  | .removeCheckOwner caller id userID => some (caller, id, .removeIsOwner id userID)
  | .revokeCheckOwner caller id inviteID => some (caller, id, .revokeUpdate id inviteID)
  | _ => none

def begins : Pc → Option Pc
  | .grantBegin id userID => some (.grantLock id userID)
  | .inviteBegin i => some (.inviteLock i)
  | .acceptBegin tokenHash userID => some (.acceptFind tokenHash userID)
  | _ => none

/-- The workspace a lockWorkspace statement asks for, and the place after it. -/
def locking : Pc → Option (Str × Pc)
  | .grantLock id userID => some (id, .grantCheck id userID)
  | .inviteLock i => some (i.workspaceID, .inviteCheck i)
  | .acceptLock tokenHash userID id => some (id, .acceptLoad tokenHash userID id)
  | _ => none

def commits : Pc → Bool
  | .createCommit _ | .deleteCommit _ | .grantCommit _ _ | .inviteCommit _ | .acceptCommit _ => true
  | _ => false

end Pc

/-- The invite an email has in a workspace, whether or not it has expired. -/
def Invite.addresses (i : Invite) (id email : Str) : Bool :=
  decide (i.workspaceID = id) && decide (i.email = email) && i.unclosed

variable (users : Users)

/-- GrantMember's invites: those of the workspace for the user's email. -/
def Users.addressed (users : Users) (id userID : Str) (i : Invite) : Bool :=
  decide (i.workspaceID = id) && decide (users.lowerEmail userID = some i.email)

/-- A statement that goes on: the rows it locks and the session after it. -/
inductive Moves (s : State) (x : Session) : List Row → Session → Prop
  | created (w : Workspace) (at_ : x.pc = .createWorkspace w) : Moves s x [.workspace w.id]
      { x with pc := .createOwner w, workspaces := x.workspaces ++ [.insert w] }
  | owned (w : Workspace) (at_ : x.pc = .createOwner w) : Moves s x [.member w.id w.userID]
      { x with pc := .createCommit w, members := x.members ++ [.insert ⟨w.id, w.userID, .owner⟩] }
  | deleted (id userID : Str) (at_ : x.pc = .deleteWorkspace id userID)
      (owner : (s.view x).isOwner id userID = true) :
      Moves s x (.workspace id ::
        ((s.view x).invites.filter (·.workspaceID = id)).map fun i => .invite i.id)
      { x with
        pc := .deleteMembers id
        workspaces := x.workspaces ++ [.delete (·.id = id)]
        invites := x.invites ++ [.delete (·.workspaceID = id)] }
  | cleared (id : Str) (rows : List Row) (seen : List Member) (at_ : x.pc = .deleteMembers id)
      (all : seen = (s.view x).members.filter (·.workspaceID = id)) : Moves s x rows { x with
        pc := .deleteCommit id, members := x.members ++ [.delete (· ∈ seen)] }
  | authorized (caller id : Str) (next : Pc) (at_ : x.pc.ownerCheck = some (caller, id, next))
      (owner : s.db.isOwner id caller = true) : Moves s x [] { x with pc := next }
  | began (next : Pc) (at_ : x.pc.begins = some next) :
      Moves s x [] { x with pc := next, startedAt := s.now }
  | locked (id : Str) (next : Pc) (at_ : x.pc.locking = some (id, next))
      (found : (s.view x).hasWorkspace id = true) : Moves s x [.workspace id] { x with pc := next }
  | unlocked (id : Str) (next : Pc) (at_ : x.pc.locking = some (id, next))
      (missing : (s.view x).hasWorkspace id = false) : Moves s x [] { x with pc := next }
  | grantChecked (id userID : Str) (at_ : x.pc = .grantCheck id userID)
      (absent : (s.view x).hasMember id userID = false) : Moves s x [] { x with
        pc := .grantAllow id userID
          ((s.view x).invites.any fun i => users.addressed id userID i && i.open x.startedAt) }
  | grantInserted (id userID : Str) (at_ : x.pc = .grantInsert id userID) :
      Moves s x [.member id userID] { x with
        pc := .grantClose id userID, members := x.members ++ [.insert ⟨id, userID, .member⟩] }
  | grantClosed (id userID : Str) (ids : List Str) (at_ : x.pc = .grantClose id userID)
      (picked : ids = ((s.view x).invites.filter fun i =>
        users.addressed id userID i && i.unclosed).map (·.id)) :
      Moves s x (ids.map .invite) { x with
        pc := .grantCommit id userID
        invites := x.invites ++
          [.update (fun i => i.id ∈ ids) ({ · with acceptedAt := some x.startedAt })] }
  | inviteChecked (i : Invite) (at_ : x.pc = .inviteCheck i)
      (stranger : ∀ m ∈ (s.view x).members, m.workspaceID = i.workspaceID →
        users.email m.userID ≠ some i.email) : Moves s x [] { x with
        pc := if (s.view x).invites.any (fun j =>
            decide (j.workspaceID = i.workspaceID) && decide (j.email = i.email) &&
              j.open x.startedAt) then .inviteReplace i else .inviteAllow i }
  | inviteReplaced (i : Invite) (ids : List Str) (at_ : x.pc = .inviteReplace i)
      (picked : ids = ((s.view x).invites.filter (·.addresses i.workspaceID i.email)).map (·.id)) :
      Moves s x (ids.map .invite) { x with
        pc := .inviteInsert i
        invites := x.invites ++
          [.update (fun j => j.id ∈ ids) ({ · with revokedAt := some x.startedAt })] }
  | inviteInserted (i : Invite) (at_ : x.pc = .inviteInsert i)
      (there : (s.view x).hasWorkspace i.workspaceID = true)
      (keys : ∀ j ∈ (s.view x).invites, j.id ≠ i.id ∧ j.tokenHash ≠ i.tokenHash) :
      Moves s x [.workspace i.workspaceID, .invite i.id]
        { x with pc := .inviteCommit i, invites := x.invites ++ [.insert i.inserted] }
  | acceptFound (tokenHash userID : Str) (i : Invite) (at_ : x.pc = .acceptFind tokenHash userID)
      (found : (s.view x).invites.find? (·.tokenHash = tokenHash) = some i) :
      Moves s x [] { x with pc := .acceptLock tokenHash userID i.workspaceID }
  | acceptLoaded (tokenHash userID id : Str) (i : Invite) (next : Pc)
      (at_ : x.pc = .acceptLoad tokenHash userID id)
      (found : (s.view x).invites.find? (·.tokenHash = tokenHash) = some i)
      (opened : i.open x.startedAt = true) (matching : users.lowerEmail userID = some i.email)
      (next_ : next = .acceptInsert id userID i.id i.role ∨
        next = .acceptAllow id userID i.id i.role) :
      Moves s x [.invite i.id] { x with pc := next }
  | acceptInserted (id userID inviteID : Str) (role : Role)
      (at_ : x.pc = .acceptInsert id userID inviteID role) :
      Moves s x [.member id userID] { x with
        pc := .acceptClose id userID inviteID role
        members := x.members ++ [.insert ⟨id, userID, role⟩] }
  | acceptKept (id userID inviteID : Str) (role : Role)
      (at_ : x.pc = .acceptInsert id userID inviteID role) :
      Moves s x [.member id userID] { x with pc := .acceptClose id userID inviteID role }
  | acceptClosed (id userID inviteID : Str) (role : Role) (ids : List Str)
      (at_ : x.pc = .acceptClose id userID inviteID role)
      (picked : ids = ((s.view x).invites.filter (·.id = inviteID)).map (·.id)) :
      Moves s x (ids.map .invite) { x with
        pc := .acceptCommit id
        invites := x.invites ++
          [.update (fun i => i.id ∈ ids) ({ · with acceptedAt := some x.startedAt })] }
  | removable (id userID : Str) (at_ : x.pc = .removeIsOwner id userID)
      (other : s.db.isOwner id userID = false) :
      Moves s x [] { x with pc := .removeDelete id userID }

/-- A seat check that says yes. -/
inductive Allows (x : Session) : Pc → Prop
  | grant (id userID : Str) (invited : Bool) (at_ : x.pc = .grantAllow id userID invited) :
      Allows x (.grantInsert id userID)
  | invite (i : Invite) (at_ : x.pc = .inviteAllow i) : Allows x (.inviteReplace i)
  | accept (id userID inviteID : Str) (role : Role)
      (at_ : x.pc = .acceptAllow id userID inviteID role) :
      Allows x (.acceptInsert id userID inviteID role)

/-- What a session commits: its transaction, or the one statement it consists of. -/
inductive Commits (s : State) (x : Session) : List Row → Session → Prop
  | transaction (at_ : x.pc.commits = true) : Commits s x [] x
  | removed (id userID : Str) (at_ : x.pc = .removeDelete id userID) :
      Commits s x [.member id userID] { x with
        members := [.delete fun m => m.workspaceID = id && m.userID = userID] }
  | revoked (id inviteID : Str) (at_ : x.pc = .revokeUpdate id inviteID) :
      Commits s x [.invite inviteID] { x with
        invites := [.update (fun i => decide (i.id = inviteID) && decide (i.workspaceID = id) &&
          i.unclosed) ({ · with revokedAt := some s.now })] }

def State.lock (s : State) (t : Nat) (rows : List Row) : State :=
  { s with locks := s.locks.acquire t rows }

/-- The session an action belongs to. -/
def Action.actor : Action → Option Nat
  | .start t _ | .advance t | .allow t _ | .interrupt t | .lose t => some t
  | .tick _ => none

/-- The session whose statement runs, and whether its reply is lost. -/
def Action.runs : Action → Option (Nat × Bool)
  | .advance t => some (t, false)
  | .lose t => some (t, true)
  | .start _ _ | .tick _ | .allow _ _ | .interrupt _ => none

inductive Effect (s : State) : Action → State → Prop
  | tick (elapsed : Nat) : Effect s (.tick elapsed) { s with now := s.now + elapsed }
  | start (t : Nat) (request : Request) (s₁ : State) (pc : Pc) (unused : s.sessions t = none)
      (started : request.start s = some (s₁, pc)) :
      Effect s (.start t request) (s₁.set t ⟨pc, s₁.now, [], [], []⟩)
  | stop (a : Action) (t : Nat) (x : Session) (rows : List Row) (result : Except Error Unit)
      (acts : a.actor = some t) (here : s.sessions t = some x)
      (free : ∀ row ∈ rows, s.locks.free t row = true) :
      Effect s a ((s.lock t rows).finish t result)
  | move (t : Nat) (x : Session) (rows : List Row) (x' : Session) (here : s.sessions t = some x)
      (free : ∀ row ∈ rows, s.locks.free t row = true) (moves : Moves users s x rows x') :
      Effect s (.advance t) ((s.lock t rows).set t x')
  | allowed (t : Nat) (x : Session) (next : Pc) (here : s.sessions t = some x)
      (allows : Allows x next) : Effect s (.allow t true) (s.goto t x next)
  | commit (a : Action) (t : Nat) (lost : Bool) (x : Session) (rows : List Row) (x' : Session)
      (runs : a.runs = some (t, lost)) (here : s.sessions t = some x)
      (free : ∀ row ∈ rows, s.locks.free t row = true) (commits : Commits s x rows x') :
      Effect s a ((s.lock t rows).commit t x' lost)

variable {users} {s s' : State} {t : Nat} {x : Session}

theorem lock_nil (s : State) (t : Nat) : s.lock t [] = s := by
  have same : s.locks.acquire t [] = s.locks := by
    funext row
    simp [Locks.acquire]
  rw [State.lock, same]

theorem withLocks_some {rows : List Row} {then_ : State → State}
    (stepped : s.withLocks t rows then_ = some s') :
    (∀ row ∈ rows, s.locks.free t row = true) ∧ s' = then_ (s.lock t rows) := by
  unfold State.withLocks at stepped
  split at stepped
  next free => exact ⟨List.all_eq_true.mp free, (Option.some.inj stepped).symm⟩
  next => cases stepped

theorem effect_stop {a : Action} (acts : a.actor = some t) (here : s.sessions t = some x)
    (result : Except Error Unit) : Effect users s a (s.finish t result) := by
  have stops : Effect users s a ((s.lock t []).finish t result) :=
    .stop a t x [] result acts here fun _ member => nomatch member
  rw [lock_nil] at stops
  exact stops

theorem effect_move {x' : Session} (here : s.sessions t = some x)
    (moves : Moves users s x [] x') : Effect users s (.advance t) (s.set t x') := by
  have moved : Effect users s (.advance t) ((s.lock t []).set t x') :=
    .move t x [] x' here (fun _ member => nomatch member) moves
  rw [lock_nil] at moved
  exact moved

theorem effect_withLocks {rows : List Row} {then_ : State → State}
    (stepped : s.withLocks t rows then_ = some s')
    (then_ok : (∀ row ∈ rows, s.locks.free t row = true) →
      Effect users s (.advance t) (then_ (s.lock t rows))) : Effect users s (.advance t) s' := by
  obtain ⟨free, rfl⟩ := withLocks_some stepped
  exact then_ok free

theorem effect_insertMember {m : Member} {next : Pc} {conflict : State → State}
    (stepped : s.insertMember t x m next conflict = some s') (here : s.sessions t = some x)
    (moves : Moves users s x [.member m.workspaceID m.userID]
      { x with pc := next, members := x.members ++ [.insert m] })
    (conflicts : (∀ row ∈ [Row.member m.workspaceID m.userID], s.locks.free t row = true) →
      Effect users s (.advance t) (conflict (s.lock t [.member m.workspaceID m.userID]))) :
    Effect users s (.advance t) s' := by
  refine effect_withLocks stepped fun free => ?_
  split
  exacts [conflicts free, .move t x _ _ here free moves]

theorem effect_updateInvites {rows : Invite → Bool} {change : Invite → Invite} {next : Pc}
    (stepped : s.updateInvites t x rows change next = some s') (here : s.sessions t = some x)
    (moves : ∀ ids, ids = ((s.view x).invites.filter rows).map (·.id) →
      Moves users s x (ids.map .invite) { x with
        pc := next, invites := x.invites ++ [.update (fun i => i.id ∈ ids) change] }) :
    Effect users s (.advance t) s' := by
  unfold State.updateInvites at stepped
  exact effect_withLocks stepped fun free => .move t x _ _ here free (moves _ rfl)

theorem effect_requireOwner {caller id : Str} {next : Pc} (here : s.sessions t = some x)
    (at_ : x.pc.ownerCheck = some (caller, id, next)) :
    Effect users s (.advance t) (s.requireOwner t x caller id next) := by
  unfold State.requireOwner
  split
  next owner => exact effect_move here (.authorized caller id next at_ owner)
  next => exact effect_stop rfl here _

theorem effect_lockWorkspace {id : Str} {next : Pc}
    (stepped : s.lockWorkspace t x id next = some s') (here : s.sessions t = some x)
    (at_ : x.pc.locking = some (id, next)) : Effect users s (.advance t) s' := by
  unfold State.lockWorkspace at stepped
  split at stepped
  next found =>
    exact effect_withLocks stepped fun free => .move t x _ _ here free (.locked id next at_ found)
  next missing =>
    obtain rfl := Option.some.inj stepped
    exact effect_move here (.unlocked id next at_ (by simpa using missing))

theorem effect_deleteWorkspace {id userID : Str} (here : s.sessions t = some x)
    (at_ : x.pc = .deleteWorkspace id userID) (stepped : advance users s t x = some s') :
    Effect users s (.advance t) s' := by
  simp only [advance, at_] at stepped
  split at stepped
  next owner =>
    exact effect_withLocks stepped fun free => .move t x _ _ here free (.deleted id userID at_ owner)
  next => exact Option.some.inj stepped ▸ effect_stop rfl here _

theorem effect_grantCheck {id userID : Str} (here : s.sessions t = some x)
    (at_ : x.pc = .grantCheck id userID) (stepped : advance users s t x = some s') :
    Effect users s (.advance t) s' := by
  simp only [advance, at_] at stepped
  split at stepped
  next => exact Option.some.inj stepped ▸ effect_stop rfl here _
  next absent =>
    obtain rfl := Option.some.inj stepped
    exact effect_move here (.grantChecked id userID at_ (by simpa using absent))

theorem effect_inviteCheck {i : Invite} (here : s.sessions t = some x)
    (at_ : x.pc = .inviteCheck i) (stepped : advance users s t x = some s') :
    Effect users s (.advance t) s' := by
  simp only [advance, at_] at stepped
  split at stepped
  next => exact Option.some.inj stepped ▸ effect_stop rfl here _
  next known =>
    have stranger : ∀ m ∈ (s.view x).members, m.workspaceID = i.workspaceID →
        users.email m.userID ≠ some i.email := fun m member same email =>
      known (List.any_eq_true.mpr ⟨m, member, by simp [same, email]⟩)
    have moves := effect_move here (.inviteChecked i at_ stranger)
    split at stepped
    next opened =>
      rw [if_pos opened] at moves
      exact Option.some.inj stepped ▸ moves
    next closed =>
      rw [if_neg closed] at moves
      exact Option.some.inj stepped ▸ moves

theorem effect_inviteInsert {i : Invite} (here : s.sessions t = some x)
    (at_ : x.pc = .inviteInsert i) (stepped : advance users s t x = some s') :
    Effect users s (.advance t) s' := by
  simp only [advance, at_] at stepped
  refine effect_withLocks stepped fun free => ?_
  split
  next => exact .stop _ t x _ _ rfl here free
  next kept =>
    simp only [Bool.or_eq_true, Bool.not_eq_true', List.any_eq_true, not_or, not_exists, not_and,
      Bool.not_eq_false] at kept
    refine .move t x _ _ here free (.inviteInserted i at_ kept.1 fun j member => ?_)
    obtain ⟨⟨id, token⟩, -⟩ := kept.2 j member
    exact ⟨of_decide_eq_false (by simpa using id), of_decide_eq_false (by simpa using token)⟩

theorem effect_acceptFind {tokenHash userID : Str} (here : s.sessions t = some x)
    (at_ : x.pc = .acceptFind tokenHash userID) (stepped : advance users s t x = some s') :
    Effect users s (.advance t) s' := by
  simp only [advance, at_] at stepped
  split at stepped
  next => exact Option.some.inj stepped ▸ effect_stop rfl here _
  next i found =>
    obtain rfl := Option.some.inj stepped
    exact effect_move here (.acceptFound tokenHash userID i at_ found)

theorem effect_acceptLoad {tokenHash userID id : Str} (here : s.sessions t = some x)
    (at_ : x.pc = .acceptLoad tokenHash userID id) (stepped : advance users s t x = some s') :
    Effect users s (.advance t) s' := by
  simp only [advance, at_] at stepped
  split at stepped
  next => exact Option.some.inj stepped ▸ effect_stop rfl here _
  next i found =>
    refine effect_withLocks stepped fun free => ?_
    split
    next => exact .stop _ t x _ _ rfl here free
    next opened =>
      have opened : i.open x.startedAt = true := by simpa using opened
      split
      next => exact .stop _ t x _ _ rfl here free
      next matching =>
        have matching : users.lowerEmail userID = some i.email := by simpa using matching
        split
        · exact .move t x _ _ here free
            (.acceptLoaded tokenHash userID id i _ at_ found opened matching (.inl rfl))
        · exact .move t x _ _ here free
            (.acceptLoaded tokenHash userID id i _ at_ found opened matching (.inr rfl))

theorem effect_remove {id userID : Str} (here : s.sessions t = some x)
    (at_ : x.pc = .removeDelete id userID) (stepped : advance users s t x = some s') :
    Effect users s (.advance t) s' := by
  simp only [advance, at_] at stepped
  split at stepped
  next =>
    refine effect_withLocks stepped fun free => ?_
    rw [← at_]
    exact .commit _ t false x _ _ rfl here free (.removed id userID at_)
  next => exact Option.some.inj stepped ▸ effect_stop rfl here _

theorem effect_revoke {id inviteID : Str} (here : s.sessions t = some x)
    (at_ : x.pc = .revokeUpdate id inviteID) (stepped : advance users s t x = some s') :
    Effect users s (.advance t) s' := by
  simp only [advance, at_] at stepped
  split at stepped
  next =>
    refine effect_withLocks stepped fun free => ?_
    rw [← at_]
    exact .commit _ t false x _ _ rfl here free (.revoked id inviteID at_)
  next => exact Option.some.inj stepped ▸ effect_stop rfl here _

theorem effect_commit (here : s.sessions t = some x) (at_ : x.pc.commits = true) :
    Effect users s (.advance t) (s.commit t x false) := by
  have commits : Effect users s (.advance t) ((s.lock t []).commit t x false) :=
    .commit _ t false x [] x rfl here (fun _ member => nomatch member) (.transaction at_)
  rw [lock_nil] at commits
  exact commits

theorem advance_effect (here : s.sessions t = some x) (stepped : advance users s t x = some s') :
    Effect users s (.advance t) s' := by
  cases at_ : x.pc with
  | deleteWorkspace id userID => exact effect_deleteWorkspace here at_ stepped
  | grantCheck id userID => exact effect_grantCheck here at_ stepped
  | inviteCheck i => exact effect_inviteCheck here at_ stepped
  | inviteInsert i => exact effect_inviteInsert here at_ stepped
  | acceptFind tokenHash userID => exact effect_acceptFind here at_ stepped
  | acceptLoad tokenHash userID id => exact effect_acceptLoad here at_ stepped
  | removeDelete id userID => exact effect_remove here at_ stepped
  | revokeUpdate id inviteID => exact effect_revoke here at_ stepped
  | grantAllow | inviteAllow | acceptAllow | done =>
    simp only [advance, at_] at stepped
    cases stepped
  | createWorkspace w =>
    simp only [advance, at_] at stepped
    refine effect_withLocks stepped fun free => ?_
    split
    exacts [.stop _ t x _ _ rfl here free, .move t x _ _ here free (.created w at_)]
  | createOwner w =>
    simp only [advance, at_] at stepped
    exact effect_insertMember stepped here (.owned w at_) fun free => .stop _ t x _ _ rfl here free
  | deleteMembers id =>
    simp only [advance, at_] at stepped
    exact effect_withLocks stepped fun free => .move t x _ _ here free (.cleared id _ _ at_ rfl)
  | createCommit | deleteCommit | grantCommit | inviteCommit | acceptCommit =>
    simp only [advance, at_] at stepped
    exact Option.some.inj stepped ▸ effect_commit here (by rw [at_]; rfl)
  | grantCheckOwner | inviteCheckOwner | removeCheckOwner | revokeCheckOwner =>
    simp only [advance, at_] at stepped
    exact Option.some.inj stepped ▸ effect_requireOwner here (by rw [at_]; rfl)
  | grantBegin | inviteBegin | acceptBegin =>
    simp only [advance, at_] at stepped
    exact Option.some.inj stepped ▸ effect_move here (.began _ (by rw [at_]; rfl))
  | grantLock | inviteLock | acceptLock =>
    simp only [advance, at_] at stepped
    exact effect_lockWorkspace stepped here (by rw [at_]; rfl)
  | grantInsert id userID =>
    simp only [advance, at_] at stepped
    exact effect_insertMember stepped here (.grantInserted id userID at_) fun free =>
      .stop _ t x _ _ rfl here free
  | grantClose id userID =>
    simp only [advance, at_] at stepped
    exact effect_updateInvites stepped here fun ids picked => .grantClosed id userID ids at_ picked
  | inviteReplace i =>
    simp only [advance, at_] at stepped
    exact effect_updateInvites stepped here fun ids picked => .inviteReplaced i ids at_ picked
  | acceptInsert id userID inviteID role =>
    simp only [advance, at_] at stepped
    exact effect_insertMember stepped here (.acceptInserted id userID inviteID role at_) fun free =>
      .move t x _ _ here free (.acceptKept id userID inviteID role at_)
  | acceptClose id userID inviteID role =>
    simp only [advance, at_] at stepped
    exact effect_updateInvites stepped here fun ids picked =>
      .acceptClosed id userID inviteID role ids at_ picked
  | removeIsOwner id userID =>
    simp only [advance, at_] at stepped
    split at stepped
    next => exact Option.some.inj stepped ▸ effect_stop rfl here _
    next other =>
      exact Option.some.inj stepped ▸ effect_move here (.removable id userID at_ (by simpa using other))

theorem allow_effect {granted : Bool} (here : s.sessions t = some x)
    (stepped : allow s t x granted = some s') : Effect users s (.allow t granted) s' := by
  unfold allow at stepped
  cases granted with
  | false =>
    split at stepped
    case h_4 => cases stepped
    all_goals exact Option.some.inj stepped ▸ effect_stop rfl here _
  | true =>
    split at stepped
    next id userID invited at_ =>
      exact Option.some.inj stepped ▸ .allowed t x _ here (.grant id userID invited at_)
    next i at_ => exact Option.some.inj stepped ▸ .allowed t x _ here (.invite i at_)
    next id userID inviteID role at_ =>
      exact Option.some.inj stepped ▸ .allowed t x _ here (.accept id userID inviteID role at_)
    next => cases stepped

theorem Action.actor_of_runs {a : Action} {lost : Bool} (runs : a.runs = some (t, lost)) : a.actor = some t := by
  cases a with
  | advance | lose =>
    obtain ⟨⟩ := runs
    rfl
  | start | tick | allow | interrupt => cases runs

theorem finish_finish (s : State) (t : Nat) (first second : Except Error Unit) :
    (s.finish t first).finish t second = s.finish t second := by
  have released : (s.locks.release t).release t = s.locks.release t := by
    funext row
    simp only [Locks.release]
    split <;> simp [*]
  simp only [State.finish, State.set, Function.update_idem, released]

/-- A statement that commits moves to no other. -/
theorem Moves.not_committing {rows : List Row} {x' : Session} (moves : Moves users s x rows x') :
    x.pc.committing = false := by
  cases moves with
  | authorized _ _ _ at_ => cases pc : x.pc <;> simp [pc, Pc.ownerCheck] at at_ <;> rfl
  | began _ at_ => cases pc : x.pc <;> simp [pc, Pc.begins] at at_ <;> rfl
  | locked _ _ at_ | unlocked _ _ at_ => cases pc : x.pc <;> simp [pc, Pc.locking] at at_ <;> rfl
  | _ => simp [*, Pc.committing]

/-- A reply that is lost leaves what the statement has done. -/
theorem lose_effect (here : s.sessions t = some x) (last : x.pc.committing = true)
    (stepped : advance users s t x = some s') :
    Effect users s (.lose t) (s'.fail t .internal) := by
  cases advance_effect here stepped with
  | stop a v y rows result acts here' free =>
    obtain rfl := Option.some.inj acts
    rw [State.fail, finish_finish]
    exact .stop _ _ y rows _ rfl here' free
  | move v y rows y' here' free moves =>
    obtain rfl := Option.some.inj (here.symm.trans here')
    rw [moves.not_committing] at last
    cases last
  | commit a v lost y rows y' runs here' free commits =>
    obtain ⟨⟩ := runs
    rw [State.fail, State.commit, finish_finish]
    exact .commit _ t true y rows y' rfl here' free commits

theorem step_effect {a : Action} (stepped : step users s a = some s') : Effect users s a s' := by
  cases a with
  | start t request =>
    simp only [step] at stepped
    split at stepped
    next s₁ pc unused started => exact Option.some.inj stepped ▸ .start t request _ _ unused started
    next => cases stepped
  | tick elapsed => exact Option.some.inj stepped ▸ .tick elapsed
  | advance t =>
    obtain ⟨x, here, stepped⟩ := Option.bind_eq_some_iff.mp stepped
    exact advance_effect here stepped
  | allow t granted =>
    obtain ⟨x, here, stepped⟩ := Option.bind_eq_some_iff.mp stepped
    exact allow_effect here stepped
  | interrupt t =>
    obtain ⟨x, here, stepped⟩ := Option.bind_eq_some_iff.mp stepped
    split at stepped
    · cases stepped
    · exact Option.some.inj stepped ▸ effect_stop rfl here _
  | lose t =>
    obtain ⟨x, here, stepped⟩ := Option.bind_eq_some_iff.mp stepped
    obtain ⟨last, stepped⟩ := Option.ite_none_right_eq_some.mp stepped
    obtain ⟨s₁, advanced, rfl⟩ := Option.map_eq_some_iff.mp stepped
    exact lose_effect here last advanced

end Tracium.Membership
