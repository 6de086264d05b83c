import Tracium.Go.Bytes
import Tracium.ReadCommitted
import Tracium.Steps

/-! The workspace store over Postgres: workspaces, their members and their invites. One
action is one statement of one session, a handler's check, or the verdict of the seat
check. Any session may be cut off, and its transaction rolled back, at any point; one that
is cut off while it waits to hear of its commit has committed. -/
namespace Tracium.Membership

open Go ReadCommitted

inductive Role
  | owner
  | member
  deriving DecidableEq

structure Workspace where
  id : Str
  userID : Str
  deriving DecidableEq

structure Member where
  workspaceID : Str
  userID : Str
  role : Role
  deriving DecidableEq

structure Invite where
  id : Str
  workspaceID : Str
  email : Str
  role : Role
  tokenHash : Str
  expiresAt : Int
  acceptedAt : Option Int
  revokedAt : Option Int
  deriving DecidableEq

/-- Neither accepted nor revoked, as the partial unique index has it. -/
def Invite.unclosed (i : Invite) : Bool := i.acceptedAt.isNone && i.revokedAt.isNone

def Invite.open (i : Invite) (now : Int) : Bool := i.unclosed && decide (i.expiresAt > now)

/-- The row CreateInvite inserts: the INSERT names neither closing column. -/
def Invite.inserted (i : Invite) : Invite := { i with acceptedAt := none, revokedAt := none }

structure Tables where
  workspaces : List Workspace
  members : List Member
  invites : List Invite

def Tables.hasWorkspace (db : Tables) (id : Str) : Bool := db.workspaces.any (·.id = id)

def Tables.hasMember (db : Tables) (workspaceID userID : Str) : Bool :=
  db.members.any fun m => m.workspaceID = workspaceID && m.userID = userID

def Tables.isOwner (db : Tables) (workspaceID userID : Str) : Bool :=
  db.workspaces.any fun w => w.id = workspaceID && w.userID = userID

def Tables.allowedIDs (db : Tables) (userID : Str) : List Str :=
  (db.members.filter (·.userID = userID)).map (·.workspaceID)

/-- The users table, which no statement here writes, and SQL's lower. -/
structure Users where
  email : Str → Option Str
  lower : Str → Str

def Users.lowerEmail (users : Users) (userID : Str) : Option Str := (users.email userID).map users.lower

inductive Error
  | notFound
  | cannotRemoveOwner
  | inviteNotFound
  | inviteClosed
  | inviteEmailMismatch
  | alreadyMember
  | denied
  | constraint
  | internal
  deriving DecidableEq

/-- The next statement of a session. -/
inductive Pc
  | createWorkspace (w : Workspace)
  | createOwner (w : Workspace)
  | createCommit (w : Workspace)
  | deleteWorkspace (id userID : Str)
  | deleteMembers (id : Str)
  | deleteCommit (id : Str)
  | grantCheckOwner (caller workspaceID userID : Str)
  | grantBegin (workspaceID userID : Str)
  | grantLock (workspaceID userID : Str)
  | grantCheck (workspaceID userID : Str)
  | grantAllow (workspaceID userID : Str) (invited : Bool)
  | grantInsert (workspaceID userID : Str)
  | grantClose (workspaceID userID : Str)
  | grantCommit (workspaceID userID : Str)
  | inviteCheckOwner (caller : Str) (i : Invite)
  | inviteBegin (i : Invite)
  | inviteLock (i : Invite)
  | inviteCheck (i : Invite)
  | inviteAllow (i : Invite)
  | inviteReplace (i : Invite)
  | inviteInsert (i : Invite)
  | inviteCommit (i : Invite)
  | acceptBegin (tokenHash userID : Str)
  | acceptFind (tokenHash userID : Str)
  | acceptLock (tokenHash userID workspaceID : Str)
  | acceptLoad (tokenHash userID workspaceID : Str)
  | acceptAllow (workspaceID userID : Str) (id : Str) (role : Role)
  | acceptInsert (workspaceID userID : Str) (id : Str) (role : Role)
  | acceptClose (workspaceID userID : Str) (id : Str) (role : Role)
  | acceptCommit (workspaceID : Str)
  | removeCheckOwner (caller workspaceID userID : Str)
  | removeIsOwner (workspaceID userID : Str)
  | removeDelete (workspaceID userID : Str)
  | revokeCheckOwner (caller workspaceID inviteID : Str)
  | revokeUpdate (workspaceID inviteID : Str)
  | done (result : Except Error Unit)

inductive Row
  | workspace (id : Str)
  | member (workspaceID userID : Str)
  | invite (id : Str)
  deriving DecidableEq

/-- A session and its transaction's changes; `startedAt` is the transaction's NOW(). -/
structure Session where
  pc : Pc
  startedAt : Int
  workspaces : List (Change Workspace)
  members : List (Change Member)
  invites : List (Change Invite)

/-- `ids` are the workspace ids the handlers have drawn and `links` the token hashes, each
with the workspace it was drawn for: both are random and none is drawn twice. -/
structure State where
  now : Int
  db : Tables
  locks : Locks Row
  sessions : Nat → Option Session
  ids : List Str
  links : List (Str × Str)

def newStore (now : Int) : State := ⟨now, ⟨[], [], []⟩, fun _ => none, fun _ => none, [], []⟩

/-- A request as it reaches the API. -/
inductive Request
  | create (w : Workspace)
  | delete (id userID : Str)
  | addMember (caller workspaceID userID : Str)
  | createInvite (caller : Str) (i : Invite)
  | acceptInvite (tokenHash userID : Str)
  | removeMember (caller workspaceID userID : Str)
  | revokeInvite (caller workspaceID inviteID : Str)

inductive Action
  | start (t : Nat) (request : Request)
  | tick (elapsed : Nat)
  | advance (t : Nat)
  | allow (t : Nat) (granted : Bool)
  | interrupt (t : Nat)
  | lose (t : Nat)

namespace State

/-- What a statement of the session sees. -/
def view (s : State) (x : Session) : Tables where
  workspaces := applyAll s.db.workspaces x.workspaces
  members := applyAll s.db.members x.members
  invites := applyAll s.db.invites x.invites

def set (s : State) (t : Nat) (x : Session) : State :=
  { s with sessions := Function.update s.sessions t (some x) }

def goto (s : State) (t : Nat) (x : Session) (pc : Pc) : State := s.set t { x with pc := pc }

/-- The transaction ends without a trace. -/
def finish (s : State) (t : Nat) (result : Except Error Unit) : State :=
  { s with locks := s.locks.release t }.set t ⟨.done result, s.now, [], [], []⟩

def fail (s : State) (t : Nat) (err : Error) : State := s.finish t (.error err)

/-- The commit takes place, and unless its reply is lost the session hears of it. -/
def commit (s : State) (t : Nat) (x : Session) (lost : Bool) : State :=
  { s with db := s.view x }.finish t (if lost then .error .internal else .ok ())

/-- A statement that locks rows waits until nobody else holds them. -/
def withLocks (s : State) (t : Nat) (rows : List Row) (then_ : State → State) : Option State :=
  if rows.all (s.locks.free t) then some (then_ { s with locks := s.locks.acquire t rows }) else none

/-- `SELECT 1 FROM workspaces WHERE id = $1 FOR UPDATE`: no row, no lock and no error. -/
def lockWorkspace (s : State) (t : Nat) (x : Session) (workspaceID : Str) (next : Pc) : Option State :=
  if (s.view x).hasWorkspace workspaceID then
    s.withLocks t [.workspace workspaceID] fun s => s.goto t x next
  else some (s.goto t x next)

/-- An insert into workspace_members; a duplicate key is left to `conflict`. -/
def insertMember (s : State) (t : Nat) (x : Session) (m : Member) (next : Pc)
    (conflict : State → State) : Option State :=
  s.withLocks t [.member m.workspaceID m.userID] fun s =>
    if (s.view x).hasMember m.workspaceID m.userID then conflict s
    else s.set t { x with pc := next, members := x.members ++ [.insert m] }

/-- An update of the invites the statement sees and `rows` picks. -/
def updateInvites (s : State) (t : Nat) (x : Session) (rows : Invite → Bool)
    (change : Invite → Invite) (next : Pc) : Option State :=
  let ids := ((s.view x).invites.filter rows).map (·.id)
  s.withLocks t (ids.map .invite) fun s =>
    s.set t { x with pc := next, invites := x.invites ++ [.update (fun i => i.id ∈ ids) change] }

/-- requireOwner, in a statement of its own before the store is called. -/
def requireOwner (s : State) (t : Nat) (x : Session) (caller workspaceID : Str) (next : Pc) : State :=
  if s.db.isOwner workspaceID caller then s.goto t x next else s.fail t .notFound

def begin_ (s : State) (t : Nat) (x : Session) (next : Pc) : State :=
  s.set t { x with pc := next, startedAt := s.now }

end State

/-- The invites a session closes with one statement. -/
def closing (ids : List Str) (close : Invite → Invite) : Change Invite :=
  .update (fun i => i.id ∈ ids) close

variable (users : Users)

/-- The next statement of a session; `none` when it waits for a lock or for a verdict. -/
def advance (s : State) (t : Nat) (x : Session) : Option State :=
  match x.pc with
  | .createWorkspace w =>
    s.withLocks t [.workspace w.id] fun s =>
      if (s.view x).hasWorkspace w.id then s.fail t .constraint
      else s.set t { x with pc := .createOwner w, workspaces := x.workspaces ++ [.insert w] }
  | .createOwner w =>
    s.insertMember t x ⟨w.id, w.userID, .owner⟩ (.createCommit w) (·.fail t .constraint)
  | .deleteWorkspace id userID =>
    if (s.view x).isOwner id userID then
      -- the cascade leaves no invite that references the workspace
      let invites := (s.view x).invites.filter (·.workspaceID = id)
      s.withLocks t (.workspace id :: invites.map fun i => .invite i.id) fun s =>
        s.set t { x with
          pc := .deleteMembers id
          workspaces := x.workspaces ++ [.delete (·.id = id)]
          invites := x.invites ++ [.delete (·.workspaceID = id)] }
    else some (s.fail t .notFound)
  | .deleteMembers id =>
    let seen := (s.view x).members.filter (·.workspaceID = id)
    s.withLocks t (seen.map fun m => .member m.workspaceID m.userID) fun s =>
      s.set t { x with pc := .deleteCommit id, members := x.members ++ [.delete (· ∈ seen)] }
  | .grantCheckOwner caller workspaceID userID =>
    some (s.requireOwner t x caller workspaceID (.grantBegin workspaceID userID))
  | .grantBegin workspaceID userID => some (s.begin_ t x (.grantLock workspaceID userID))
  | .grantLock workspaceID userID => s.lockWorkspace t x workspaceID (.grantCheck workspaceID userID)
  | .grantCheck workspaceID userID =>
    if (s.view x).hasMember workspaceID userID then some (s.finish t (.ok ()))
    else
      let invited := (s.view x).invites.any fun i =>
        i.workspaceID = workspaceID && users.lowerEmail userID = some i.email && i.open x.startedAt
      some (s.goto t x (.grantAllow workspaceID userID invited))
  | .grantInsert workspaceID userID =>
    s.insertMember t x ⟨workspaceID, userID, .member⟩ (.grantClose workspaceID userID)
      (·.fail t .constraint)
  | .grantClose workspaceID userID =>
    s.updateInvites t x
      (fun i => i.workspaceID = workspaceID && users.lowerEmail userID = some i.email && i.unclosed)
      ({ · with acceptedAt := some x.startedAt }) (.grantCommit workspaceID userID)
  | .inviteCheckOwner caller i => some (s.requireOwner t x caller i.workspaceID (.inviteBegin i))
  | .inviteBegin i => some (s.begin_ t x (.inviteLock i))
  | .inviteLock i => s.lockWorkspace t x i.workspaceID (.inviteCheck i)
  | .inviteCheck i =>
    let db := s.view x
    if db.members.any fun m => m.workspaceID = i.workspaceID && users.email m.userID = some i.email then
      some (s.fail t .alreadyMember)
    else if db.invites.any fun j =>
        j.workspaceID = i.workspaceID && j.email = i.email && j.open x.startedAt then
      some (s.goto t x (.inviteReplace i))
    else some (s.goto t x (.inviteAllow i))
  | .inviteReplace i =>
    s.updateInvites t x
      (fun j => j.workspaceID = i.workspaceID && j.email = i.email && j.unclosed)
      ({ · with revokedAt := some x.startedAt }) (.inviteInsert i)
  | .inviteInsert i =>
    -- the foreign key holds the referenced row; keys and the open index must be free
    s.withLocks t [.workspace i.workspaceID, .invite i.id] fun s =>
      let db := s.view x
      if !db.hasWorkspace i.workspaceID || db.invites.any (fun j => j.id = i.id ||
          j.tokenHash = i.tokenHash ||
          (j.workspaceID = i.workspaceID && j.email = i.email && j.unclosed)) then
        s.fail t .constraint
      else s.set t { x with pc := .inviteCommit i, invites := x.invites ++ [.insert i.inserted] }
  | .acceptBegin tokenHash userID => some (s.begin_ t x (.acceptFind tokenHash userID))
  | .acceptFind tokenHash userID =>
    match (s.view x).invites.find? (·.tokenHash = tokenHash) with
    | none => some (s.fail t .inviteNotFound)
    | some i => some (s.goto t x (.acceptLock tokenHash userID i.workspaceID))
  | .acceptLock tokenHash userID workspaceID =>
    s.lockWorkspace t x workspaceID (.acceptLoad tokenHash userID workspaceID)
  | .acceptLoad tokenHash userID workspaceID =>
    match (s.view x).invites.find? (·.tokenHash = tokenHash) with
    | none => some (s.fail t .internal)
    | some i =>
      s.withLocks t [.invite i.id] fun s =>
        if !i.open x.startedAt then s.fail t .inviteClosed
        else if users.lowerEmail userID ≠ some i.email then s.fail t .inviteEmailMismatch
        else if (s.view x).hasMember i.workspaceID userID then
          s.goto t x (.acceptInsert workspaceID userID i.id i.role)
        else s.goto t x (.acceptAllow workspaceID userID i.id i.role)
  | .acceptInsert workspaceID userID id role =>
    s.insertMember t x ⟨workspaceID, userID, role⟩ (.acceptClose workspaceID userID id role)
      fun s => s.goto t x (.acceptClose workspaceID userID id role)
  | .acceptClose workspaceID _ id _ =>
    s.updateInvites t x (·.id = id) ({ · with acceptedAt := some x.startedAt })
      (.acceptCommit workspaceID)
  | .createCommit _ | .deleteCommit _ | .grantCommit _ _ | .inviteCommit _ | .acceptCommit _ =>
    some (s.commit t x false)
  | .removeCheckOwner caller workspaceID userID =>
    some (s.requireOwner t x caller workspaceID (.removeIsOwner workspaceID userID))
  | .removeIsOwner workspaceID userID =>
    if s.db.isOwner workspaceID userID then some (s.fail t .cannotRemoveOwner)
    else some (s.goto t x (.removeDelete workspaceID userID))
  | .removeDelete workspaceID userID =>
    if s.db.hasMember workspaceID userID then
      s.withLocks t [.member workspaceID userID] fun s =>
        s.commit t
          { x with members := [.delete fun m => m.workspaceID = workspaceID && m.userID = userID] } false
    else some (s.fail t .notFound)
  | .revokeCheckOwner caller workspaceID inviteID =>
    some (s.requireOwner t x caller workspaceID (.revokeUpdate workspaceID inviteID))
  | .revokeUpdate workspaceID inviteID =>
    let open_ := fun i : Invite => decide (i.id = inviteID) && decide (i.workspaceID = workspaceID) && i.unclosed
    if s.db.invites.any open_ then
      s.withLocks t [.invite inviteID] fun s =>
        s.commit t { x with invites := [.update open_ ({ · with revokedAt := some s.now })] } false
    else some (s.fail t .inviteNotFound)
  | .grantAllow .. | .inviteAllow _ | .acceptAllow .. | .done _ => none

/-- The statements that commit: of a transaction, or outside of one. -/
def Pc.committing : Pc → Bool
  | .createCommit _ | .deleteCommit _ | .grantCommit _ _ | .inviteCommit _ | .acceptCommit _
  | .removeDelete _ _ | .revokeUpdate _ _ => true
  | _ => false

/-- Where a request starts. A new workspace's id and a new invite's token are drawn here. -/
def Request.start (s : State) : Request → Option (State × Pc)
  | .create w => if w.id ∈ s.ids then none else some ({ s with ids := w.id :: s.ids }, .createWorkspace w)
  | .delete id userID => some (s, .deleteWorkspace id userID)
  | .addMember caller workspaceID userID => some (s, .grantCheckOwner caller workspaceID userID)
  | .createInvite caller i =>
    if i.tokenHash ∈ s.links.map Prod.fst then none
    else some ({ s with links := (i.tokenHash, i.workspaceID) :: s.links }, .inviteCheckOwner caller i)
  | .acceptInvite tokenHash userID => some (s, .acceptBegin tokenHash userID)
  | .removeMember caller workspaceID userID => some (s, .removeCheckOwner caller workspaceID userID)
  | .revokeInvite caller workspaceID inviteID => some (s, .revokeCheckOwner caller workspaceID inviteID)

theorem Request.start_create {s s₁ : State} {w : Workspace} {pc : Pc}
    (started : (Request.create w).start s = some (s₁, pc)) :
    w.id ∉ s.ids ∧ s₁ = { s with ids := w.id :: s.ids } ∧ pc = .createWorkspace w := by
  simp only [Request.start] at started
  split at started
  next => cases started
  next new =>
    cases Option.some.inj started
    exact ⟨new, rfl, rfl⟩

theorem Request.start_createInvite {s s₁ : State} {caller : Str} {i : Invite} {pc : Pc}
    (started : (Request.createInvite caller i).start s = some (s₁, pc)) :
    i.tokenHash ∉ s.links.map Prod.fst ∧
      s₁ = { s with links := (i.tokenHash, i.workspaceID) :: s.links } ∧
      pc = .inviteCheckOwner caller i := by
  simp only [Request.start] at started
  split at started
  next => cases started
  next new =>
    cases Option.some.inj started
    exact ⟨new, rfl, rfl⟩

/-- A link for a token that has none leaves every token with at most one workspace. -/
theorem links_cons {links : List (Str × Str)} {token id : Str}
    (unique : ∀ hash a b, (hash, a) ∈ links → (hash, b) ∈ links → a = b)
    (new : token ∉ links.map Prod.fst) : ∀ hash a b, (hash, a) ∈ (token, id) :: links →
      (hash, b) ∈ (token, id) :: links → a = b := by
  have unlinked : ∀ a, (token, a) ∉ links := fun a member => new (List.mem_map_of_mem member)
  intro hash a b ha hb
  rcases List.mem_cons.mp ha with ⟨⟨⟩⟩ | ha <;> rcases List.mem_cons.mp hb with ⟨⟨⟩⟩ | hb
  exacts [rfl, absurd hb (unlinked b), absurd ha (unlinked a), unique hash a b ha hb]

/-- The verdict of the seat check, which runs inside the transaction. -/
def allow (s : State) (t : Nat) (x : Session) (granted : Bool) : Option State :=
  match x.pc with
  | .grantAllow workspaceID userID _ =>
    some (if granted then s.goto t x (.grantInsert workspaceID userID) else s.fail t .denied)
  | .inviteAllow i => some (if granted then s.goto t x (.inviteReplace i) else s.fail t .denied)
  | .acceptAllow workspaceID userID id role =>
    some (if granted then s.goto t x (.acceptInsert workspaceID userID id role) else s.fail t .denied)
  | _ => none

def step (s : State) : Action → Option State
  | .start t request =>
    match s.sessions t, request.start s with
    | none, some (s, pc) => some (s.set t ⟨pc, s.now, [], [], []⟩)
    | _, _ => none
  | .tick elapsed => some { s with now := s.now + elapsed }
  | .advance t => do advance users s t (← s.sessions t)
  | .allow t granted => do allow s t (← s.sessions t) granted
  | .interrupt t => do
    let x ← s.sessions t
    match x.pc with
    | .done _ => none
    | _ => some (s.fail t .internal)
  | .lose t => do
    let x ← s.sessions t
    if x.pc.committing then (advance users s t x).map (·.fail t .internal) else none

end Tracium.Membership
