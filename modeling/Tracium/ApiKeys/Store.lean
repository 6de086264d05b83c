import Tracium.Go.Bytes
import Tracium.Steps

/-! Ingest keys: the store over Postgres, the service and its handlers. Every store call is
one statement in a transaction of its own: it reads a snapshot, waits for the row it writes,
looks at that row's newest version again and commits. The reply to the commit may be lost. -/
namespace Tracium.ApiKeys

open Go

def tokenPrefix : Str := lit "trc_"

def secretBytes : Nat := 32

def displayPrefixLen : Nat := tokenPrefix.length + 8

/-- What crypto/rand fills the buffer of token.New with. -/
structure Secret where
  bytes : List UInt8
  size : bytes.length = secretBytes

def hexDigit (n : UInt8) : UInt8 := if n < 10 then 0x30 + n else 0x57 + n

/-- hex.EncodeToString. -/
def encodeToString (bytes : List UInt8) : Str :=
  bytes.flatMap fun b => [hexDigit (b / 16), hexDigit (b % 16)]

/-- token.New with the prefix of ingest keys. -/
def newToken (secret : Secret) : Str := tokenPrefix ++ encodeToString secret.bytes

/-- token.Valid with the prefix of ingest keys. -/
def valid (t : Str) : Bool :=
  hasPrefix t tokenPrefix && t.length == tokenPrefix.length + 2 * secretBytes

structure ApiKey where
  id : Str
  workspaceID : Str
  createdBy : Str
  name : Str
  displayPrefix : Str
  keyHash : Str
  createdAt : Int
  lastUsedAt : Option Int
  revokedAt : Option Int
  deriving DecidableEq

def ApiKey.active (key : ApiKey) : Bool := key.revokedAt.isNone

/-- The tables the statements read; `members` are (workspace_id, user_id). -/
structure Tables where
  keys : List ApiKey
  workspaces : List Str
  members : List (Str × Str)

def Tables.hasWorkspace (db : Tables) (id : Str) : Bool := db.workspaces.any (· == id)

def Tables.hasMember (db : Tables) (workspaceID userID : Str) : Bool :=
  db.members.any fun m => m.1 == workspaceID && m.2 == userID

@[simp] theorem Tables.hasWorkspace_iff (db : Tables) (id : Str) :
    db.hasWorkspace id = true ↔ id ∈ db.workspaces := by
  simp [hasWorkspace]

@[simp] theorem Tables.hasMember_iff (db : Tables) (workspaceID userID : Str) :
    db.hasMember workspaceID userID = true ↔ (workspaceID, userID) ∈ db.members := by
  simp [hasMember]

/-- What reaches a handler. The id and the secret are those Create draws. -/
inductive Call
  | create (workspaceID userID name id : Str) (secret : Secret)
  | revoke (workspaceID userID keyID : Str)
  | verify (key : Str)

inductive Reply
  | created (key : ApiKey) (token : Str)
  | noContent
  | granted (workspaceID : Str)
  | refused (status : Nat) (code message : Str)
  deriving DecidableEq

def unauthorized : Reply :=
  .refused 401 (lit "UNAUTHORIZED") (lit "user identity could not be resolved")
def forbidden : Reply :=
  .refused 403 (lit "FORBIDDEN") (lit "you do not have access to that workspace")
def invalidKey : Reply := .refused 401 (lit "INVALID_API_KEY") (lit "invalid api key")
def notFound : Reply := .refused 404 (lit "API_KEY_NOT_FOUND") (lit "api key not found")
def internalError (message : Str) : Reply := .refused 500 (lit "INTERNAL") message

/-- The next piece of a handler; a statement that writes has a piece for its snapshot and
one for its commit. -/
inductive Pc
  | createScope (workspaceID userID : Str) (key : ApiKey) (token : Str)
  | createInsert (key : ApiKey) (token : Str)
  | revokeScope (workspaceID userID keyID : Str)
  | revokeFind (workspaceID keyID : Str)
  | revokeWrite (workspaceID keyID : Str)
  | verify (key : Str)
  | verifyFind (hash : Str)
  | verifyBump (found : ApiKey)
  | done (reply : Reply)
  deriving DecidableEq

/-- `startedAt` is the NOW() of the statement's transaction. -/
structure Handler where
  call : Call
  startedAt : Int
  pc : Pc

/-- `ids` and `hashes` are the key ids and token hashes drawn so far: both are random and
none is drawn twice. -/
structure State where
  now : Int
  db : Tables
  handlers : Nat → Option Handler
  ids : List Str
  hashes : List Str

def newStore (now : Int) : State := ⟨now, ⟨[], [], []⟩, fun _ => none, [], []⟩

inductive Action
  | start (r : Nat) (call : Call)
  | tick (elapsed : Nat)
  | advance (r : Nat)
  | interrupt (r : Nat)
  | lose (r : Nat)
  | addWorkspace (id userID : Str)
  | deleteWorkspace (id : Str)
  | join (workspaceID userID : Str)
  | leave (workspaceID userID : Str)

def minute : Int := 60 * 1000000000

variable (hash : Str → Str)

/-- The metadata Create draws for a new key; the insert stamps its creation time. -/
def draft (workspaceID userID name id : Str) (secret : Secret) : ApiKey where
  id := id
  workspaceID := workspaceID
  createdBy := userID
  name := if trimSpace name = [] then lit "default" else trimSpace name
  displayPrefix := (newToken secret).take displayPrefixLen
  keyHash := hash (newToken secret)
  createdAt := 0
  lastUsedAt := none
  revokedAt := none

def Call.begin_ : Call → Pc
  | .create workspaceID userID name id secret =>
    .createScope workspaceID userID (draft hash workspaceID userID name id secret) (newToken secret)
  | .revoke workspaceID userID keyID => .revokeScope workspaceID userID keyID
  | .verify key => .verify key

/-- The answer when the context ends or a statement fails. -/
def Pc.failure : Pc → Reply
  | .createScope .. | .revokeScope .. => internalError (lit "could not resolve workspace access")
  | .createInsert .. => internalError (lit "could not create api key")
  | .revokeFind .. | .revokeWrite .. => internalError (lit "could not revoke api key")
  | _ => internalError (lit "could not verify api key")

/-- The pieces that commit a write. -/
def Pc.writes : Pc → Bool
  | .createInsert .. | .revokeWrite .. | .verifyBump _ => true
  | _ => false

namespace State

def set (s : State) (r : Nat) (x : Handler) : State :=
  { s with handlers := Function.update s.handlers r (some x) }

def goto (s : State) (r : Nat) (x : Handler) (pc : Pc) : State := s.set r { x with pc := pc }

def setKeys (s : State) (keys : List ApiKey) : State := { s with db := { s.db with keys := keys } }

/-- The next statement, in a transaction that starts now. -/
def begin_ (s : State) (r : Nat) (x : Handler) (pc : Pc) : State :=
  s.set r { x with startedAt := s.now, pc := pc }

/-- resolveWorkspaceScope; an empty id asks for every workspace of the caller. -/
def resolveWorkspaceScope (s : State) (r : Nat) (x : Handler) (userID requested : Str) (next : Pc) :
    State :=
  if userID = [] then s.goto r x (.done unauthorized)
  else if requested = [] ∨ s.db.hasMember requested userID then s.begin_ r x next
  else s.goto r x (.done forbidden)

end State

/-- The foreign key and the unique columns of api_keys. -/
def Tables.admits (db : Tables) (key : ApiKey) : Bool :=
  db.hasWorkspace key.workspaceID &&
    db.keys.all fun other => other.id != key.id && other.keyHash != key.keyHash

/-- The row the UPDATE of Revoke is about. -/
def revocable (workspaceID keyID : Str) (key : ApiKey) : Bool :=
  key.id == keyID && key.workspaceID == workspaceID && key.active

/-- The row the UPDATE of FindActiveByHash is about, a minute after its last use. -/
def bumpable (hash : Str) (now : Int) (key : ApiKey) : Bool :=
  key.keyHash == hash && key.active && match key.lastUsedAt with
    | none => true
    | some at_ => at_ < now - minute

def revoking (workspaceID keyID : Str) (now : Int) (key : ApiKey) : ApiKey :=
  if revocable workspaceID keyID key then { key with revokedAt := some now } else key

/-- The UPDATE picks its row in the snapshot `found` was read in, and looks again. -/
def bumping (found : ApiKey) (now : Int) (key : ApiKey) : ApiKey :=
  if bumpable found.keyHash now found && bumpable found.keyHash now key then
    { key with lastUsedAt := some now }
  else key

def advance (s : State) (r : Nat) (x : Handler) : Option State :=
  match x.pc with
  | .createScope workspaceID userID key token =>
    some (s.resolveWorkspaceScope r x userID workspaceID (.createInsert key token))
  | .createInsert key token =>
    if s.db.admits key then
      let key := { key with createdAt := x.startedAt }
      some ((s.setKeys (s.db.keys ++ [key])).goto r x (.done (.created key token)))
    else some (s.goto r x (.done (Pc.createInsert key token).failure))
  | .revokeScope workspaceID userID keyID =>
    some (s.resolveWorkspaceScope r x userID workspaceID (.revokeFind workspaceID keyID))
  | .revokeFind workspaceID keyID =>
    if s.db.keys.any (revocable workspaceID keyID) then
      some (s.goto r x (.revokeWrite workspaceID keyID))
    else some (s.goto r x (.done notFound))
  | .revokeWrite workspaceID keyID =>
    -- the row may have been revoked or deleted since the snapshot
    if s.db.keys.any (revocable workspaceID keyID) then
      some ((s.setKeys (s.db.keys.map (revoking workspaceID keyID x.startedAt))).goto r x
        (.done .noContent))
    else some (s.goto r x (.done notFound))
  | .verify key =>
    if key = [] ∨ !valid (trimSpace key) then some (s.goto r x (.done invalidKey))
    else some (s.begin_ r x (.verifyFind (hash (trimSpace key))))
  | .verifyFind keyHash =>
    match s.db.keys.find? fun key => key.keyHash == keyHash && key.active with
    | none => some (s.goto r x (.done invalidKey))
    | some found => some (s.goto r x (.verifyBump found))
  | .verifyBump found =>
    some ((s.setKeys (s.db.keys.map (bumping found x.startedAt))).goto r x
      (.done (.granted found.workspaceID)))
  | .done _ => none

/-- The id and the token hash a call draws; neither was drawn before. -/
def Call.draw (s : State) : Call → Option State
  | .create _ _ _ id secret =>
    if s.ids.any (· == id) || s.hashes.any (· == hash (newToken secret)) then none
    else some { s with ids := id :: s.ids, hashes := hash (newToken secret) :: s.hashes }
  | _ => some s

def step (s : State) : Action → Option State
  | .start r call =>
    match s.handlers r, call.draw hash s with
    | none, some s => some (s.set r ⟨call, s.now, call.begin_ hash⟩)
    | _, _ => none
  | .tick elapsed => some { s with now := s.now + elapsed }
  | .advance r => do advance hash s r (← s.handlers r)
  | .interrupt r => do
    let x ← s.handlers r
    match x.pc with
    | .verify _ | .done _ => none
    | pc => some (s.goto r x (.done pc.failure))
  | .lose r => do
    let x ← s.handlers r
    if x.pc.writes then (advance hash s r x).map (·.goto r x (.done x.pc.failure)) else none
  | .addWorkspace id userID =>
    -- ids of workspaces are drawn as UUIDs
    if id = [] ∨ s.db.hasWorkspace id then none
    else some { s with db := { s.db with
      workspaces := id :: s.db.workspaces, members := (id, userID) :: s.db.members } }
  | .deleteWorkspace id =>
    -- api_keys.workspace_id references the workspace ON DELETE CASCADE
    some { s with db :=
      { keys := s.db.keys.filter (·.workspaceID ≠ id)
        workspaces := s.db.workspaces.filter (· ≠ id)
        members := s.db.members.filter (·.1 ≠ id) } }
  | .join workspaceID userID =>
    -- workspace_members names no workspace as a foreign key: the row may outlive it
    some { s with db := { s.db with members := (workspaceID, userID) :: s.db.members } }
  | .leave workspaceID userID =>
    some { s with db := { s.db with members := s.db.members.filter (· ≠ (workspaceID, userID)) } }

end Tracium.ApiKeys
