import Tracium.Accounts.Service

/-! Accounts and their sessions: registration, sign-in, password changes, the operator's
reset and the check of a bearer token. One action is one statement of a request or the work
between two; the requests interleave freely and any of them may fail at any point. -/
namespace Tracium.Sessions

open Go Accounts

inductive Failure
  | account (err : Accounts.Error)
  | emailTaken
  | invalidCredentials
  | lifecycle
  | unavailable
  deriving DecidableEq

inductive Call (Token : Type)
  | register (email : String) (password : Str)
  | login (email : String) (password : Str)
  | issue (userID : String)
  | changePassword (userID : String) (currentPassword newPassword : Str)
  | resetPassword (email : String) (password : Str)
  | authenticate (token : Token)
  deriving DecidableEq

inductive Outcome (Token : Type)
  | session (token : Token) (issuedAt : Int)
  | confirmationRequired
  | reset
  | principal (p : Principal) (checkedAt : Int)
  | failed (err : Failure)
  deriving DecidableEq

/-- The next piece of a request. -/
inductive Pc (Token : Type)
  | registerHash (email : String) (password : Str)
  | registerCreate (user : User)
  | registered (user : User)
  | loginFind (email : String) (password : Str)
  | loginCheck (user : User) (password : Str)
  | issueFind (userID : String)
  | gate (user : User)
  | changeFind (userID : String) (currentPassword newPassword : Str)
  | changeCheck (user : User) (currentPassword newPassword : Str)
  | changeUpdate (user : User)
  | resetFind (email : String) (password : Str)
  | resetHash (user : User) (password : Str)
  | resetUpdate (user : User)
  | sign (user : User)
  | authParse (token : Token)
  | authFind (claims : TokenClaims) (checkedAt : Int)
  | done (outcome : Outcome Token)

structure Request (Token : Type) where
  call : Call Token
  pc : Pc Token

/-- `hashes` are those the handlers have drawn: salts are random, and no two hashes drawn
have one stamp. -/
structure State (Token : Type) where
  now : Int
  users : List User
  requests : Nat → Option (Request Token)
  hashes : List Str

/-- What an account lifecycle answers; without one every answer is `proceed`. -/
inductive Verdict
  | proceed
  | requireConfirmation
  | refuse
  deriving DecidableEq

inductive Action (Token : Type)
  | start (r : Nat) (call : Call Token)
  | tick (elapsed : Nat)
  | advance (r : Nat)
  | draw (r : Nat) (salt : Nat) (id tenantID : String)
  | write (r : Nat) (reply : Reply)
  | lifecycle (r : Nat) (verdict : Verdict)
  | interrupt (r : Nat)

variable {Token : Type} (lib : Library Token)

def Call.begin_ : Call Token → Pc Token
  | .register email password => .registerHash email password
  | .login email password => .loginFind email password
  | .issue userID => .issueFind userID
  | .changePassword userID currentPassword newPassword => .changeFind userID currentPassword newPassword
  | .resetPassword email password => .resetFind email password
  | .authenticate token => .authParse token

namespace State

def byID (s : State Token) (id : String) : Option User := s.users.find? (·.id = id)

def byEmail (s : State Token) (email : String) : Option User := s.users.find? (·.email = email)

def goto (s : State Token) (r : Nat) (x : Request Token) (pc : Pc Token) : State Token :=
  { s with requests := Function.update s.requests r (some { x with pc := pc }) }

def fail (s : State Token) (r : Nat) (x : Request Token) (err : Failure) : State Token :=
  s.goto r x (.done (.failed err))

/-- UserStore.UpdatePasswordHash. -/
def updatePasswordHash (s : State Token) (id : String) (hash : Str) : State Token :=
  { s with users := s.users.map fun u => if u.id = id then { u with passwordHash := hash } else u }

/-- What a request does after a write, by what the driver reported of it. -/
def answer (s : State Token) (r : Nat) (x : Request Token) (reply : Reply) (pc : Pc Token) : State Token :=
  s.goto r x (if reply = .ok then pc else .done (.failed (.account .database)))

/-- A drawn hash, unless its stamp is one of a hash drawn before. -/
def keepHash (s : State Token) (hash : Str) : Option (State Token) :=
  if lib.passwordStamp hash ∈ s.hashes.map lib.passwordStamp then none
  else some { s with hashes := hash :: s.hashes }

end State

/- strings.ToLower after strings.TrimSpace: both read Unicode tables. -/
variable (normalizeEmail : String → String)

/-- The pieces that depend on nothing but the tables and the clock. -/
def advance (s : State Token) (r : Nat) (x : Request Token) : Option (State Token) :=
  match x.pc with
  | .loginFind email password =>
    match s.byEmail (normalizeEmail email) with
    | none => some (s.fail r x .invalidCredentials)
    | some user => some (s.goto r x (.loginCheck user password))
  | .loginCheck user password =>
    if checkPassword lib user.passwordHash password then some (s.goto r x (.gate user))
    else some (s.fail r x .invalidCredentials)
  | .issueFind userID =>
    match s.byID userID with
    | none => some (s.fail r x (.account .userNotFound))
    | some user => some (s.goto r x (.gate user))
  | .changeFind userID currentPassword newPassword =>
    match s.byID userID with
    | none => some (s.fail r x (.account .userNotFound))
    | some user => some (s.goto r x (.changeCheck user currentPassword newPassword))
  | .resetFind email password =>
    match validateCredentials lib email password with
    | .error err => some (s.fail r x (.account err))
    | .ok () =>
      match s.byEmail (normalizeEmail email) with
      | none => some (s.fail r x (.account .userNotFound))
      | some user => some (s.goto r x (.resetHash user password))
  | .sign user =>
    match Accounts.issue lib user s.now with
    | .error err => some (s.fail r x (.account err))
    | .ok token => some (s.goto r x (.done (.session token s.now)))
  | .authParse token =>
    match parse lib token s.now with
    | .error err => some (s.fail r x (.account err))
    | .ok claims => some (s.goto r x (.authFind claims s.now))
  | .authFind claims checkedAt =>
    match s.byID claims.userID with
    | none => some (s.fail r x (.account .userNotFound))
    | some user =>
      if claims.passwordStamp ≠ "" ∧ claims.passwordStamp ≠ lib.passwordStamp user.passwordHash then
        some (s.fail r x (.account .predatesPasswordChange))
      else some (s.goto r x (.done (.principal ⟨user.id, user.tenantID, user.role⟩ checkedAt)))
  | _ => none

/-- The pieces that hash a password. -/
def draw (s : State Token) (r : Nat) (x : Request Token) (salt : Nat) (id tenantID : String) :
    Option (State Token) :=
  match x.pc with
  | .registerHash email password =>
    match hashPassword lib salt password with
    | .error err => some (s.fail r x (.account err))
    | .ok hash =>
      (s.keepHash lib hash).map fun s =>
        s.goto r x (.registerCreate ⟨id, normalizeEmail email, hash, tenantID, "admin"⟩)
  | .changeCheck user currentPassword newPassword =>
    match checkChange lib user currentPassword newPassword salt with
    | .error err => some (s.fail r x (.account err))
    | .ok changed => (s.keepHash lib changed.passwordHash).map fun s => s.goto r x (.changeUpdate changed)
  | .resetHash user password =>
    match hashPassword lib salt password with
    | .error err => some (s.fail r x (.account err))
    | .ok hash =>
      (s.keepHash lib hash).map fun s => s.goto r x (.resetUpdate { user with passwordHash := hash })
  | _ => none

/-- The pieces that write, and what the driver reports: an error may follow a write. -/
def write (s : State Token) (r : Nat) (x : Request Token) (reply : Reply) : Option (State Token) :=
  match x.pc with
  | .registerCreate user =>
    if s.users.any fun u => u.id = user.id || u.email = user.email then some (s.fail r x .emailTaken)
    else
      let created := if reply.applied then { s with users := s.users ++ [user] } else s
      some (created.answer r x reply (.registered user))
  | .changeUpdate user =>
    let updated := if reply.applied then s.updatePasswordHash user.id user.passwordHash else s
    some (updated.answer r x reply (.sign user))
  | .resetUpdate user =>
    let updated := if reply.applied then s.updatePasswordHash user.id user.passwordHash else s
    some (updated.answer r x reply (.done .reset))
  | _ => none

/-- AfterRegister and EnsureCanLogin. -/
def lifecycle (s : State Token) (r : Nat) (x : Request Token) (verdict : Verdict) : Option (State Token) :=
  match x.pc, verdict with
  | .registered user, .proceed | .gate user, .proceed => some (s.goto r x (.sign user))
  | .registered _, .requireConfirmation => some (s.goto r x (.done .confirmationRequired))
  | .registered _, .refuse | .gate _, .refuse => some (s.fail r x .lifecycle)
  | _, _ => none

def step (s : State Token) : Action Token → Option (State Token)
  | .start r call =>
    match s.requests r with
    | none => some (s.goto r ⟨call, call.begin_⟩ call.begin_)
    | some _ => none
  | .tick elapsed => some { s with now := s.now + elapsed }
  | .advance r => do advance lib normalizeEmail s r (← s.requests r)
  | .draw r salt id tenantID => do draw lib normalizeEmail s r (← s.requests r) salt id tenantID
  | .write r reply => do write s r (← s.requests r) reply
  | .lifecycle r verdict => do lifecycle s r (← s.requests r) verdict
  | .interrupt r => do
    let x ← s.requests r
    match x.pc with
    | .done _ => none
    | _ => some (s.fail r x .unavailable)

/-- No account and no request. -/
def newAccounts (now : Int) : State Token := ⟨now, [], fun _ => none, []⟩

end Tracium.Sessions
