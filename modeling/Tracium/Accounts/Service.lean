import Tracium.Go.Bytes
import Tracium.Steps

/-! The password side of the account service. ChangePassword is a read and a write with the
check between them and no transaction around the three, so its calls interleave freely. -/
namespace Tracium.Accounts

open Go

/-- A row of users. Text columns are valid UTF-8; a password is any Go string. -/
structure User where
  id : String
  email : String
  passwordHash : Str
  tenantID : String
  role : String
  deriving DecidableEq

inductive Error
  | userNotFound
  | noPassword
  | invalidCurrentPassword
  | invalidEmail
  | passwordTooShort
  | passwordTooLong
  | invalidToken
  | missingSub
  | predatesPasswordChange
  | hashing
  | signing
  | database
  deriving DecidableEq

/-- The claims of a session token. A claim that is absent or no string is none. -/
structure Claims where
  sub : Option String
  tenantID : Option String
  role : Option String
  pwd : Option String
  iat : Int
  exp : Int
  deriving DecidableEq

def second : Int := 1000000000

/-- Instants are nanoseconds; Unix rounds down to seconds. -/
def unix (instant : Int) : Int := instant / second

def tokenTTL : Int := 24 * 3600 * second

/-- What the service takes from bcrypt, HMAC-SHA256, the JWT package and net/mail. The salt
is bcrypt's random one. A signed token verifies while the clock is before its exp. -/
structure Library (Token : Type) where
  generateFromPassword : Nat → Str → Option Str
  compareHashAndPassword : Str → Str → Bool
  passwordStamp : Str → String
  sign : Claims → Option Token
  verify : Token → Int → Option Claims
  parseAddress : String → Option String
  signs : ∀ claims, ∃ token, sign claims = some token
  verify_signed : ∀ claims token now, sign claims = some token → now < claims.exp * second →
    verify token now = some claims

/-- Only the password itself matches its hash. Of bcrypt this is an idealization: it reads no
more than 72 bytes of what it compares. -/
def Library.Discerns {Token : Type} (lib : Library Token) : Prop :=
  ∀ salt p hash q, lib.generateFromPassword salt p = some hash →
    (lib.compareHashAndPassword hash q = true ↔ p = q)

variable {Token : Type} (lib : Library Token)

def hashPassword (salt : Nat) (password : Str) : Except Error Str :=
  match lib.generateFromPassword salt password with
  | none => .error .hashing
  | some hash => .ok hash

def checkPassword (hash password : Str) : Bool := lib.compareHashAndPassword hash password

def minPasswordLen : Nat := 8
def maxPasswordLen : Nat := 72
def maxEmailLen : Nat := 254

def validateEmail (email : String) : Except Error Unit :=
  if email.utf8ByteSize = 0 ∨ email.utf8ByteSize > maxEmailLen then .error .invalidEmail
  else if lib.parseAddress email = some email then .ok () else .error .invalidEmail

def validateCredentials (email : String) (password : Str) : Except Error Unit := do
  validateEmail lib email
  if password.length < minPasswordLen then .error .passwordTooShort
  else if password.length > maxPasswordLen then .error .passwordTooLong
  else .ok ()

def claimsFor (user : User) (now : Int) : Claims where
  sub := some user.id
  tenantID := some user.tenantID
  role := some user.role
  pwd := some (lib.passwordStamp user.passwordHash)
  iat := unix now
  exp := unix (now + tokenTTL)

def issue (user : User) (now : Int) : Except Error Token :=
  match lib.sign (claimsFor lib user now) with
  | none => .error .signing
  | some token => .ok token

structure TokenClaims where
  userID : String
  passwordStamp : String

def parse (token : Token) (now : Int) : Except Error TokenClaims :=
  match lib.verify token now with
  | none => .error .invalidToken
  | some claims =>
    let userID := claims.sub.getD ""
    if userID = "" then .error .missingSub else .ok ⟨userID, claims.pwd.getD ""⟩

/-- The users table as far as one account goes. -/
def byID (account : User) (id : String) : Except Error User :=
  if account.id = id then .ok account else .error .userNotFound

structure Principal where
  userID : String
  tenantID : String
  role : String
  deriving DecidableEq

def authenticate (account : User) (token : Token) (now : Int) : Except Error Principal := do
  let claims ← parse lib token now
  let user ← byID account claims.userID
  if claims.passwordStamp ≠ "" ∧ claims.passwordStamp ≠ lib.passwordStamp user.passwordHash then
    .error .predatesPasswordChange
  else .ok ⟨user.id, user.tenantID, user.role⟩

/-- ChangePassword between its two statements: the account as read, with the hash to write. -/
def checkChange (user : User) (currentPassword newPassword : Str) (salt : Nat) :
    Except Error User := do
  if user.passwordHash = [] then .error .noPassword
  else if checkPassword lib user.passwordHash currentPassword = false then
    .error .invalidCurrentPassword
  else
    validateCredentials lib user.email newPassword
    let hash ← hashPassword lib salt newPassword
    .ok { user with passwordHash := hash }

/-- Where a call is; each names the next piece it runs. `read` is the hash the check ran
against, which the code overwrites in its copy of the account. -/
inductive Pc (Token : Type)
  | read
  | check (user : User)
  | update (read : Str) (user : User)
  | issue (user : User)
  | failed (err : Error)
  | succeeded (token : Token) (issuedAt : Int)

structure Call (Token : Type) where
  userID : String
  currentPassword : Str
  newPassword : Str
  pc : Pc Token

/-- An UpdatePasswordHash that took effect, with what its call presented. -/
structure Update where
  call : Nat
  currentPassword : Str
  newPassword : Str
  before : Str
  after : Str

/-- `log` is the commit order, which nothing in the code keeps. -/
structure State (Token : Type) where
  now : Int
  account : User
  calls : Nat → Option (Call Token)
  log : List Update

/-- What the Exec of a write reports; an error can follow a write that took effect. -/
inductive Reply
  | ok
  | failed (applied : Bool)
  deriving DecidableEq

def Reply.applied : Reply → Bool
  | .ok => true
  | .failed applied => applied

inductive Action
  | tick (elapsed : Nat)
  | changePassword (g : Nat) (userID : String) (currentPassword newPassword : Str)
  | read (g : Nat) (reachable : Bool)
  | check (g : Nat) (salt : Nat)
  | update (g : Nat) (reply : Reply)
  | issue (g : Nat)

namespace State

def goto (s : State Token) (g : Nat) (call : Call Token) (pc : Pc Token) : State Token :=
  { s with calls := Function.update s.calls g (some { call with pc := pc }) }

/-- UPDATE users SET password_hash = hash WHERE id = id. -/
def updatePasswordHash (s : State Token) (g : Nat) (call : Call Token) (id : String) (hash : Str) :
    State Token :=
  if s.account.id = id then
    { s with
      account := { s.account with passwordHash := hash }
      log := s.log ++
        [⟨g, call.currentPassword, call.newPassword, s.account.passwordHash, hash⟩] }
  else s

/-- The ByID of a call. -/
def read (s : State Token) (g : Nat) (call : Call Token) (reachable : Bool) :
    Option (State Token) :=
  match call.pc with
  | .read =>
    match if reachable then byID s.account call.userID else .error .database with
    | .error err => some (s.goto g call (.failed err))
    | .ok user => some (s.goto g call (.check user))
  | _ => none

def check (s : State Token) (g : Nat) (call : Call Token) (salt : Nat) : Option (State Token) :=
  match call.pc with
  | .check user =>
    match checkChange lib user call.currentPassword call.newPassword salt with
    | .error err => some (s.goto g call (.failed err))
    | .ok changed => some (s.goto g call (.update user.passwordHash changed))
  | _ => none

/-- The UpdatePasswordHash of a call. -/
def update (s : State Token) (g : Nat) (call : Call Token) (reply : Reply) :
    Option (State Token) :=
  match call.pc with
  | .update _ user =>
    let written :=
      if reply.applied then s.updatePasswordHash g call user.id user.passwordHash else s
    some (written.goto g call (if reply = .ok then .issue user else .failed .database))
  | _ => none

def issue (s : State Token) (g : Nat) (call : Call Token) : Option (State Token) :=
  match call.pc with
  | .issue user =>
    match Accounts.issue lib user s.now with
    | .error err => some (s.goto g call (.failed err))
    | .ok token => some (s.goto g call (.succeeded token s.now))
  | _ => none

end State

def step (s : State Token) : Action → Option (State Token)
  | .tick elapsed => some { s with now := s.now + elapsed }
  | .changePassword g userID currentPassword newPassword =>
    match s.calls g with
    | none => some (s.goto g ⟨userID, currentPassword, newPassword, .read⟩ .read)
    | some _ => none
  | .read g reachable => do s.read g (← s.calls g) reachable
  | .check g salt => do s.check lib g (← s.calls g) salt
  | .update g reply => do s.update g (← s.calls g) reply
  | .issue g => do s.issue lib g (← s.calls g)

/-- No call is under way. -/
def start (account : User) (now : Int) : State Token := ⟨now, account, fun _ => none, []⟩

end Tracium.Accounts
