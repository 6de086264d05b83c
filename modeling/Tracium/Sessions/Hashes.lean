import Mathlib.Data.List.Nodup
import Mathlib.Data.List.Pairwise
import Tracium.History
import Tracium.Sessions.Store

/-! The life of a password hash: drawn once, written at most once, and gone for good when it
is overwritten. -/
namespace Tracium.Sessions

open Go Accounts

variable {Token : Type} {lib : Library Token} {normalizeEmail : String → String}

/-- The hash a request has drawn and not written yet. -/
def Pc.drawn : Pc Token → Option Str
  | .registerCreate user | .changeUpdate user | .resetUpdate user => some user.passwordHash
  | _ => none

/-- The account a request is to write, which had a row when it was read. -/
def Pc.stands : Pc Token → Option User
  | .changeCheck user _ _ | .changeUpdate user | .resetHash user _ | .resetUpdate user => some user
  | _ => none

/-- What one piece of a request does: the users and the drawn hashes after it, and the next
piece. -/
inductive Moves (lib : Library Token) (normalizeEmail : String → String) (s : State Token) (x : Request Token) :
    List User → List Str → Pc Token → Prop
  | fail (err : Failure) : Moves lib normalizeEmail s x s.users s.hashes (.done (.failed err))
  | confirm : Moves lib normalizeEmail s x s.users s.hashes (.done .confirmationRequired)
  | login {email : String} {password : Str} {user : User} (at_ : x.pc = .loginFind email password)
      (row : user ∈ s.users) (named : user.email = normalizeEmail email) :
      Moves lib normalizeEmail s x s.users s.hashes (.loginCheck user password)
  | accept {user : User} {password : Str} (at_ : x.pc = .loginCheck user password)
      (right : checkPassword lib user.passwordHash password = true) :
      Moves lib normalizeEmail s x s.users s.hashes (.gate user)
  | find {user : User} (at_ : x.pc = .issueFind user.id) (row : user ∈ s.users) :
      Moves lib normalizeEmail s x s.users s.hashes (.gate user)
  | change {user : User} {currentPassword newPassword : Str}
      (at_ : x.pc = .changeFind user.id currentPassword newPassword) (row : user ∈ s.users) :
      Moves lib normalizeEmail s x s.users s.hashes (.changeCheck user currentPassword newPassword)
  | reset {user : User} {email : String} {password : Str} (at_ : x.pc = .resetFind email password)
      (row : user ∈ s.users) : Moves lib normalizeEmail s x s.users s.hashes (.resetHash user password)
  | sign {user : User} {token : Token} (at_ : x.pc = .sign user)
      (signed : lib.sign (claimsFor lib user s.now) = some token) :
      Moves lib normalizeEmail s x s.users s.hashes (.done (.session token s.now))
  | parse {token : Token} {claims : Claims} (at_ : x.pc = .authParse token)
      (verified : lib.verify token s.now = some claims) :
      Moves lib normalizeEmail s x s.users s.hashes
        (.authFind ⟨claims.sub.getD "", claims.pwd.getD ""⟩ s.now)
  | authenticate {claims : TokenClaims} {checkedAt : Int} {user : User}
      (at_ : x.pc = .authFind claims checkedAt) (row : user ∈ s.users) (named : user.id = claims.userID)
      (stamp : claims.passwordStamp = "" ∨ claims.passwordStamp = lib.passwordStamp user.passwordHash) :
      Moves lib normalizeEmail s x s.users s.hashes
        (.done (.principal ⟨user.id, user.tenantID, user.role⟩ checkedAt))
  | registerDraw {email : String} {password hash : Str} {salt : Nat} (at_ : x.pc = .registerHash email password)
      (hashed : hashPassword lib salt password = .ok hash)
      (fresh : lib.passwordStamp hash ∉ s.hashes.map lib.passwordStamp) (id tenantID : String) :
      Moves lib normalizeEmail s x s.users (hash :: s.hashes)
        (.registerCreate ⟨id, normalizeEmail email, hash, tenantID, "admin"⟩)
  | changeDraw {user : User} {currentPassword newPassword hash : Str} {salt : Nat}
      (at_ : x.pc = .changeCheck user currentPassword newPassword)
      (right : checkPassword lib user.passwordHash currentPassword = true)
      (hashed : hashPassword lib salt newPassword = .ok hash)
      (fresh : lib.passwordStamp hash ∉ s.hashes.map lib.passwordStamp) :
      Moves lib normalizeEmail s x s.users (hash :: s.hashes) (.changeUpdate { user with passwordHash := hash })
  | resetDraw {user : User} {password hash : Str} (at_ : x.pc = .resetHash user password)
      (fresh : lib.passwordStamp hash ∉ s.hashes.map lib.passwordStamp) :
      Moves lib normalizeEmail s x s.users (hash :: s.hashes) (.resetUpdate { user with passwordHash := hash })
  | create {user : User} {pc : Pc Token} (at_ : x.pc = .registerCreate user)
      (new : ∀ u ∈ s.users, u.id ≠ user.id)
      (next : pc = .registered user ∨ pc = .done (.failed (.account .database))) :
      Moves lib normalizeEmail s x (s.users ++ [user]) s.hashes pc
  | update {user : User} {pc : Pc Token} (at_ : x.pc = .changeUpdate user ∨ x.pc = .resetUpdate user)
      (next : x.pc = .changeUpdate user ∧ pc = .sign user ∨ pc = .done .reset ∨
        pc = .done (.failed (.account .database))) :
      Moves lib normalizeEmail s x (s.updatePasswordHash user.id user.passwordHash).users s.hashes pc
  | release {user : User} (at_ : x.pc = .registered user ∨ x.pc = .gate user) :
      Moves lib normalizeEmail s x s.users s.hashes (.sign user)

/-- What one action does. -/
inductive Does (lib : Library Token) (normalizeEmail : String → String) (s : State Token) :
    Action Token → State Token → Prop
  | start {r : Nat} (call : Call Token) (free : s.requests r = none) :
      Does lib normalizeEmail s (.start r call) (s.goto r ⟨call, call.begin_⟩ call.begin_)
  | tick (elapsed : Nat) : Does lib normalizeEmail s (.tick elapsed) { s with now := s.now + elapsed }
  | move {a : Action Token} {r : Nat} {x : Request Token} {users : List User} {hashes : List Str}
      {pc : Pc Token} (here : s.requests r = some x) (unfinished : ∀ outcome, x.pc ≠ .done outcome)
      (moves : Moves lib normalizeEmail s x users hashes pc) :
      Does lib normalizeEmail s a ({ s with users := users, hashes := hashes }.goto r x pc)

variable {s s' : State Token} {r : Nat} {x : Request Token}

theorem byID_spec {id : String} {user : User} (found : s.byID id = some user) :
    user ∈ s.users ∧ user.id = id :=
  ⟨List.mem_of_find?_eq_some found, by simpa using List.find?_some found⟩

theorem byEmail_spec {email : String} {user : User} (found : s.byEmail email = some user) :
    user ∈ s.users ∧ user.email = email :=
  ⟨List.mem_of_find?_eq_some found, by simpa using List.find?_some found⟩

theorem parse_spec {token : Token} {now : Int} {claims : TokenClaims} (parsed : Accounts.parse lib token now = .ok claims) :
    ∃ c, lib.verify token now = some c ∧ claims = ⟨c.sub.getD "", c.pwd.getD ""⟩ := by
  unfold Accounts.parse at parsed
  split at parsed
  next => cases parsed
  next c verified =>
    dsimp only at parsed
    split at parsed
    next => cases parsed
    next => exact ⟨c, verified, (Except.ok.inj parsed).symm⟩

theorem issue_spec {user : User} {now : Int} {token : Token} (issued : Accounts.issue lib user now = .ok token) :
    lib.sign (claimsFor lib user now) = some token := by
  unfold Accounts.issue at issued
  split at issued
  next => cases issued
  next _ signed => exact Except.ok.inj issued ▸ signed

theorem checkChange_spec {user changed : User} {currentPassword newPassword : Str} {salt : Nat}
    (passed : checkChange lib user currentPassword newPassword salt = .ok changed) :
    checkPassword lib user.passwordHash currentPassword = true ∧
      ∃ hash, hashPassword lib salt newPassword = .ok hash ∧ changed = { user with passwordHash := hash } := by
  unfold checkChange at passed
  split at passed
  next => cases passed
  next =>
    split at passed
    next => cases passed
    next right =>
      cases valid : validateCredentials lib user.email newPassword with
      | error err => rw [valid] at passed; cases passed
      | ok _ =>
        cases hashed : hashPassword lib salt newPassword with
        | error err => rw [valid, hashed] at passed; cases passed
        | ok hash =>
          rw [valid, hashed] at passed
          exact ⟨by simpa using right, hash, rfl, (Except.ok.inj passed).symm⟩

theorem keepHash_spec {hash : Str} {f : State Token → State Token}
    (kept : (s.keepHash lib hash).map f = some s') :
    lib.passwordStamp hash ∉ s.hashes.map lib.passwordStamp ∧ s' = f { s with hashes := hash :: s.hashes } := by
  unfold State.keepHash at kept
  split at kept
  next => cases kept
  next fresh => exact ⟨fresh, (Option.some.inj kept).symm⟩

theorem advance_does {a : Action Token} (here : s.requests r = some x)
    (stepped : advance lib normalizeEmail s r x = some s') : Does lib normalizeEmail s a s' := by
  unfold advance at stepped
  split at stepped
  next email password at_ =>
    split at stepped <;> obtain rfl := Option.some.inj stepped
    next => exact .move here (by simp [at_]) (.fail _)
    next user found => exact .move here (by simp [at_]) (.login at_ (byEmail_spec found).1 (byEmail_spec found).2)
  next user password at_ =>
    split at stepped <;> obtain rfl := Option.some.inj stepped
    next right => exact .move here (by simp [at_]) (.accept at_ right)
    next => exact .move here (by simp [at_]) (.fail _)
  next userID at_ =>
    split at stepped <;> obtain rfl := Option.some.inj stepped
    next => exact .move here (by simp [at_]) (.fail _)
    next user found =>
      obtain ⟨row, rfl⟩ := byID_spec found
      exact .move here (by simp [at_]) (.find at_ row)
  next userID currentPassword newPassword at_ =>
    split at stepped <;> obtain rfl := Option.some.inj stepped
    next => exact .move here (by simp [at_]) (.fail _)
    next user found =>
      obtain ⟨row, rfl⟩ := byID_spec found
      exact .move here (by simp [at_]) (.change at_ row)
  next email password at_ =>
    split at stepped
    next => exact Option.some.inj stepped ▸ .move here (by simp [at_]) (.fail _)
    next =>
      split at stepped <;> obtain rfl := Option.some.inj stepped
      next => exact .move here (by simp [at_]) (.fail _)
      next user found => exact .move here (by simp [at_]) (.reset at_ (byEmail_spec found).1)
  next user at_ =>
    split at stepped <;> obtain rfl := Option.some.inj stepped
    next => exact .move here (by simp [at_]) (.fail _)
    next token issued => exact .move here (by simp [at_]) (.sign at_ (issue_spec issued))
  next token at_ =>
    split at stepped <;> obtain rfl := Option.some.inj stepped
    next => exact .move here (by simp [at_]) (.fail _)
    next claims parsed =>
      obtain ⟨c, verified, rfl⟩ := parse_spec parsed
      exact .move here (by simp [at_]) (.parse at_ verified)
  next claims checkedAt at_ =>
    split at stepped
    next => exact Option.some.inj stepped ▸ .move here (by simp [at_]) (.fail _)
    next user found =>
      split at stepped <;> obtain rfl := Option.some.inj stepped
      next => exact .move here (by simp [at_]) (.fail _)
      next same =>
        obtain ⟨row, named⟩ := byID_spec found
        refine .move here (by simp [at_]) (.authenticate at_ row named ?_)
        by_contra neither
        exact same (by rw [not_or] at neither; exact neither)
  next => cases stepped

theorem draw_does {a : Action Token} {salt : Nat} {id tenantID : String} (here : s.requests r = some x)
    (stepped : draw lib normalizeEmail s r x salt id tenantID = some s') : Does lib normalizeEmail s a s' := by
  unfold draw at stepped
  split at stepped
  next email password at_ =>
    split at stepped
    next => exact Option.some.inj stepped ▸ .move here (by simp [at_]) (.fail _)
    next hash hashed =>
      obtain ⟨fresh, rfl⟩ := keepHash_spec stepped
      exact .move here (by simp [at_]) (.registerDraw at_ hashed fresh id tenantID)
  next user currentPassword newPassword at_ =>
    split at stepped
    next => exact Option.some.inj stepped ▸ .move here (by simp [at_]) (.fail _)
    next changed passed =>
      obtain ⟨right, hash, hashed, rfl⟩ := checkChange_spec passed
      obtain ⟨fresh, rfl⟩ := keepHash_spec stepped
      exact .move here (by simp [at_]) (.changeDraw at_ right hashed fresh)
  next user password at_ =>
    split at stepped
    next => exact Option.some.inj stepped ▸ .move here (by simp [at_]) (.fail _)
    next hash hashed =>
      obtain ⟨fresh, rfl⟩ := keepHash_spec stepped
      exact .move here (by simp [at_]) (.resetDraw at_ fresh)
  next => cases stepped

theorem write_does {a : Action Token} {reply : Reply} (here : s.requests r = some x)
    (stepped : write s r x reply = some s') : Does lib normalizeEmail s a s' := by
  unfold write at stepped
  split at stepped
  next user at_ =>
    split at stepped <;> obtain rfl := Option.some.inj stepped
    next => exact .move here (by simp [at_]) (.fail _)
    next free =>
      have new : ∀ u ∈ s.users, u.id ≠ user.id := by
        intro u row same
        exact free (List.any_eq_true.mpr ⟨u, row, by simp [same]⟩)
      cases reply with
      | ok => exact .move here (by simp [at_]) (.create at_ new (.inl rfl))
      | failed applied =>
        cases applied with
        | true => exact .move here (by simp [at_]) (.create at_ new (.inr rfl))
        | false => exact .move here (by simp [at_]) (.fail _)
  next user at_ =>
    obtain rfl := Option.some.inj stepped
    cases reply with
    | ok => exact .move here (by simp [at_]) (.update (.inl at_) (.inl ⟨at_, rfl⟩))
    | failed applied =>
      cases applied with
      | true => exact .move here (by simp [at_]) (.update (.inl at_) (.inr (.inr rfl)))
      | false => exact .move here (by simp [at_]) (.fail _)
  next user at_ =>
    obtain rfl := Option.some.inj stepped
    cases reply with
    | ok => exact .move here (by simp [at_]) (.update (.inr at_) (.inr (.inl rfl)))
    | failed applied =>
      cases applied with
      | true => exact .move here (by simp [at_]) (.update (.inr at_) (.inr (.inr rfl)))
      | false => exact .move here (by simp [at_]) (.fail _)
  next => cases stepped

theorem lifecycle_does {a : Action Token} {verdict : Verdict} (here : s.requests r = some x)
    (stepped : lifecycle s r x verdict = some s') : Does lib normalizeEmail s a s' := by
  unfold lifecycle at stepped
  split at stepped
  next user at_ => exact Option.some.inj stepped ▸ .move here (by simp [at_]) (.release (.inl at_))
  next user at_ => exact Option.some.inj stepped ▸ .move here (by simp [at_]) (.release (.inr at_))
  next user at_ => exact Option.some.inj stepped ▸ .move here (by simp [at_]) .confirm
  next user at_ => exact Option.some.inj stepped ▸ .move here (by simp [at_]) (.fail _)
  next user at_ => exact Option.some.inj stepped ▸ .move here (by simp [at_]) (.fail _)
  next => cases stepped

theorem step_does {a : Action Token} (stepped : step lib normalizeEmail s a = some s') :
    Does lib normalizeEmail s a s' := by
  cases a with
  | start r call =>
    simp only [step] at stepped
    split at stepped
    next free => exact Option.some.inj stepped ▸ .start call free
    next => cases stepped
  | tick elapsed => exact Option.some.inj stepped ▸ .tick elapsed
  | advance r =>
    obtain ⟨x, here, inner⟩ := Option.bind_eq_some_iff.mp stepped
    exact advance_does here inner
  | draw r salt id tenantID =>
    obtain ⟨x, here, inner⟩ := Option.bind_eq_some_iff.mp stepped
    exact draw_does here inner
  | write r reply =>
    obtain ⟨x, here, inner⟩ := Option.bind_eq_some_iff.mp stepped
    exact write_does here inner
  | lifecycle r verdict =>
    obtain ⟨x, here, inner⟩ := Option.bind_eq_some_iff.mp stepped
    exact lifecycle_does here inner
  | interrupt r =>
    obtain ⟨x, here, inner⟩ := Option.bind_eq_some_iff.mp stepped
    split at inner
    next => cases inner
    next unfinished =>
      exact Option.some.inj inner ▸ .move here (fun outcome done => unfinished outcome done) (.fail _)

/-- A hash that was drawn and that no request is going to write. -/
structure Settled (s : State Token) (hash : Str) : Prop where
  drawn : hash ∈ s.hashes
  idle : ∀ r x, s.requests r = some x → x.pc.drawn ≠ some hash

structure Invariant (lib : Library Token) (s : State Token) : Prop where
  drawn : ∀ r x hash, s.requests r = some x → x.pc.drawn = some hash → hash ∈ s.hashes
  alone : ∀ r x r' x' hash, s.requests r = some x → s.requests r' = some x' → x.pc.drawn = some hash →
    x'.pc.drawn = some hash → r = r'
  stamps : (s.hashes.map lib.passwordStamp).Nodup
  settled : ∀ u ∈ s.users, Settled s u.passwordHash
  distinct : s.users.Pairwise fun u u' => u.id ≠ u'.id
  stands : ∀ r x user, s.requests r = some x → x.pc.stands = some user →
    ∃ u ∈ s.users, { u with passwordHash := user.passwordHash } = user

/-- Two rows of one id are one row. -/
theorem Invariant.same_row (inv : Invariant lib s) {u u' : User} (row : u ∈ s.users) (row' : u' ∈ s.users)
    (same : u.id = u'.id) : u = u' := by
  have : Std.Symm fun u u' : User => u.id ≠ u'.id := ⟨fun _ _ => Ne.symm⟩
  by_contra different
  exact inv.distinct.forall row row' different same

/-- Hashes of one stamp are one hash. -/
theorem Invariant.same_hash (inv : Invariant lib s) {hash hash' : Str} (drawn : hash ∈ s.hashes)
    (drawn' : hash' ∈ s.hashes) (same : lib.passwordStamp hash = lib.passwordStamp hash') : hash = hash' :=
  List.inj_on_of_nodup_map inv.stamps drawn drawn' same

section Step

variable {users : List User} {hashes : List Str} {pc : Pc Token}

/-- The hashes drawn: as before, or one more, which the request holds now. -/
theorem Moves.hashes_after (moves : Moves lib normalizeEmail s x users hashes pc) :
    (hashes = s.hashes ∧ (pc.drawn = none ∨ pc.drawn = x.pc.drawn)) ∨
    ∃ hash, lib.passwordStamp hash ∉ s.hashes.map lib.passwordStamp ∧ hashes = hash :: s.hashes ∧
      pc.drawn = some hash ∧ users = s.users := by
  cases moves with
  | registerDraw at_ hashed fresh | changeDraw at_ right hashed fresh | resetDraw at_ fresh =>
    exact .inr ⟨_, fresh, rfl, rfl, rfl⟩
  | create at_ new next =>
    rcases next with rfl | rfl <;> exact .inl ⟨rfl, .inl rfl⟩
  | update at_ next =>
    rcases next with ⟨-, rfl⟩ | rfl | rfl <;> exact .inl ⟨rfl, .inl rfl⟩
  | _ => exact .inl ⟨rfl, .inl rfl⟩

/-- The users: as before, one more, or one of them with the hash the request had drawn. -/
theorem Moves.users_after (moves : Moves lib normalizeEmail s x users hashes pc) :
    users = s.users ∨
    ∃ user, x.pc.drawn = some user.passwordHash ∧ pc.drawn = none ∧ hashes = s.hashes ∧
      ((users = s.users ++ [user] ∧ ∀ u ∈ s.users, u.id ≠ user.id) ∨
        users = (s.updatePasswordHash user.id user.passwordHash).users ∧ x.pc.stands = some user) := by
  cases moves with
  | @create user _ at_ new next =>
    refine .inr ⟨user, by rw [at_]; rfl, ?_, rfl, .inl ⟨rfl, new⟩⟩
    rcases next with rfl | rfl <;> rfl
  | @update user _ at_ next =>
    refine .inr ⟨user, ?_, ?_, rfl, .inr ⟨rfl, ?_⟩⟩
    · rcases at_ with at_ | at_ <;> rw [at_] <;> rfl
    · rcases next with ⟨-, rfl⟩ | rfl | rfl <;> rfl
    · rcases at_ with at_ | at_ <;> rw [at_] <;> rfl
  | _ => exact .inl rfl

/-- An account a request is to write is one it was to write before, or one it has just read. -/
theorem Moves.stands (moves : Moves lib normalizeEmail s x users hashes pc) {user : User}
    (stands : pc.stands = some user) :
    user ∈ s.users ∨ ∃ old, x.pc.stands = some old ∧ { old with passwordHash := user.passwordHash } = user := by
  cases moves with
  | change at_ row | reset at_ row => exact .inl (Option.some.inj stands ▸ row)
  | changeDraw at_ | resetDraw at_ =>
    cases stands
    exact .inr ⟨_, by rw [at_]; rfl, rfl⟩
  | create at_ new next => rcases next with rfl | rfl <;> cases stands
  | update at_ next => rcases next with ⟨-, rfl⟩ | rfl | rfl <;> cases stands
  | _ => cases stands

/-- Every account keeps its row, but for the hash. -/
theorem Moves.onward (moves : Moves lib normalizeEmail s x users hashes pc) {u : User} (row : u ∈ s.users) :
    ∃ u' ∈ users, { u with passwordHash := u'.passwordHash } = u' := by
  rcases moves.users_after with rfl | ⟨user, -, -, -, ⟨rfl, -⟩ | ⟨rfl, -⟩⟩
  · exact ⟨u, row, rfl⟩
  · exact ⟨u, List.mem_append_left _ row, rfl⟩
  · refine ⟨_, List.mem_map_of_mem row, ?_⟩
    split <;> rfl

/-- A row there is was there, or has the hash the request had drawn. -/
theorem Moves.rows (moves : Moves lib normalizeEmail s x users hashes pc) {u : User} (row : u ∈ users) :
    u ∈ s.users ∨ x.pc.drawn = some u.passwordHash := by
  rcases moves.users_after with rfl | ⟨user, mine, -, -, ⟨rfl, -⟩ | ⟨rfl, -⟩⟩
  · exact .inl row
  · rcases List.mem_append.mp row with old | new
    · exact .inl old
    · exact .inr (List.mem_singleton.mp new ▸ mine)
  · obtain ⟨old, was, rfl⟩ := List.mem_map.mp row
    split
    next => exact .inr mine
    next => exact .inl was

end Step

theorem Invariant.move (inv : Invariant lib s) (here : s.requests r = some x) {users : List User}
    {hashes : List Str} {pc : Pc Token} (moves : Moves lib normalizeEmail s x users hashes pc) :
    Invariant lib ({ s with users := users, hashes := hashes }.goto r x pc) := by
  have grown : s.hashes ⊆ hashes := by
    rcases moves.hashes_after with ⟨rfl, -⟩ | ⟨hash, -, rfl, -⟩
    exacts [List.Subset.refl _, List.subset_cons_self _ _]
  -- whoever holds a hash held it before, or has drawn it now
  have holder : ∀ i y hash, ({ s with users := users, hashes := hashes }.goto r x pc).requests i = some y →
      y.pc.drawn = some hash → (∃ y', s.requests i = some y' ∧ y'.pc.drawn = some hash) ∨
        i = r ∧ hash ∉ s.hashes ∧ hash ∈ hashes ∧ users = s.users := by
    intro i y hash found drawn
    rcases Steps.update_eq_some found with ⟨rfl, ⟨⟩⟩ | ⟨-, old⟩
    · rcases moves.hashes_after with ⟨-, none_ | same⟩ | ⟨new, fresh, rfl, mine, same⟩
      · rw [none_] at drawn
        cases drawn
      · exact .inl ⟨x, here, same ▸ drawn⟩
      · cases Option.some.inj (mine.symm.trans drawn)
        exact .inr ⟨rfl, fun old => fresh (List.mem_map_of_mem old), List.mem_cons_self, same⟩
    · exact .inl ⟨y, old, drawn⟩
  refine ⟨?_, ?_, ?_, ?_, ?_, ?_⟩
  · intro i y hash found drawn
    rcases holder i y hash found drawn with ⟨y', old, drawn⟩ | ⟨-, -, member, -⟩
    exacts [grown (inv.drawn i y' hash old drawn), member]
  · intro i y i' y' hash found found' drawn drawn'
    rcases holder i y hash found drawn with ⟨z, old, drawn⟩ | ⟨rfl, new, -⟩ <;>
      rcases holder i' y' hash found' drawn' with ⟨z', old', drawn'⟩ | ⟨rfl, new', -⟩
    · exact inv.alone i z i' z' hash old old' drawn drawn'
    · exact absurd (inv.drawn i z hash old drawn) new'
    · exact absurd (inv.drawn i' z' hash old' drawn') new
    · rfl
  · rcases moves.hashes_after with ⟨same, -⟩ | ⟨hash, fresh, same, -⟩
    · exact same ▸ inv.stamps
    · change (hashes.map _).Nodup
      rw [same]
      exact List.nodup_cons.mpr ⟨fresh, inv.stamps⟩
  · intro u row
    rcases moves.rows row with old | mine
    · refine ⟨grown (inv.settled u old).drawn, fun i y found drawn => ?_⟩
      rcases holder i y _ found drawn with ⟨y', was, drawn⟩ | ⟨-, new, -⟩
      exacts [(inv.settled u old).idle i y' was drawn, new (inv.settled u old).drawn]
    · refine ⟨grown (inv.drawn r x _ here mine), fun i y found drawn => ?_⟩
      -- the hash the request had drawn is in a row now, and nobody else held it
      have unwritten : ∀ u' ∈ s.users, u'.passwordHash ≠ u.passwordHash := fun u' row' same =>
        (inv.settled u' row').idle r x here (same ▸ mine)
      rcases holder i y _ found drawn with ⟨y', was, drawn'⟩ | ⟨-, new, -⟩
      · cases inv.alone i y' r x _ was here drawn' mine
        rcases moves.users_after with rfl | ⟨user, -, spent, -, -⟩
        · exact unwritten u row rfl
        · rcases Steps.update_eq_some found with ⟨-, ⟨⟩⟩ | ⟨other, -⟩
          · rw [spent] at drawn
            cases drawn
          · exact other rfl
      · exact new (inv.drawn r x _ here mine)
  · rcases moves.users_after with rfl | ⟨user, -, -, -, ⟨rfl, new⟩ | ⟨rfl, -⟩⟩
    · exact inv.distinct
    · refine List.pairwise_append.mpr ⟨inv.distinct, List.pairwise_singleton _ _, fun u row u' row' => ?_⟩
      exact List.mem_singleton.mp row' ▸ new u row
    · refine List.pairwise_map.mpr (inv.distinct.imp fun {u u'} apart => ?_)
      split <;> split <;> exact apart
  · intro i y user found stands
    have before : ∃ u ∈ s.users, { u with passwordHash := user.passwordHash } = user := by
      rcases Steps.update_eq_some found with ⟨rfl, ⟨⟩⟩ | ⟨-, old⟩
      · rcases moves.stands stands with row | ⟨old, stood, same⟩
        · exact ⟨user, row, rfl⟩
        · obtain ⟨u, row, same'⟩ := inv.stands i x old here stood
          exact ⟨u, row, by rw [← same, ← same']⟩
      · exact inv.stands i y user old stands
    obtain ⟨u, row, same⟩ := before
    obtain ⟨u', row', same'⟩ := moves.onward row
    exact ⟨u', row', by rw [← same', ← same]⟩

theorem begin_idle (call : Call Token) : call.begin_.drawn = none ∧ call.begin_.stands = none := by
  cases call <;> exact ⟨rfl, rfl⟩

theorem Invariant.step (inv : Invariant lib s) {a : Action Token}
    (stepped : Sessions.step lib normalizeEmail s a = some s') : Invariant lib s' := by
  cases step_does stepped with
  | @start i call free =>
    have old : ∀ j y, (s.goto i ⟨call, call.begin_⟩ call.begin_).requests j = some y →
        s.requests j = some y ∨ y.pc.drawn = none ∧ y.pc.stands = none := by
      intro j y found
      rcases Steps.update_eq_some found with ⟨-, ⟨⟩⟩ | ⟨-, old⟩
      exacts [.inr (begin_idle call), .inl old]
    refine ⟨?_, ?_, inv.stamps, ?_, inv.distinct, ?_⟩
    · intro j y hash found drawn
      rcases old j y found with old | ⟨none_, -⟩
      · exact inv.drawn j y hash old drawn
      · rw [none_] at drawn
        cases drawn
    · intro j y j' y' hash found found' drawn drawn'
      rcases old j y found with old₁ | ⟨none_, -⟩ <;> rcases old j' y' found' with old₂ | ⟨none', -⟩
      · exact inv.alone j y j' y' hash old₁ old₂ drawn drawn'
      · rw [none'] at drawn'
        cases drawn'
      all_goals
        rw [none_] at drawn
        cases drawn
    · intro u row
      refine ⟨(inv.settled u row).drawn, fun j y found drawn => ?_⟩
      rcases old j y found with old | ⟨none_, -⟩
      · exact (inv.settled u row).idle j y old drawn
      · rw [none_] at drawn
        cases drawn
    · intro j y user found stands
      rcases old j y found with old | ⟨-, none_⟩
      · exact inv.stands j y user old stands
      · rw [none_] at stands
        cases stands
  | tick elapsed =>
    exact ⟨inv.drawn, inv.alone, inv.stamps, fun u row => ⟨(inv.settled u row).drawn, (inv.settled u row).idle⟩,
      inv.distinct, inv.stands⟩
  | move here unfinished moves => exact inv.move here moves

theorem invariant_newAccounts (now : Int) : Invariant lib (newAccounts now) := by
  refine ⟨?_, ?_, List.nodup_nil, ?_, List.Pairwise.nil, ?_⟩
  · intro r x hash found
    cases found
  · intro r x r' x' hash found
    cases found
  · intro u row
    cases row
  · intro r x user found
    cases found

/-- A settled hash is never written again. -/
theorem Settled.step {hash : Str} (settled : Settled s hash) {a : Action Token}
    (stepped : Sessions.step lib normalizeEmail s a = some s') :
    Settled s' hash ∧ ∀ u ∈ s'.users, u.passwordHash = hash → u ∈ s.users := by
  cases step_does stepped with
  | @start i call free =>
    refine ⟨⟨settled.drawn, fun j y found => ?_⟩, fun u row _ => row⟩
    rcases Steps.update_eq_some found with ⟨-, ⟨⟩⟩ | ⟨-, old⟩
    · rw [(begin_idle call).1]
      nofun
    · exact settled.idle j y old
  | tick elapsed => exact ⟨⟨settled.drawn, settled.idle⟩, fun u row _ => row⟩
  | @move a i x users hashes pc here unfinished moves =>
    refine ⟨⟨?_, fun j y found => ?_⟩, fun u row same => ?_⟩
    · rcases moves.hashes_after with ⟨same, -⟩ | ⟨hash, -, same, -⟩
      · exact same ▸ settled.drawn
      · change _ ∈ hashes
        rw [same]
        exact List.mem_cons_of_mem _ settled.drawn
    · rcases Steps.update_eq_some found with ⟨rfl, ⟨⟩⟩ | ⟨-, old⟩
      · rcases moves.hashes_after with ⟨-, none_ | same⟩ | ⟨new, fresh, -, mine, -⟩
        · simp [none_]
        · exact same ▸ settled.idle j x here
        · rw [mine]
          rintro ⟨⟩
          exact fresh (List.mem_map_of_mem settled.drawn)
      · exact settled.idle j y old
    · rcases moves.rows row with old | mine
      · exact old
      · exact absurd (same ▸ mine) (settled.idle i x here)

/-- What has a settled hash at the end of a run had it at every point of the run. -/
theorem Settled.run {hash : Str} (settled : Settled s hash) {actions : List (Action Token)}
    (ran : Steps.run (Sessions.step lib normalizeEmail) s actions = some s') :
    Settled s' hash ∧ ∀ u ∈ s'.users, u.passwordHash = hash → u ∈ s.users := by
  induction actions generalizing s with
  | nil => exact Option.some.inj ran ▸ ⟨settled, fun u row _ => row⟩
  | cons a rest ih =>
    obtain ⟨middle, first, later⟩ := Steps.run_cons ran
    obtain ⟨settled', back⟩ := settled.step first
    obtain ⟨settled'', back'⟩ := ih settled' later
    exact ⟨settled'', fun u row same => back u (back' u row same) same⟩

end Tracium.Sessions
