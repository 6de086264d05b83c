import Tracium.Accounts.Linear
import Tracium.Sessions.Hashes

/-! What an accepted session token proves: it was handed out less than a day before to a
request entitled to the account, and the account has kept its password since. -/
namespace Tracium.Sessions

open Go Accounts

variable {Token : Type} (lib : Library Token) (normalizeEmail : String → String)

/-- What else the service relies on: a token verifies to the claims it was signed with,
before they expire and not after, and a stamp is not empty. -/
structure Lawful : Prop where
  expires : ∀ claims claims' token now, lib.sign claims = some token → lib.verify token now = some claims' →
    claims' = claims ∧ now < claims.exp * second
  stamped : ∀ hash, lib.passwordStamp hash ≠ ""

/-- A token that verifies was handed out: nobody else has the signing secret. -/
def Genuine (s : State Token) : Action Token → Prop
  | .start _ (.authenticate token) => ∀ now claims, lib.verify token now = some claims →
      ∃ r x issuedAt, s.requests r = some x ∧ x.pc = .done (.session token issuedAt)
  | _ => True

/-- The account a request goes on with: the row it read, or the one it wrote. -/
def Pc.account : Pc Token → Option User
  | .loginCheck user _ | .registered user | .gate user | .sign user => some user
  | _ => none

/-- The request has come by the account's row. -/
def State.holds (s : State Token) (r : Nat) (user : User) : Prop :=
  ∃ x, s.requests r = some x ∧ x.pc.account = some user

/-- The account as it was stored in one of the states seen. -/
def Backed (seen : State Token → Prop) (user : User) : Prop := ∃ a, seen a ∧ user ∈ a.users

/-- What entitles a request to a session of the account: it created it, or it presented a
password the stored hash accepts, or the embedding application vouches for the user. -/
def Entitled (seen : State Token → Prop) : Call Token → User → Prop
  | .register email password, user =>
    user.email = normalizeEmail email ∧ ∃ salt, hashPassword lib salt password = .ok user.passwordHash
  | .login email password, user =>
    user.email = normalizeEmail email ∧ checkPassword lib user.passwordHash password = true
  | .issue userID, user => user.id = userID
  | .changePassword userID currentPassword newPassword, user =>
    user.id = userID ∧
      (∃ held, Backed seen { user with passwordHash := held } ∧ checkPassword lib held currentPassword = true) ∧
      ∃ salt, hashPassword lib salt newPassword = .ok user.passwordHash
  | _, _ => False

/-- The request came by the account's row no later than the given time. -/
def Held (seen : State Token → Prop) (r : Nat) (user : User) (by_ : Int) : Prop :=
  ∃ a, seen a ∧ a.holds r user ∧ a.now ≤ by_

/-- The token was signed for the account as a request entitled to it came by it, and handed to
that request. -/
def Signed (seen : State Token → Prop) (token : Token) (user : User) (issuedAt : Int) : Prop :=
  lib.sign (claimsFor lib user issuedAt) = some token ∧
    ∃ i r x, seen i ∧ i.requests r = some x ∧ x.pc = .done (.session token issuedAt) ∧
      Held seen r user issuedAt ∧ Entitled lib normalizeEmail seen x.call user

/-- What a request knows at each of its pieces. -/
def Request.Sound (seen : State Token → Prop) (r : Nat) (x : Request Token) : Prop :=
  match x.pc with
  | .registerHash .. | .loginFind .. | .issueFind .. | .changeFind .. => x.pc = x.call.begin_
  | .registerCreate user | .changeUpdate user => Entitled lib normalizeEmail seen x.call user
  | .registered user | .gate user | .sign user => Entitled lib normalizeEmail seen x.call user
  | .loginCheck user password =>
    ∃ email, x.call = .login email password ∧ user.email = normalizeEmail email
  | .changeCheck user currentPassword newPassword =>
    Backed seen user ∧ x.call = .changePassword user.id currentPassword newPassword
  | .authParse token => x.call = .authenticate token ∧ ∀ now claims, lib.verify token now = some claims →
    ∃ user issuedAt, Signed lib normalizeEmail seen token user issuedAt
  | .authFind claims checkedAt => ∃ token c, x.call = .authenticate token ∧
    lib.verify token checkedAt = some c ∧ claims = ⟨c.sub.getD "", c.pwd.getD ""⟩ ∧
    ∃ user issuedAt, Signed lib normalizeEmail seen token user issuedAt
  | .done (.session token issuedAt) => ∃ user, lib.sign (claimsFor lib user issuedAt) = some token ∧
    Held seen r user issuedAt ∧ Entitled lib normalizeEmail seen x.call user
  | .resetFind .. | .resetHash .. | .resetUpdate _ | .done _ => True

structure History (seen : State Token → Prop) (s : State Token) : Prop where
  inv : Invariant lib s
  clock : ∀ a, seen a → a.now ≤ s.now
  requests : ∀ r x, s.requests r = some x → x.Sound lib normalizeEmail seen r

variable {lib normalizeEmail} {seen seen' : State Token → Prop} {s s' : State Token} {r : Nat}
  {x : Request Token}

theorem Backed.mono (more : ∀ a, seen a → seen' a) {user : User} (backed : Backed seen user) :
    Backed seen' user := by
  obtain ⟨a, was, row⟩ := backed
  exact ⟨a, more a was, row⟩

theorem Entitled.mono (more : ∀ a, seen a → seen' a) {call : Call Token} {user : User}
    (entitled : Entitled lib normalizeEmail seen call user) : Entitled lib normalizeEmail seen' call user := by
  cases call with
  | changePassword =>
    obtain ⟨named, ⟨held, backed, right⟩, hashed⟩ := entitled
    exact ⟨named, ⟨held, backed.mono more, right⟩, hashed⟩
  | _ => exact entitled

theorem Held.mono (more : ∀ a, seen a → seen' a) {user : User} {by_ : Int} (held : Held seen r user by_) :
    Held seen' r user by_ := by
  obtain ⟨a, was, holds, before⟩ := held
  exact ⟨a, more a was, holds, before⟩

theorem Signed.mono (more : ∀ a, seen a → seen' a) {token : Token} {user : User} {issuedAt : Int}
    (signed : Signed lib normalizeEmail seen token user issuedAt) :
    Signed lib normalizeEmail seen' token user issuedAt := by
  obtain ⟨same, i, r, x, then_, found, done, held, entitled⟩ := signed
  exact ⟨same, i, r, x, more i then_, found, done, held.mono more, entitled.mono more⟩

theorem Request.Sound.mono (more : ∀ a, seen a → seen' a) (sound : x.Sound lib normalizeEmail seen r) :
    x.Sound lib normalizeEmail seen' r := by
  obtain ⟨call, pc⟩ := x
  cases pc with
  | registerHash | loginFind | loginCheck | issueFind | changeFind | resetFind | resetHash | resetUpdate =>
    exact sound
  | registerCreate | changeUpdate => exact Entitled.mono more sound
  | registered | gate | sign => exact Entitled.mono more sound
  | changeCheck => exact ⟨sound.1.mono more, sound.2⟩
  | authParse =>
    refine ⟨sound.1, fun now claims verified => ?_⟩
    obtain ⟨user, issuedAt, signed⟩ := sound.2 now claims verified
    exact ⟨user, issuedAt, signed.mono more⟩
  | authFind =>
    obtain ⟨token, c, call, verified, same, user, issuedAt, signed⟩ := sound
    exact ⟨token, c, call, verified, same, user, issuedAt, signed.mono more⟩
  | done outcome =>
    cases outcome with
    | session =>
      obtain ⟨user, same, held, entitled⟩ := sound
      exact ⟨user, same, held.mono more, entitled.mono more⟩
    | _ => trivial

theorem begin_injective : Function.Injective (Call.begin_ : Call Token → Pc Token) := by
  intro call call' same
  cases call <;> cases call' <;> cases same <;> rfl

/-- The next piece of a request, from what it knows at this one. -/
theorem Request.Sound.move (history : History lib normalizeEmail seen s) (here : s.requests r = some x)
    (current : seen s) {users : List User} {hashes : List Str} {pc : Pc Token}
    (moves : Moves lib normalizeEmail s x users hashes pc) (more : ∀ a, seen a → seen' a) :
    Request.Sound lib normalizeEmail seen' r { x with pc := pc } := by
  have sound := (history.requests r x here).mono more
  have now : seen' s := more s current
  unfold Request.Sound at sound
  cases moves with
  | fail | confirm | reset | resetDraw | authenticate => trivial
  | @login email password user at_ row named =>
    rw [at_] at sound
    exact ⟨email, (begin_injective (show Call.begin_ (.login email password) = _ from sound)).symm, named⟩
  | accept at_ right =>
    rw [at_] at sound
    obtain ⟨email, call, named⟩ := sound
    unfold Request.Sound
    dsimp only
    rw [call]
    exact ⟨named, right⟩
  | @find user at_ row =>
    rw [at_] at sound
    unfold Request.Sound
    dsimp only
    rw [← begin_injective (show Call.begin_ (.issue user.id) = _ from sound)]
    rfl
  | @change user currentPassword newPassword at_ row =>
    rw [at_] at sound
    exact ⟨⟨s, now, row⟩,
      (begin_injective (show Call.begin_ (.changePassword user.id currentPassword newPassword) = _ from sound)).symm⟩
  | @sign user _ at_ signed =>
    rw [at_] at sound
    exact ⟨user, signed, ⟨s, now, ⟨x, here, by rw [at_]; rfl⟩, Int.le_refl _⟩, sound⟩
  | parse at_ verified =>
    rw [at_] at sound
    exact ⟨_, _, sound.1, verified, rfl, sound.2 _ _ verified⟩
  | @registerDraw email password hash salt at_ hashed =>
    rw [at_] at sound
    unfold Request.Sound
    dsimp only
    rw [← begin_injective (show Call.begin_ (.register email password) = _ from sound)]
    exact ⟨rfl, salt, hashed⟩
  | @changeDraw user currentPassword newPassword hash salt at_ right hashed =>
    rw [at_] at sound
    obtain ⟨backed, call⟩ := sound
    unfold Request.Sound
    dsimp only
    rw [call]
    exact ⟨rfl, ⟨user.passwordHash, backed, right⟩, salt, hashed⟩
  | create at_ new next =>
    rw [at_] at sound
    rcases next with rfl | rfl
    · exact sound
    · trivial
  | update at_ next =>
    rcases next with ⟨at_, rfl⟩ | rfl | rfl
    · rw [at_] at sound
      exact sound
    all_goals trivial
  | release at_ =>
    rcases at_ with at_ | at_ <;> rw [at_] at sound <;> exact sound

/-- An account a request comes by is one the table has then. -/
theorem Moves.sees (inv : Invariant lib s) (here : s.requests r = some x) {users : List User}
    {hashes : List Str} {pc : Pc Token} (moves : Moves lib normalizeEmail s x users hashes pc) {user : User}
    (account : pc.account = some user) : x.pc.account = some user ∨ user ∈ users := by
  cases moves with
  | login at_ row | find at_ row =>
    cases account
    exact .inr row
  | accept at_ =>
    cases account
    exact .inl (by rw [at_]; rfl)
  | create at_ new next =>
    rcases next with rfl | rfl
    · cases account
      exact .inr (List.mem_append_right _ List.mem_cons_self)
    · cases account
  | update at_ next =>
    rcases next with ⟨at_, rfl⟩ | rfl | rfl
    · cases account
      -- the row of the account has the hash it was to get
      obtain ⟨u, row, same⟩ := inv.stands r x user here (by rw [at_]; rfl)
      have id := congrArg User.id same
      dsimp only at id
      refine .inr (List.mem_map.mpr ⟨u, row, ?_⟩)
      rw [if_pos id, same]
    all_goals cases account
  | release at_ =>
    cases account
    rcases at_ with at_ | at_ <;> exact .inl (by rw [at_]; rfl)
  | _ => cases account

theorem Invariant.sees (inv : Invariant lib s) {a : Action Token} {user : User}
    (stepped : Sessions.step lib normalizeEmail s a = some s') (not_yet : ¬ s.holds r user)
    (holds : s'.holds r user) : user ∈ s'.users := by
  obtain ⟨y, found, account⟩ := holds
  cases step_does stepped with
  | start call free =>
    rcases Steps.update_eq_some found with ⟨rfl, ⟨⟩⟩ | ⟨-, old⟩
    · cases call <;> cases account
    · exact absurd ⟨y, old, account⟩ not_yet
  | tick elapsed => exact absurd ⟨y, found, account⟩ not_yet
  | @move _ i x users hashes pc here unfinished moves =>
    rcases Steps.update_eq_some found with ⟨rfl, ⟨⟩⟩ | ⟨-, old⟩
    · exact (moves.sees inv here account).resolve_left fun already => not_yet ⟨x, here, already⟩
    · exact absurd ⟨y, old, account⟩ not_yet

/-- A token handed out was signed for an account its request was entitled to. -/
theorem History.signed (history : History lib normalizeEmail seen s) (current : seen s)
    (here : s.requests r = some x) {token : Token} {issuedAt : Int} (done : x.pc = .done (.session token issuedAt)) :
    ∃ user, Signed lib normalizeEmail seen token user issuedAt := by
  have sound := history.requests r x here
  unfold Request.Sound at sound
  rw [done] at sound
  obtain ⟨user, same, held, entitled⟩ := sound
  exact ⟨user, same, s, r, x, current, here, done, held, entitled⟩

theorem History.step (history : History lib normalizeEmail seen s) (current : seen s) {a : Action Token}
    (genuine : Genuine lib s a) (stepped : Sessions.step lib normalizeEmail s a = some s') :
    History lib normalizeEmail (fun m => seen m ∨ m = s') s' := by
  have more : ∀ m, seen m → seen m ∨ m = s' := fun m => .inl
  have inv := history.inv.step stepped
  cases step_does stepped with
  | start call free =>
    refine ⟨inv, ?_, fun i y found => ?_⟩
    · rintro m (old | rfl)
      exacts [history.clock m old, Int.le_refl _]
    · rcases Steps.update_eq_some found with ⟨-, ⟨⟩⟩ | ⟨-, old⟩
      · cases call with
        | authenticate token =>
          refine ⟨rfl, fun now claims verified => ?_⟩
          obtain ⟨i, z, issuedAt, there, done⟩ := genuine now claims verified
          obtain ⟨user, signed⟩ := history.signed current there done
          exact ⟨user, issuedAt, signed.mono more⟩
        | resetPassword => trivial
        | _ => exact rfl
      · exact (history.requests i y old).mono more
  | tick elapsed =>
    refine ⟨inv, ?_, fun i y found => (history.requests i y found).mono more⟩
    rintro m (old | rfl)
    · have before := history.clock m old
      change m.now ≤ s.now + elapsed
      omega
    · exact Int.le_refl _
  | @move a i x users hashes pc here unfinished moves =>
    refine ⟨inv, ?_, fun j y found => ?_⟩
    · rintro m (old | rfl)
      exacts [history.clock m old, Int.le_refl _]
    · rcases Steps.update_eq_some found with ⟨rfl, ⟨⟩⟩ | ⟨-, old⟩
      · exact Request.Sound.move history here current moves more
      · exact (history.requests j y old).mono more

theorem history_run {now : Int} {actions : List (Action Token)}
    (along : Steps.Along (Sessions.step lib normalizeEmail) (Genuine lib) (newAccounts now) actions)
    (ran : Steps.run (Sessions.step lib normalizeEmail) (newAccounts now) actions = some s) :
    History lib normalizeEmail (Steps.Visited (Sessions.step lib normalizeEmail) (newAccounts now) actions) s := by
  refine Steps.run_history (I := History lib normalizeEmail)
    (fun seen s a s' current history genuine stepped => history.step current genuine stepped) along ran
    ⟨invariant_newAccounts now, ?_, ?_⟩
  · rintro a rfl
    exact Int.le_refl _
  · intro r x found
    cases found

/-- A request that is done stays as it is, and none changes its call. -/
theorem request_kept {a : Action Token} (stepped : Sessions.step lib normalizeEmail s a = some s')
    (here : s.requests r = some x) :
    ∃ x', s'.requests r = some x' ∧ x'.call = x.call ∧ ((∃ outcome, x.pc = .done outcome) → x' = x) := by
  cases step_does stepped with
  | @start i call free =>
    have other : r ≠ i := fun same => by
      rw [same, free] at here
      cases here
    exact ⟨x, (Function.update_of_ne other ..).trans here, rfl, fun _ => rfl⟩
  | tick elapsed => exact ⟨x, here, rfl, fun _ => rfl⟩
  | @move a i y users hashes pc there unfinished moves =>
    by_cases same : r = i
    · subst same
      cases Option.some.inj (there.symm.trans here)
      refine ⟨_, Function.update_self .., rfl, ?_⟩
      rintro ⟨outcome, done⟩
      exact absurd done (unfinished outcome)
    · exact ⟨x, (Function.update_of_ne same ..).trans here, rfl, fun _ => rfl⟩

theorem request_kept_run {actions : List (Action Token)}
    (ran : Steps.run (Sessions.step lib normalizeEmail) s actions = some s') (here : s.requests r = some x) :
    ∃ x', s'.requests r = some x' ∧ x'.call = x.call ∧ ((∃ outcome, x.pc = .done outcome) → x' = x) := by
  induction actions generalizing s x with
  | nil => exact ⟨x, Option.some.inj ran ▸ here, rfl, fun _ => rfl⟩
  | cons a rest ih =>
    obtain ⟨middle, first, later⟩ := Steps.run_cons ran
    obtain ⟨y, there, call, kept⟩ := request_kept first here
    obtain ⟨z, found, call', kept'⟩ := ih later there
    refine ⟨z, found, call'.trans call, fun done => ?_⟩
    obtain rfl := kept done
    exact kept' done

/-- A request that is let in finds a row that its claims name and whose stamp they carry. -/
theorem Moves.accepted {users : List User} {hashes : List Str} {p : Principal} {checkedAt : Int}
    (moves : Moves lib normalizeEmail s x users hashes (.done (.principal p checkedAt))) :
    ∃ claims user, x.pc = .authFind claims checkedAt ∧ user ∈ s.users ∧ user.id = claims.userID ∧
      (claims.passwordStamp = "" ∨ claims.passwordStamp = lib.passwordStamp user.passwordHash) ∧
      p = ⟨user.id, user.tenantID, user.role⟩ := by
  cases moves with
  | authenticate at_ row named stamp => exact ⟨_, _, at_, row, named, stamp, rfl⟩
  | create at_ new next => rcases next with next | next <;> cases next
  | update at_ next => rcases next with ⟨-, next⟩ | next | next <;> cases next

/-- The row a token is accepted for is the one it was signed for, which has stood since. -/
theorem same_since (lawful : Lawful lib) {a b : State Token} {middle : List (Action Token)}
    (invA : Invariant lib a) (invB : Invariant lib b)
    (ran : Steps.run (Sessions.step lib normalizeEmail) a middle = some b) {user row : User}
    {issuedAt checkedAt : Int} {token : Token} {c : Claims} (was : user ∈ a.users) (is : row ∈ b.users)
    (signed : lib.sign (claimsFor lib user issuedAt) = some token)
    (verified : lib.verify token checkedAt = some c) (named : row.id = c.sub.getD "")
    (stamp : c.pwd.getD "" = "" ∨ c.pwd.getD "" = lib.passwordStamp row.passwordHash) :
    row = user ∧ checkedAt < issuedAt + tokenTTL ∧
      ∀ mid, Steps.Visited (Sessions.step lib normalizeEmail) a middle mid → user ∈ mid.users := by
  obtain ⟨rfl, inTime⟩ := lawful.expires _ _ _ _ signed verified
  have settled := invA.settled user was
  have hash : row.passwordHash = user.passwordHash := by
    rcases stamp with empty | same
    · exact absurd empty (lawful.stamped _)
    · exact invB.same_hash (invB.settled row is).drawn (settled.run ran).1.drawn same.symm
  have rowWas : row ∈ a.users := (settled.run ran).2 row is hash
  obtain rfl := invA.same_row rowWas was named
  refine ⟨rfl, ?_, fun mid visited => ?_⟩
  · simp only [claimsFor, unix, second] at inTime
    simp only [tokenTTL, second] at *
    omega
  · obtain ⟨early, late, -, reached, on⟩ := Steps.visited_split visited ran
    exact ((settled.run reached).1.run on).2 row is rfl

section Stretch

variable (lib normalizeEmail) (start : State Token)

/-- The steps end with the one in which the request comes by the account's row, and lead to `a`. -/
def ComesBy (steps : List (Action Token)) (r : Nat) (user : User) (a : State Token) : Prop :=
  ∃ early act before, steps = early ++ [act] ∧
    Steps.run (Sessions.step lib normalizeEmail) start early = some before ∧ ¬ before.holds r user ∧
    Sessions.step lib normalizeEmail before act = some a ∧ a.holds r user

/-- The steps begin with the one, from `b`, that leaves the request as `x`. -/
def EndsAs (b : State Token) (steps : List (Action Token)) (r : Nat) (x : Request Token) : Prop :=
  ∃ act rest after, steps = act :: rest ∧ b.requests r ≠ some x ∧
    Sessions.step lib normalizeEmail b act = some after ∧ after.requests r = some x

end Stretch

theorem ComesBy.run {start a : State Token} {steps : List (Action Token)} {user : User}
    (comes : ComesBy lib normalizeEmail start steps r user a) :
    Steps.run (Sessions.step lib normalizeEmail) start steps = some a := by
  obtain ⟨early, act, before, rfl, reached, -, stepped, -⟩ := comes
  rw [Steps.run_append, reached, Option.bind_some, Steps.run, stepped]
  rfl

/-- A request that has the row came by it at some step. -/
theorem comesBy_of_holds {now : Int} {steps : List (Action Token)} {user : User}
    (ran : Steps.run (Sessions.step lib normalizeEmail) (newAccounts now) steps = some s) (holds : s.holds r user) :
    ∃ before middle a, steps = before ++ middle ∧ ComesBy lib normalizeEmail (newAccounts now) before r user a ∧
      Steps.run (Sessions.step lib normalizeEmail) a middle = some s := by
  obtain ⟨early, act, middle, mid, a, rfl, reached, not_yet, stepped, now_, rest⟩ :=
    Steps.run_turns (P := fun m => State.holds m r user) ran (by rintro ⟨y, none_, -⟩; cases none_) holds
  exact ⟨early ++ [act], middle, a, (List.append_assoc early [act] middle).symm,
    ⟨early, act, mid, rfl, reached, not_yet, stepped, now_⟩, rest⟩

theorem ComesBy.row {now : Int} {steps : List (Action Token)} {user : User} {a : State Token}
    (comes : ComesBy lib normalizeEmail (newAccounts now) steps r user a)
    (along : Steps.Along (Sessions.step lib normalizeEmail) (Genuine lib) (newAccounts now) steps) :
    user ∈ a.users := by
  obtain ⟨early, act, before, rfl, reached, not_yet, stepped, holds⟩ := comes
  exact (history_run (Steps.along_front along) reached).inv.sees stepped not_yet holds

/-- Whoever is let in has a token that was handed out less than a day before it was checked,
to a request entitled to the account; and from the step in which that request came by the row
of the account to the step that let the bearer in, the account has not changed, its password
included. -/
theorem session_unbroken (lawful : Lawful lib) {now : Int} {actions : List (Action Token)}
    (along : Steps.Along (Sessions.step lib normalizeEmail) (Genuine lib) (newAccounts now) actions)
    (ran : Steps.run (Sessions.step lib normalizeEmail) (newAccounts now) actions = some s)
    (here : s.requests r = some x) {p : Principal} {checkedAt : Int}
    (accepted : x.pc = .done (.principal p checkedAt)) :
    ∃ token user issuedAt i issuer before middle after a b, x.call = .authenticate token ∧
      p = ⟨user.id, user.tenantID, user.role⟩ ∧ checkedAt < issuedAt + tokenTTL ∧
      s.requests i = some issuer ∧ issuer.pc = .done (.session token issuedAt) ∧
      Entitled lib normalizeEmail
        (Steps.Visited (Sessions.step lib normalizeEmail) (newAccounts now) actions) issuer.call user ∧
      actions = before ++ middle ++ after ∧
      ComesBy lib normalizeEmail (newAccounts now) before i user a ∧ a.now ≤ issuedAt ∧
      Steps.run (Sessions.step lib normalizeEmail) a middle = some b ∧
      EndsAs lib normalizeEmail b after r x ∧
      ∀ mid, Steps.Visited (Sessions.step lib normalizeEmail) a middle mid → user ∈ mid.users := by
  -- the step that let the request in, from `b`
  obtain ⟨front, act, back, b, b', rfl, reached, waiting, stepped, let_in, rest⟩ :=
    Steps.run_turns (P := fun m => m.requests r = some x) ran (by rintro ⟨⟩) here
  have onward : Steps.run (Sessions.step lib normalizeEmail) b (act :: back) = some s := by
    rw [Steps.run, stepped]
    exact rest
  have alongFront := Steps.along_front along
  have history := history_run alongFront reached
  cases step_does stepped with
  | start call free =>
    rcases Steps.update_eq_some let_in with ⟨rfl, ⟨⟩⟩ | ⟨-, old⟩
    · cases call <;> cases accepted
    · exact absurd old waiting
  | tick elapsed => exact absurd let_in waiting
  | @move _ j y users hashes pc there unfinished moves =>
    rcases Steps.update_eq_some let_in with ⟨rfl, ⟨⟩⟩ | ⟨-, old⟩
    · obtain rfl : pc = .done (.principal p checkedAt) := accepted
      obtain ⟨claims, row, at_, is, named, stamp, rfl⟩ := moves.accepted
      have sound := history.requests r y there
      unfold Request.Sound at sound
      rw [at_] at sound
      obtain ⟨token, c, call, verified, rfl, user, issuedAt, signed, i, q, z, seen', issuer, session,
        ⟨held, seen, holds, begun⟩, entitled⟩ := sound
      obtain ⟨first, second, rfl, toHeld, fromHeld⟩ := Steps.visited_split seen reached
      obtain ⟨before, middle, a, rfl, comes, toHeld'⟩ := comesBy_of_holds toHeld holds
      have toB : Steps.run (Sessions.step lib normalizeEmail) a (middle ++ second) = some b := by
        rw [Steps.run_append, toHeld']
        exact fromHeld
      have alongHeld := Steps.along_front alongFront
      have alongBefore := Steps.along_front alongHeld
      have earlier : a.now ≤ held.now := (history_run alongHeld toHeld).clock a ⟨before, middle, rfl, comes.run⟩
      obtain ⟨rfl, inTime, stood⟩ := same_since lawful (history_run alongBefore comes.run).inv history.inv toB
        (comes.row alongBefore) is signed verified named stamp
      -- the token's request is still as it was when it answered
      obtain ⟨-, later, -, -, toEnd⟩ := Steps.visited_split seen' reached
      obtain ⟨z', issuer', -, kept⟩ := request_kept_run toEnd issuer
      obtain rfl := kept ⟨_, session⟩
      obtain ⟨z'', issuer'', -, kept'⟩ := request_kept_run onward issuer'
      obtain rfl := kept' ⟨_, session⟩
      exact ⟨token, row, issuedAt, q, z'', before, middle ++ second, act :: back, a, b, call, rfl, inTime,
        issuer'', session, entitled.mono fun m visited => Steps.visited_more visited _,
        congrArg (· ++ act :: back) (List.append_assoc before middle second), comes, Int.le_trans earlier begun, toB,
        ⟨act, back, _, rfl, waiting, stepped, let_in⟩, stood⟩
    · exact absurd old waiting

/-! A registration, and a request with the token it answered. -/

/-- Hashes and tokens in clear. -/
def plainLibrary : Library Claims :=
  { clear with passwordStamp := fun hash => String.ofList ('s' :: hash.map fun b => .ofNat b.toNat) }

theorem plainLibrary_lawful : Lawful plainLibrary where
  expires := by
    rintro claims claims' token now ⟨⟩ verified
    simp only [plainLibrary, clear] at verified
    split at verified
    next unexpired => exact ⟨(Option.some.inj verified).symm, unexpired⟩
    next => cases verified
  stamped := by
    intro hash empty
    simp [plainLibrary] at empty

/-- The sessions the first two requests answered. -/
def handedOut (s : State Claims) : Action Claims → Bool
  | .start _ (.authenticate token) => (List.range 2).any fun r => ((s.requests r).map Request.pc).any fun pc =>
    match pc with
    | .done (.session token' _) => decide (token' = token)
    | _ => false
  | _ => true

theorem genuine_handedOut (s : State Claims) (a : Action Claims) (handed : handedOut s a = true) :
    Genuine plainLibrary s a := by
  cases a with
  | start i call =>
    cases call with
    | authenticate token =>
      intro now claims _
      obtain ⟨r, -, there⟩ := List.any_eq_true.mp handed
      obtain ⟨pc, found, same⟩ := Option.any_eq_true _ _ |>.mp there
      obtain ⟨x, here, rfl⟩ := Option.map_eq_some_iff.mp found
      split at same
      next token' issuedAt done =>
        cases of_decide_eq_true same
        exact ⟨r, x, issuedAt, here, done⟩
      next => cases same
    | _ => trivial
  | _ => trivial

def adaToken : Claims :=
  ⟨some "u1", some "t1", some "admin", some (plainLibrary.passwordStamp (1 :: lit "first-secret")), 0, 86400⟩

def registerAndEnter : List (Action Claims) :=
  [.start 0 (.register "Ada@example.com" (lit "first-secret")), .draw 0 1 "u1" "t1", .write 0 .ok,
    .lifecycle 0 .proceed, .advance 0, .tick 5, .start 1 (.authenticate adaToken), .advance 1, .advance 1]

theorem session_unbroken_registerAndEnter : ∃ s x user issuedAt,
    Steps.run (step plainLibrary String.toLower) (newAccounts 0) registerAndEnter = some s ∧
      s.requests 1 = some x ∧ x.pc = .done (.principal ⟨"u1", "t1", "admin"⟩ 5) ∧
      (⟨"u1", "t1", "admin"⟩ : Principal) = ⟨user.id, user.tenantID, user.role⟩ ∧
      5 < issuedAt + tokenTTL ∧ ∃ a middle b,
        Steps.run (step plainLibrary String.toLower) a middle = some b ∧ user ∈ a.users ∧ user ∈ b.users := by
  have finished : ((Steps.run (step plainLibrary String.toLower) (newAccounts 0) registerAndEnter).bind
      fun s => (s.requests 1).map Request.pc) = some (.done (.principal ⟨"u1", "t1", "admin"⟩ 5)) := by
    rfl
  obtain ⟨s, ran, asked⟩ := Option.bind_eq_some_iff.mp finished
  obtain ⟨x, here, accepted⟩ := Option.map_eq_some_iff.mp asked
  have along : Steps.Along (step plainLibrary String.toLower) (fun s a => handedOut s a = true) (newAccounts 0)
      registerAndEnter := by decide +kernel
  obtain ⟨token, user, issuedAt, i, issuer, before, middle, after, a, b, -, same, inTime, -, -, -, -, -, -, on, -,
      stood⟩ :=
    session_unbroken plainLibrary_lawful (along.mono genuine_handedOut) ran here accepted
  exact ⟨s, x, user, issuedAt, ran, here, accepted, same, inTime, a, middle, b, on,
    stood a (Steps.visited_start a middle), stood b ⟨middle, [], (List.append_nil _).symm, on⟩⟩

end Tracium.Sessions
