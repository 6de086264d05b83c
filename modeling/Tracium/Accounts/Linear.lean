import Mathlib.Data.List.Chain
import Tracium.Accounts.Service

/-! The password changes of an account in the order their writes took effect. -/
namespace Tracium.Accounts

open Go Steps

variable {Token : Type} (lib : Library Token)

/-- The stored hash is still the one the write's call read. -/
def Pc.current (stored : Str) : Pc Token → Bool
  | .update verified _ => stored == verified
  | _ => true

/-- A write that takes effect finds the hash its call read, and is not reported failed. -/
def Orderly (s : State Token) : Action → Prop
  | .update g reply => reply.applied = true →
      reply = .ok ∧ ∀ call ∈ s.calls g, call.pc.current s.account.passwordHash = true
  | _ => True

instance decidableOrderly (s : State Token) : (a : Action) → Decidable (Orderly s a)
  | .update _ _ => inferInstanceAs (Decidable (_ → _))
  | .tick _ | .changePassword _ _ _ _ | .read _ _ | .check _ _ | .issue _ => isTrue trivial

/-- The account as one of its password changes leaves it. -/
def withHash (account : User) (hash : Str) : User := { account with passwordHash := hash }

/-- A call whose write took effect has the token of that write, or is about to sign it. -/
def Call.Finished (account : User) (after : Str) (call : Call Token) : Prop :=
  call.pc = .issue (withHash account after) ∨ ∃ token issuedAt, call.pc = .succeeded token issuedAt ∧
    lib.sign (claimsFor lib (withHash account after) issuedAt) = some token

/-- The call presented a password the overwritten hash accepts, and nothing reported it failed. -/
structure Update.Sound (s : State Token) (u : Update) : Prop where
  presented : checkPassword lib u.before u.currentPassword = true
  generated : ∃ salt, hashPassword lib salt u.newPassword = .ok u.after
  finished : ∃ call, s.calls u.call = some call ∧ call.currentPassword = u.currentPassword ∧
    call.newPassword = u.newPassword ∧ call.Finished lib s.account u.after

/-- What every run of the calls should satisfy. -/
structure Linearizable (s : State Token) : Prop where
  presented : ∀ g call token issuedAt, s.calls g = some call → call.pc = .succeeded token issuedAt →
    (∃ u ∈ s.log, u.call = g) ∧
      ∀ u ∈ s.log, u.call = g → checkPassword lib u.before call.currentPassword = true
  inForce : s.log.IsChain fun u v => u.after = v.before ∧ v.currentPassword = u.newPassword
  finished : ∀ u ∈ s.log, ∃ call, s.calls u.call = some call ∧
    ((∃ user, call.pc = .issue user) ∨ ∃ token issuedAt, call.pc = .succeeded token issuedAt)
  lockedOut : ∀ (knows : Str → Prop) (party : Nat → Prop) (earlier later : List Update) (u : Update),
    s.log = earlier ++ u :: later → ¬party u.call →
    (∀ v ∈ later, party v.call → knows v.currentPassword) →
    (∀ v ∈ u :: later, ¬party v.call → ¬knows v.newPassword) → ∀ v ∈ later, ¬party v.call
  accepted : ∀ u ∈ s.log.getLast?, ∀ call token issuedAt, s.calls u.call = some call →
    call.pc = .succeeded token issuedAt → ∀ now, now < unix (issuedAt + tokenTTL) * second →
    authenticate lib s.account token now =
      .ok ⟨s.account.id, s.account.tenantID, s.account.role⟩

/-- What a call holds of the account it read. -/
def Call.Sound (s : State Token) (g : Nat) (call : Call Token) : Prop :=
  match call.pc with
  | .read | .failed _ => True
  | .check user => user = withHash s.account user.passwordHash
  | .update read user => user = withHash s.account user.passwordHash ∧
      checkPassword lib read call.currentPassword = true ∧
      ∃ salt, hashPassword lib salt call.newPassword = .ok user.passwordHash
  | .issue _ | .succeeded _ _ => ∃ u ∈ s.log, u.call = g

structure Ordered (s : State Token) : Prop where
  named : s.account.id ≠ ""
  calls : ∀ g call, s.calls g = some call → call.Sound lib s g
  log : ∀ u ∈ s.log, u.Sound lib s
  linked : s.log.IsChain fun u v => u.after = v.before
  stored : ∀ u ∈ s.log.getLast?, s.account.passwordHash = u.after

/-- What a step does, one constructor for each way it can go. -/
inductive Effect (s : State Token) : Action → State Token → Prop
  | tick (elapsed : Nat) : Effect s (.tick elapsed) { s with now := s.now + elapsed }
  | called (g : Nat) (call : Call Token) (fresh : s.calls g = none) :
      Effect s (.changePassword g call.userID call.currentPassword call.newPassword)
        (s.goto g call .read)
  | found (g : Nat) (call : Call Token) (here : s.calls g = some call) (pc : call.pc = .read) :
      Effect s (.read g true) (s.goto g call (.check s.account))
  | checked (g salt : Nat) (call : Call Token) (user changed : User)
      (here : s.calls g = some call) (pc : call.pc = .check user)
      (passed : checkChange lib user call.currentPassword call.newPassword salt = .ok changed) :
      Effect s (.check g salt) (s.goto g call (.update user.passwordHash changed))
  | failed (a : Action) (g : Nat) (call : Call Token) (err : Error) (here : s.calls g = some call)
      (early : call.pc = .read ∨ (∃ user, call.pc = .check user) ∨
        ∃ read user, call.pc = .update read user) :
      Effect s a (s.goto g call (.failed err))
  | written (g : Nat) (call : Call Token) (reply : Reply) (read : Str) (user : User)
      (here : s.calls g = some call) (pc : call.pc = .update read user)
      (applied : reply.applied = true) :
      Effect s (.update g reply) ((s.updatePasswordHash g call user.id user.passwordHash).goto g call
        (if reply = .ok then .issue user else .failed .database))
  | issued (g : Nat) (call : Call Token) (user : User) (token : Token)
      (here : s.calls g = some call) (pc : call.pc = .issue user)
      (signed : lib.sign (claimsFor lib user s.now) = some token) :
      Effect s (.issue g) (s.goto g call (.succeeded token s.now))

variable {lib} {s s' : State Token} {a : Action} {g : Nat} {call : Call Token}

theorem read_effect {reachable : Bool} (here : s.calls g = some call)
    (stepped : s.read g call reachable = some s') : Effect lib s (.read g reachable) s' := by
  unfold State.read at stepped
  split at stepped
  next pc =>
    split at stepped
    next err _ =>
      obtain rfl := Option.some.inj stepped
      exact .failed _ g call err here (.inl pc)
    next user result =>
      obtain rfl := Option.some.inj stepped
      cases reachable with
      | false => cases result
      | true =>
        simp only [if_true, byID] at result
        split at result
        · cases result
          exact .found g call here pc
        · cases result
  next => cases stepped

theorem check_effect {salt : Nat} (here : s.calls g = some call)
    (stepped : s.check lib g call salt = some s') : Effect lib s (.check g salt) s' := by
  unfold State.check at stepped
  split at stepped
  next user pc =>
    split at stepped
    next err _ =>
      obtain rfl := Option.some.inj stepped
      exact .failed _ g call err here (.inr (.inl ⟨user, pc⟩))
    next changed passed =>
      obtain rfl := Option.some.inj stepped
      exact .checked g salt call user changed here pc passed
  next => cases stepped

theorem update_effect {reply : Reply} (here : s.calls g = some call)
    (stepped : s.update g call reply = some s') : Effect lib s (.update g reply) s' := by
  unfold State.update at stepped
  split at stepped
  next read user pc =>
    obtain rfl := Option.some.inj stepped
    cases applied : reply.applied with
    | true => exact .written g call reply read user here pc applied
    | false =>
      have lost : reply ≠ .ok := by
        rintro rfl
        cases applied
      rw [if_neg lost]
      exact .failed _ g call .database here (.inr (.inr ⟨read, user, pc⟩))
  next => cases stepped

theorem issue_effect (here : s.calls g = some call)
    (stepped : s.issue lib g call = some s') : Effect lib s (.issue g) s' := by
  unfold State.issue at stepped
  split at stepped
  next user pc =>
    obtain ⟨token, signed⟩ := lib.signs (claimsFor lib user s.now)
    simp only [issue, signed] at stepped
    obtain rfl := Option.some.inj stepped
    exact .issued g call user token here pc signed
  next => cases stepped

theorem step_effect (stepped : step lib s a = some s') : Effect lib s a s' := by
  cases a with
  | tick elapsed =>
    obtain rfl := Option.some.inj stepped
    exact .tick elapsed
  | changePassword g userID currentPassword newPassword =>
    simp only [step] at stepped
    split at stepped
    next fresh =>
      obtain rfl := Option.some.inj stepped
      exact .called g ⟨userID, currentPassword, newPassword, .read⟩ fresh
    next => cases stepped
  | read g reachable =>
    obtain ⟨call, here, stepped⟩ := Option.bind_eq_some_iff.mp stepped
    exact read_effect here stepped
  | check g salt =>
    obtain ⟨call, here, stepped⟩ := Option.bind_eq_some_iff.mp stepped
    exact check_effect here stepped
  | update g reply =>
    obtain ⟨call, here, stepped⟩ := Option.bind_eq_some_iff.mp stepped
    exact update_effect here stepped
  | issue g =>
    obtain ⟨call, here, stepped⟩ := Option.bind_eq_some_iff.mp stepped
    exact issue_effect here stepped

/-- A call that has not written is in no update. -/
theorem Ordered.not_logged (ordered : Ordered lib s) (here : s.calls g = some call)
    (early : call.pc = .read ∨ (∃ user, call.pc = .check user) ∨
      ∃ read user, call.pc = .update read user) : ∀ u ∈ s.log, u.call ≠ g := by
  rintro u member rfl
  obtain ⟨call', found, -, -, finished⟩ := (ordered.log u member).finished
  obtain rfl := Option.some.inj (here.symm.trans found)
  rcases finished with issuing | ⟨token, issuedAt, succeeded, -⟩
  · simp [issuing] at early
  · simp [succeeded] at early

/-- A call that is in no update moves without touching the account. -/
theorem Ordered.goto (ordered : Ordered lib s) {pc : Pc Token}
    (apart : ∀ u ∈ s.log, u.call ≠ g) (sound : Call.Sound lib s g { call with pc := pc }) :
    Ordered lib (s.goto g call pc) where
  named := ordered.named
  calls := by
    intro h other found
    rcases update_eq_some found with ⟨rfl, same⟩ | ⟨-, old⟩
    · obtain rfl := Option.some.inj same
      exact sound
    · exact ordered.calls h other old
  log := by
    intro u member
    obtain ⟨presented, generated, other, found, kept⟩ := ordered.log u member
    refine ⟨presented, generated, other, ?_, kept⟩
    exact (Function.update_of_ne (apart u member) _ _).trans found
  linked := ordered.linked
  stored := ordered.stored

theorem checkChange_ok {user changed : User} {current new : Str} {salt : Nat}
    (passed : checkChange lib user current new salt = .ok changed) :
    checkPassword lib user.passwordHash current = true ∧
      ∃ hash, hashPassword lib salt new = .ok hash ∧ changed = withHash user hash := by
  unfold checkChange at passed
  split at passed
  next => cases passed
  next =>
    split at passed
    next => cases passed
    next matched =>
      cases valid : validateCredentials lib user.email new with
      | error err => simp [valid, bind, Except.bind] at passed
      | ok =>
        cases hashed : hashPassword lib salt new with
        | error err => simp [valid, hashed, bind, Except.bind] at passed
        | ok hash =>
          simp only [valid, hashed, bind, Except.bind, Except.ok.injEq] at passed
          exact ⟨by simpa using matched, hash, rfl, passed.symm⟩

/-- A write that finds the hash its call read extends the order by one. -/
theorem Ordered.written (ordered : Ordered lib s) {user : User} (here : s.calls g = some call)
    (pc : call.pc = .update s.account.passwordHash user) :
    Ordered lib ((s.updatePasswordHash g call user.id user.passwordHash).goto g call
      (.issue user)) := by
  have held := ordered.calls g call here
  simp only [Call.Sound, pc] at held
  obtain ⟨copy, presented, generated⟩ := held
  have apart := ordered.not_logged here (.inr (.inr ⟨_, _, pc⟩))
  have own : s.account.id = user.id := (congrArg User.id copy).symm
  rw [State.updatePasswordHash, if_pos own]
  exact {
    named := ordered.named
    calls := by
      intro h other found
      rcases update_eq_some found with ⟨rfl, same⟩ | ⟨-, old⟩
      · obtain rfl := Option.some.inj same
        exact ⟨_, List.mem_append_right _ (List.mem_singleton_self _), rfl⟩
      · have sound := ordered.calls h other old
        unfold Call.Sound at sound ⊢
        split at sound
        case h_3 => exact sound
        case h_4 => exact sound
        case h_5 | h_6 =>
          obtain ⟨u, member, own⟩ := sound
          exact ⟨u, List.mem_append_left _ member, own⟩
        all_goals trivial
    log := by
      intro u member
      rcases List.mem_append.mp member with old | new
      · obtain ⟨presented, generated, other, found, kept⟩ := ordered.log u old
        refine ⟨presented, generated, other, ?_, kept⟩
        exact (Function.update_of_ne (apart u old) _ _).trans found
      · obtain rfl := List.mem_singleton.mp new
        refine ⟨presented, generated, _, Function.update_self _ _ _, rfl, rfl, .inl ?_⟩
        exact congrArg Pc.issue copy
    linked := by
      apply ordered.linked.append (.singleton _)
      intro u last v head
      obtain rfl := Option.some.inj head
      exact (ordered.stored u last).symm
    stored := by
      intro u last
      obtain rfl := Option.some.inj (List.getLast?_concat.symm.trans last)
      rfl }

theorem Ordered.issued (ordered : Ordered lib s) {user : User} {token : Token}
    (here : s.calls g = some call) (pc : call.pc = .issue user)
    (signed : lib.sign (claimsFor lib user s.now) = some token) :
    Ordered lib (s.goto g call (.succeeded token s.now)) where
  named := ordered.named
  calls := by
    intro h other found
    rcases update_eq_some found with ⟨rfl, same⟩ | ⟨-, old⟩
    · obtain rfl := Option.some.inj same
      have logged := ordered.calls h call here
      simp only [Call.Sound, pc] at logged
      exact logged
    · exact ordered.calls h other old
  log := by
    intro u member
    obtain ⟨presented, generated, other, found, current, new, finished⟩ := ordered.log u member
    by_cases own : u.call = g
    · subst own
      obtain rfl := Option.some.inj (here.symm.trans found)
      refine ⟨presented, generated, _, Function.update_self _ _ _, current, new, .inr ?_⟩
      rcases finished with issuing | ⟨_, _, done, -⟩
      · obtain rfl := Pc.issue.inj (pc.symm.trans issuing)
        exact ⟨token, s.now, rfl, signed⟩
      · cases pc.symm.trans done
    · refine ⟨presented, generated, other, ?_, current, new, finished⟩
      exact (Function.update_of_ne own _ _).trans found
  linked := ordered.linked
  stored := ordered.stored

theorem Ordered.step (ordered : Ordered lib s) (orderly : Orderly s a)
    (stepped : step lib s a = some s') : Ordered lib s' := by
  cases step_effect stepped with
  | tick elapsed => exact ⟨ordered.named, ordered.calls, fun u member =>
      ⟨(ordered.log u member).presented, (ordered.log u member).generated,
        (ordered.log u member).finished⟩, ordered.linked, ordered.stored⟩
  | called g call fresh =>
    have apart : ∀ u ∈ s.log, u.call ≠ g := by
      rintro u member rfl
      obtain ⟨_, found, -⟩ := (ordered.log u member).finished
      cases fresh.symm.trans found
    exact ordered.goto apart trivial
  | found g call here pc =>
    apply ordered.goto (ordered.not_logged here (.inl pc))
    exact rfl
  | checked g salt call user changed here pc passed =>
    have copy := ordered.calls g call here
    simp only [Call.Sound, pc] at copy
    obtain ⟨presented, hash, generated, rfl⟩ := checkChange_ok passed
    have changed : withHash user hash = withHash s.account hash := by
      rw [copy]
      rfl
    apply ordered.goto (ordered.not_logged here (.inr (.inl ⟨user, pc⟩)))
    exact ⟨changed, presented, salt, generated⟩
  | failed a g call err here early =>
    exact ordered.goto (ordered.not_logged here early) trivial
  | written g call reply read user here pc applied =>
    obtain ⟨rfl, current⟩ := orderly applied
    have unchanged : s.account.passwordHash = read := by
      have same := current call here
      simp only [pc, Pc.current, beq_iff_eq] at same
      exact same
    subst unchanged
    rw [if_pos rfl]
    exact ordered.written here pc
  | issued g call user token here pc signed => exact ordered.issued here pc signed

theorem Ordered.start {account : User} (named : account.id ≠ "") (now : Int) :
    Ordered lib (start account now) where
  named := named
  calls := fun _ _ found => nomatch found
  log := fun _ member => nomatch member
  linked := .nil
  stored := fun _ last => nomatch last

/-- Until it expires, a token signed for the stored account is that account. -/
theorem authenticate_signed {account : User} {token : Token} {issuedAt now : Int}
    (named : account.id ≠ "")
    (signed : lib.sign (claimsFor lib account issuedAt) = some token)
    (unexpired : now < unix (issuedAt + tokenTTL) * second) :
    authenticate lib account token now = .ok ⟨account.id, account.tenantID, account.role⟩ := by
  have verified := lib.verify_signed _ token now signed unexpired
  simp [authenticate, parse, verified, claimsFor, named, byID, bind, Except.bind]

theorem Ordered.inForce (ordered : Ordered lib s) (discerns : lib.Discerns) :
    s.log.IsChain fun u v => u.after = v.before ∧ v.currentPassword = u.newPassword := by
  have sound : ∀ u ∈ s.log, ∀ v ∈ s.log, u.after = v.before →
      u.after = v.before ∧ v.currentPassword = u.newPassword := by
    intro u inLog v inLog' same
    obtain ⟨salt, generated⟩ := (ordered.log u inLog).generated
    have presented := (ordered.log v inLog').presented
    refine ⟨same, ?_⟩
    rw [← same] at presented
    unfold hashPassword at generated
    split at generated
    next => cases generated
    next hash made =>
      cases generated
      exact ((discerns salt _ _ _ made).mp presented).symm
  exact ordered.linked.imp_of_mem_imp fun u v inLog inLog' => sound u inLog v inLog'

/-- Passwords a party does not know, each presented to set the next, leave it no turn. -/
theorem lockedOut_of_chain {knows : Str → Prop} {party : Nat → Prop} {u : Update}
    {later : List Update}
    (chain : (u :: later).IsChain fun u v => v.currentPassword = u.newPassword)
    (other : ¬party u.call) (presents : ∀ v ∈ later, party v.call → knows v.currentPassword)
    (unknown : ∀ v ∈ u :: later, ¬party v.call → ¬knows v.newPassword) :
    ∀ v ∈ later, ¬party v.call := by
  induction later generalizing u with
  | nil => exact fun v member => nomatch member
  | cons next rest ih =>
    obtain ⟨presented, chain⟩ := List.isChain_cons_cons.mp chain
    have nextOther : ¬party next.call := by
      intro mine
      have known := presents next List.mem_cons_self mine
      rw [presented] at known
      exact unknown u List.mem_cons_self other known
    intro v member
    rcases List.mem_cons.mp member with rfl | later
    · exact nextOther
    · exact ih chain nextOther (fun v member => presents v (List.mem_cons_of_mem _ member))
        (fun v member => unknown v (List.mem_cons_of_mem _ member)) v later

theorem Ordered.linearizable (ordered : Ordered lib s) (discerns : lib.Discerns) : Linearizable lib s where
  presented := by
    intro g call token issuedAt here pc
    have logged := ordered.calls g call here
    simp only [Call.Sound, pc] at logged
    refine ⟨logged, ?_⟩
    rintro u member rfl
    obtain ⟨presented, -, other, found, current, -⟩ := ordered.log u member
    obtain rfl := Option.some.inj (here.symm.trans found)
    rw [current]
    exact presented
  inForce := ordered.inForce discerns
  finished := by
    intro u member
    obtain ⟨call, found, -, -, issuing | ⟨token, issuedAt, succeeded, -⟩⟩ :=
      (ordered.log u member).finished
    exacts [⟨call, found, .inl ⟨_, issuing⟩⟩, ⟨call, found, .inr ⟨token, issuedAt, succeeded⟩⟩]
  lockedOut := by
    intro knows party earlier later u split other presents unknown
    have chain := ordered.inForce discerns
    rw [split] at chain
    apply lockedOut_of_chain _ other presents unknown
    exact chain.right_of_append.imp fun _ _ both => both.2
  accepted := by
    intro u last call token issuedAt here pc now unexpired
    obtain ⟨call', found, -, -, issuing | ⟨token', issuedAt', succeeded, signed⟩⟩ :=
      (ordered.log u (List.mem_of_mem_getLast? last)).finished
    · obtain rfl := Option.some.inj (here.symm.trans found)
      cases pc.symm.trans issuing
    · obtain rfl := Option.some.inj (here.symm.trans found)
      obtain ⟨rfl, rfl⟩ := Pc.succeeded.inj (pc.symm.trans succeeded)
      have current : withHash s.account u.after = s.account := by
        rw [← ordered.stored u last]
        rfl
      rw [current] at signed
      exact authenticate_signed ordered.named signed unexpired

/-- Every run in which no write overtakes its call's read is linearizable. -/
theorem password_changes_linearizable (lib : Library Token) (discerns : lib.Discerns) (account : User)
    (named : account.id ≠ "") (now : Int) (actions : List Action) (s : State Token)
    (ran : run (step lib) (start account now) actions = some s)
    (orderly : Along (step lib) Orderly (start account now) actions) : Linearizable lib s := by
  refine Ordered.linearizable ?_ discerns
  exact run_invariant_along (fun _ _ _ ordered orderly stepped => ordered.step orderly stepped)
    orderly ran (Ordered.start named now)

/-- A hash that carries its salt and password in clear, and tokens that are their claims. -/
def clear : Library Claims where
  generateFromPassword salt p := if p.length > maxPasswordLen then none else some (.ofNat salt :: p)
  compareHashAndPassword hash q := hash.tail == q
  passwordStamp hash := String.ofList (hash.map fun b => .ofNat b.toNat)
  sign := some
  verify claims now := if now < claims.exp * second then some claims else none
  parseAddress := some
  signs claims := ⟨claims, rfl⟩
  verify_signed := by
    rintro claims token now signed unexpired
    cases signed
    exact if_pos unexpired

theorem clear_discerns : clear.Discerns := by
  intro salt p hash q generated
  simp only [clear] at generated
  split at generated
  · cases generated
  · cases generated
    exact beq_iff_eq

def ada : User := ⟨"u1", "ada@example.com", 0 :: lit "first-secret", "t1", "admin"⟩

/-- Two calls that both present the first password, each checked before either writes. -/
def overtaken : List Action :=
  [.changePassword 0 "u1" (lit "first-secret") (lit "owner-secret"),
   .changePassword 1 "u1" (lit "first-secret") (lit "thief-secret"),
   .read 0 true, .read 1 true, .check 0 1, .check 1 2,
   .update 0 .ok, .issue 0, .update 1 .ok, .issue 1]

/-- The first call has succeeded, and the old password still sets the account's. -/
theorem old_password_overtakes :
    ∃ s, run (step clear) (start ada 0) overtaken = some s ∧ ¬Linearizable clear s := by
  refine ⟨_, rfl, fun linearizable => ?_⟩
  have succeeded := linearizable.presented 1 _ _ _ rfl rfl
  have presented := succeeded.2 _ (List.mem_cons_of_mem _ List.mem_cons_self) rfl
  revert presented
  decide +kernel

/-- The same two changes, the second begun when the first has returned. -/
def inTurn : List Action :=
  [.changePassword 0 "u1" (lit "first-secret") (lit "owner-secret"),
   .read 0 true, .check 0 1, .update 0 .ok, .issue 0,
   .changePassword 1 "u1" (lit "owner-secret") (lit "other-secret"),
   .read 1 true, .check 1 2, .update 1 .ok, .issue 1]

theorem inTurn_linearizable :
    ∃ s, run (step clear) (start ada 0) inTurn = some s ∧ s.log.length = 2 ∧
      Linearizable clear s := by
  refine ⟨_, rfl, rfl, ?_⟩
  apply password_changes_linearizable clear clear_discerns ada (by decide) 0 inTurn _ rfl
  decide +kernel

end Tracium.Accounts
