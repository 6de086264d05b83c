import Tracium.History
import Tracium.Membership.Joins

/-! Who may change a roster. Every membership and every invite goes back to a request of the
workspace's owner, or of the user the owner's invite is addressed to, and nobody else takes
a membership away. -/
namespace Tracium.Membership

open Go ReadCommitted

/-- The session was started with the request. -/
def Asked (past : List Action) (t : Nat) (request : Request) : Prop := .start t request ∈ past

section Records

variable (users : Users) (first : State) (past : List Action)

/-- The workspace was the user's in a committed state. -/
def Owned (id userID : Str) : Prop :=
  ∃ mid, Steps.Visited (step users) first past mid ∧ mid.db.isOwner id userID = true

/-- The invite is one its workspace's owner asked for, but for its closing. -/
def Issued (i : Invite) : Prop :=
  ∃ t caller j, Asked past t (.createInvite caller j) ∧ Owned users first past i.workspaceID caller ∧
    i.inserted = j.inserted

/-- The session ran the statement, and from this state. -/
def Executed (t : Nat) (pc : Pc) (mid : State) : Prop :=
  Steps.Took (step users) first past (.advance t) mid ∧ ∃ x, mid.sessions t = some x ∧ x.pc = pc

/-- The session presented the link, in a transaction that began at the given time. -/
def Presented (t : Nat) (tokenHash userID : Str) (startedAt : Int) : Prop :=
  Asked past t (.acceptInvite tokenHash userID) ∧
    ∃ began, Executed users first past t (.acceptBegin tokenHash userID) began ∧ began.now = startedAt

/-- The session's user presented the link of an invite addressed to them. The session's
transaction loaded the invite, which was open when the transaction began. -/
def Invited (t : Nat) (m : Member) : Prop :=
  ∃ i startedAt loaded, Presented users first past t i.tokenHash m.userID startedAt ∧
    Executed users first past t (.acceptLoad i.tokenHash m.userID m.workspaceID) loaded ∧
    i ∈ loaded.db.invites ∧ i.open startedAt = true ∧ Issued users first past i ∧
    i.workspaceID = m.workspaceID ∧ i.role = m.role ∧ users.lowerEmail m.userID = some i.email

/-- The session committed the row, whether or not it heard of it. -/
def Inserted (t : Nat) (m : Member) : Prop :=
  ∃ a lost mid x, Steps.Took (step users) first past a mid ∧ a.runs = some (t, lost) ∧
    mid.sessions t = some x ∧ x.pc.commits = true ∧ .insert m ∈ x.members

/-- What lets a session make a user a member: founding the workspace, its owner's request, or
an invite. -/
def Entitled (t : Nat) (m : Member) : Prop :=
  (∃ w, Asked past t (.create w) ∧ m = ⟨w.id, w.userID, .owner⟩) ∨
  (∃ caller, Asked past t (.addMember caller m.workspaceID m.userID) ∧
    Owned users first past m.workspaceID caller ∧ m.role = .member) ∨
  Invited users first past t m

/-- The membership was committed by a session that was entitled to. -/
def Grounded (m : Member) : Prop := ∃ t, Inserted users first past t m ∧ Entitled users first past t m

/-- The row went with a commit or statement of the session, whether or not it heard of it. -/
def Deleted (t : Nat) (m : Member) : Prop :=
  ∃ a lost mid next, Steps.Took (step users) first past a mid ∧ a.runs = some (t, lost) ∧
    step users mid a = some next ∧ m ∈ mid.db.members ∧ m ∉ next.db.members

/-- What lets a session end a membership: the owner's request to delete the workspace, or to
remove the member. -/
def MayRemove (t : Nat) (m : Member) : Prop :=
  (∃ userID, Asked past t (.delete m.workspaceID userID) ∧ Owned users first past m.workspaceID userID) ∨
  ∃ caller, Asked past t (.removeMember caller m.workspaceID m.userID) ∧
    Owned users first past m.workspaceID caller

/-- The membership was ended by a session that was let to. -/
def Removed (m : Member) : Prop := ∃ t, Deleted users first past t m ∧ MayRemove users first past t m

/-- What a session may tell of its request at each statement. -/
def Told (t : Nat) (x : Session) : Prop :=
  match x.pc with
  | .createWorkspace w | .createOwner w | .createCommit w => Asked past t (.create w)
  | .deleteWorkspace id userID => Asked past t (.delete id userID)
  | .deleteMembers id => ∃ userID, Asked past t (.delete id userID) ∧ Owned users first past id userID
  | .deleteCommit id => (∃ userID, Asked past t (.delete id userID) ∧ Owned users first past id userID) ∧
    ∀ rows, .delete rows ∈ x.members → ∀ m, rows m = true → m.workspaceID = id
  | .grantCheckOwner caller id userID => Asked past t (.addMember caller id userID)
  | .grantBegin id userID | .grantLock id userID | .grantCheck id userID | .grantAllow id userID _
  | .grantInsert id userID | .grantClose id userID | .grantCommit id userID =>
    ∃ caller, Asked past t (.addMember caller id userID) ∧ Owned users first past id caller
  | .inviteCheckOwner caller i => Asked past t (.createInvite caller i)
  | .inviteBegin i | .inviteLock i | .inviteCheck i | .inviteAllow i | .inviteReplace i | .inviteInsert i
  | .inviteCommit i =>
    ∃ caller, Asked past t (.createInvite caller i) ∧ Owned users first past i.workspaceID caller
  | .acceptBegin tokenHash userID => Asked past t (.acceptInvite tokenHash userID)
  | .acceptFind tokenHash userID | .acceptLock tokenHash userID _ | .acceptLoad tokenHash userID _ =>
    Presented users first past t tokenHash userID x.startedAt
  | .acceptAllow id userID _ role | .acceptInsert id userID _ role | .acceptClose id userID _ role =>
    Invited users first past t ⟨id, userID, role⟩
  | .acceptCommit _ => ∀ m, .insert m ∈ x.members → Invited users first past t m
  | .removeCheckOwner caller id userID => Asked past t (.removeMember caller id userID)
  | .removeIsOwner id userID | .removeDelete id userID =>
    ∃ caller, Asked past t (.removeMember caller id userID) ∧ Owned users first past id caller
  | .revokeCheckOwner .. | .revokeUpdate .. | .done _ => True

structure Authority (s : State) : Prop where
  life : Lifecycle users s
  told : ∀ t x, s.sessions t = some x → Told users first past t x
  members : ∀ m ∈ s.db.members, Grounded users first past m
  invites : ∀ i ∈ s.db.invites, Issued users first past i

end Records

variable {users : Users} {first s s' : State} {past : List Action} {a : Action} {t : Nat} {x : Session}
  {id userID : Str} {rows : List Row}

/-! What was recorded stays so. -/

theorem Asked.later {request : Request} (asked : Asked past t request) : Asked (past ++ [a]) t request :=
  List.mem_append_left _ asked

theorem Owned.later (owned : Owned users first past id userID) : Owned users first (past ++ [a]) id userID := by
  obtain ⟨mid, visited, owner⟩ := owned
  exact ⟨mid, Steps.visited_more visited _, owner⟩

theorem Issued.later {i : Invite} (issued : Issued users first past i) : Issued users first (past ++ [a]) i := by
  obtain ⟨u, caller, j, asked, owned, same⟩ := issued
  exact ⟨u, caller, j, asked.later, owned.later, same⟩

theorem Executed.later {pc : Pc} {mid : State} (executed : Executed users first past t pc mid) :
    Executed users first (past ++ [a]) t pc mid := ⟨executed.1.more [a], executed.2⟩

theorem Presented.later {tokenHash : Str} {startedAt : Int}
    (presented : Presented users first past t tokenHash userID startedAt) :
    Presented users first (past ++ [a]) t tokenHash userID startedAt := by
  obtain ⟨asked, began, executed, same⟩ := presented
  exact ⟨asked.later, began, executed.later, same⟩

theorem Invited.later {m : Member} (invited : Invited users first past t m) :
    Invited users first (past ++ [a]) t m := by
  obtain ⟨i, startedAt, loaded, presented, load, stored, opened, issued, same⟩ := invited
  exact ⟨i, startedAt, loaded, presented.later, load.later, stored, opened, issued.later, same⟩

theorem Entitled.later {m : Member} (entitled : Entitled users first past t m) :
    Entitled users first (past ++ [a]) t m := by
  rcases entitled with ⟨w, asked, same⟩ | ⟨caller, asked, owned, role⟩ | invited
  exacts [.inl ⟨w, asked.later, same⟩, .inr (.inl ⟨caller, asked.later, owned.later, role⟩),
    .inr (.inr invited.later)]

theorem Grounded.later {m : Member} (grounded : Grounded users first past m) :
    Grounded users first (past ++ [a]) m := by
  obtain ⟨u, ⟨b, lost, mid, x, took, committed⟩, entitled⟩ := grounded
  exact ⟨u, ⟨b, lost, mid, x, took.more [a], committed⟩, entitled.later⟩

theorem Told.later (told : Told users first past t x) : Told users first (past ++ [a]) t x := by
  unfold Told at told ⊢
  cases pc : x.pc <;> simp only [pc] at told ⊢
  case createWorkspace | createOwner | createCommit | deleteWorkspace | grantCheckOwner | inviteCheckOwner |
      acceptBegin | removeCheckOwner =>
    exact told.later
  case acceptFind | acceptLock | acceptLoad => exact told.later
  case acceptAllow | acceptInsert | acceptClose => exact told.later
  case acceptCommit => exact fun m member => (told m member).later
  case deleteCommit =>
    obtain ⟨⟨caller, asked, owned⟩, only⟩ := told
    exact ⟨⟨caller, asked.later, owned.later⟩, only⟩
  all_goals
    obtain ⟨caller, asked, owned⟩ := told
    exact ⟨caller, asked.later, owned.later⟩

/-! What one statement may tell. -/

/-- Past the owner check the caller is on record as the owner. -/
theorem Told.authorized (told : Told users first past t x) {caller : Str} {next : Pc}
    (at_ : x.pc.ownerCheck = some (caller, id, next)) (owned : Owned users first past id caller) :
    Told users first past t { x with pc := next } := by
  unfold Told at told
  cases pc : x.pc <;>
    simp only [pc, Pc.ownerCheck, reduceCtorEq, Option.some.injEq, Prod.mk.injEq] at at_ told
  case grantCheckOwner | inviteCheckOwner | removeCheckOwner =>
    obtain ⟨rfl, rfl, rfl⟩ := at_
    exact ⟨_, told, owned⟩
  case revokeCheckOwner =>
    obtain ⟨rfl, rfl, rfl⟩ := at_
    trivial

theorem Told.began (told : Told users first past t x) {next : Pc} (at_ : x.pc.begins = some next)
    (reached : Steps.run (Membership.step users) first past = some s) (here : s.sessions t = some x) :
    Told users first (past ++ [.advance t]) t { x with pc := next, startedAt := s.now } := by
  have later := told.later (a := .advance t)
  unfold Told at later
  cases pc : x.pc <;> simp only [pc, Pc.begins, reduceCtorEq, Option.some.injEq] at at_ later <;>
    obtain rfl := at_
  case acceptBegin => exact ⟨later, s, ⟨Steps.took_last reached _, x, here, pc⟩, rfl⟩
  all_goals exact later

theorem Told.locking (told : Told users first past t x) {next : Pc} (at_ : x.pc.locking = some (id, next)) :
    Told users first past t { x with pc := next } := by
  unfold Told at told
  cases pc : x.pc <;>
    simp only [pc, Pc.locking, reduceCtorEq, Option.some.injEq, Prod.mk.injEq] at at_ told <;>
    obtain ⟨rfl, rfl⟩ := at_ <;> exact told

theorem Authority.told_move (auth : Authority users first past s)
    (reached : Steps.run (Membership.step users) first past = some s) (here : s.sessions t = some x)
    {x' : Session} (moves : Moves users s x rows x') : Told users first (past ++ [.advance t]) t x' := by
  have current : Steps.Visited (Membership.step users) first (past ++ [.advance t]) s :=
    Steps.visited_more (Steps.visited_last reached) _
  have told := (auth.told t x here).later (a := .advance t)
  have sure := auth.life.each t x here
  cases moves with
  | authorized caller id next at_ owner => exact told.authorized at_ ⟨s, current, owner⟩
  | began next at_ => exact (auth.told t x here).began at_ reached here
  | locked id next at_ | unlocked id next at_ => exact told.locking at_
  | created w at_ | owned w at_ =>
    unfold Told at told
    rw [at_] at told
    exact told
  | deleted id userID at_ owner =>
    unfold Told at told
    simp only [Sure, at_] at told sure
    rw [view_blank sure] at owner
    exact ⟨userID, told, s, current, owner⟩
  | cleared id _ seen at_ all =>
    unfold Told at told
    simp only [Sure, at_] at told sure
    obtain ⟨-, -, members, -⟩ := sure
    refine ⟨told, fun deleted member m picked => ?_⟩
    simp only [members, List.nil_append, List.mem_singleton, Change.delete.injEq] at member
    subst member
    subst all
    simpa using (List.mem_filter.mp (of_decide_eq_true picked)).2
  | grantChecked id userID at_ | grantInserted id userID at_ | grantClosed id userID ids at_
  | inviteReplaced i ids at_ | inviteInserted i at_ | acceptFound tokenHash userID i at_
  | acceptInserted id userID inviteID role at_ | acceptKept id userID inviteID role at_
  | removable id userID at_ =>
    unfold Told at told
    simp only [at_] at told
    exact told
  | inviteChecked i at_ =>
    unfold Told at told
    simp only [at_] at told
    split <;> exact told
  | acceptLoaded tokenHash userID id i next at_ found opened matching next_ =>
    unfold Told at told
    simp only [Sure, at_] at told sure
    obtain ⟨linked, -, blank⟩ := sure
    obtain ⟨stored, rfl, workspace⟩ := auth.life.found_by_link linked blank found
    have invited : Invited users first (past ++ [.advance t]) t ⟨id, userID, i.role⟩ :=
      ⟨i, x.startedAt, s, told, ⟨Steps.took_last reached _, x, here, at_⟩, stored, opened,
        (auth.invites i stored).later, workspace, rfl, matching⟩
    rcases next_ with rfl | rfl <;> exact invited
  | acceptClosed id userID inviteID role ids at_ =>
    unfold Told at told
    simp only [Sure, at_] at told sure
    obtain ⟨-, -, -, members, -⟩ := sure
    intro m member
    rcases members with none_ | one
    · rw [none_] at member
      cases member
    · rw [one, List.mem_singleton, Change.insert.injEq] at member
      exact member ▸ told

theorem Told.allowed (told : Told users first past t x) {next : Pc} (allows : Allows x next) :
    Told users first past t { x with pc := next } := by
  unfold Told at told
  cases allows with
  | grant id userID invited at_ | invite i at_ | accept id userID inviteID role at_ =>
    rw [at_] at told
    exact told

theorem Told.started {request : Request} {s₁ : State} {pc : Pc} {startedAt : Int} (started : request.start s = some (s₁, pc))
    (asked : Asked past t request) : Told users first past t ⟨pc, startedAt, [], [], []⟩ := by
  cases request with
  | create w =>
    obtain ⟨-, -, rfl⟩ := Request.start_create started
    exact asked
  | createInvite caller i =>
    obtain ⟨-, -, rfl⟩ := Request.start_createInvite started
    exact asked
  | revokeInvite =>
    cases Option.some.inj started
    trivial
  | _ =>
    cases Option.some.inj started
    exact asked

/-! What a commit leaves. -/

/-- A session entered the members it commits by right, and it changes none. -/
theorem Authority.committed_members (auth : Authority users first past s) (here : s.sessions t = some x)
    {x' : Session} (commits : Commits s x rows x') :
    (∀ m, .insert m ∈ x'.members → x' = x ∧ x.pc.commits = true ∧ Entitled users first past t m) ∧
      ∀ picked set, .update picked set ∉ x'.members := by
  have told := auth.told t x here
  have sure := auth.life.each t x here
  unfold Told at told
  cases commits with
  | removed id userID at_ => exact ⟨fun m member => by simp at member, fun _ _ member => by simp at member⟩
  | revoked id inviteID at_ =>
    have blank : x.Blank := by simpa only [Sure, at_] using sure
    obtain ⟨-, members, -⟩ := blank
    simp only [members]
    exact ⟨fun m member => absurd member List.not_mem_nil, fun _ _ member => absurd member List.not_mem_nil⟩
  | transaction at_ =>
    suffices entered : (∀ m, .insert m ∈ x.members → Entitled users first past t m) ∧
        ∀ picked set, .update picked set ∉ x.members from
      ⟨fun m member => ⟨rfl, at_, entered.1 m member⟩, entered.2⟩
    cases pc : x.pc <;> simp only [pc, Pc.commits, reduceCtorEq] at at_ <;>
      simp only [Sure, pc] at sure told
    case createCommit w =>
      obtain ⟨-, -, members, -⟩ := sure
      simp only [members, List.mem_singleton, Change.insert.injEq, reduceCtorEq, not_false_eq_true,
        implies_true, and_true]
      rintro m rfl
      exact .inl ⟨w, told, rfl⟩
    case deleteCommit id =>
      obtain ⟨-, -, ⟨seen, members⟩, -⟩ := sure
      simp [members]
    case grantCommit id userID =>
      obtain ⟨-, -, members, -⟩ := sure
      obtain ⟨caller, asked, owned⟩ := told
      simp only [members, List.mem_singleton, Change.insert.injEq, reduceCtorEq, not_false_eq_true,
        implies_true, and_true]
      rintro m rfl
      exact .inr (.inl ⟨caller, asked, owned, rfl⟩)
    case inviteCommit i =>
      obtain ⟨-, -, -, -, -, members, -⟩ := sure
      simp [members]
    case acceptCommit id =>
      obtain ⟨userID, i, ids, -, -, -, members, -⟩ := sure
      refine ⟨fun m member => .inr (.inr (told m member)), fun picked set member => ?_⟩
      rcases members with none_ | one
      · rw [none_] at member
        cases member
      · rw [one] at member
        simp at member

theorem Issued.closed {i j : Invite} (issued : Issued users first past i) (same : j.inserted = i.inserted) :
    Issued users first past j := by
  obtain ⟨u, caller, k, asked, owned, drawn⟩ := issued
  have workspace := congrArg Invite.workspaceID same
  simp only [Invite.inserted] at workspace
  exact ⟨u, caller, k, asked, workspace ▸ owned, same.trans drawn⟩

/-- The invites a commit opens were asked for, and it changes nothing but their closing. -/
theorem Authority.committed_invites (auth : Authority users first past s) (here : s.sessions t = some x)
    {x' : Session} (commits : Commits s x rows x') :
    (∀ i, .insert i ∈ x'.invites → Issued users first past i) ∧
      ∀ picked set, .update picked set ∈ x'.invites → ∀ i, (set i).inserted = i.inserted := by
  have told := auth.told t x here
  have sure := auth.life.each t x here
  unfold Told at told
  cases commits with
  | removed id userID at_ =>
    have blank : x.Blank := by simpa only [Sure, at_] using sure
    obtain ⟨-, -, invites⟩ := blank
    simp only [invites]
    exact ⟨fun i member => absurd member List.not_mem_nil, fun _ _ member => absurd member List.not_mem_nil⟩
  | revoked id inviteID at_ =>
    simp only [List.mem_singleton, reduceCtorEq, IsEmpty.forall_iff, implies_true, true_and]
    rintro picked set ⟨⟩ i
    rfl
  | transaction at_ =>
    cases pc : x.pc <;> simp only [pc, Pc.commits, reduceCtorEq] at at_ <;>
      simp only [Sure, pc] at sure told
    case createCommit w =>
      obtain ⟨-, -, -, invites⟩ := sure
      simp [invites]
    case deleteCommit id =>
      obtain ⟨-, -, -, invites⟩ := sure
      simp [invites]
    case grantCommit id userID =>
      obtain ⟨-, -, -, ids, invites, -⟩ := sure
      simp only [invites, closing, List.mem_singleton, reduceCtorEq, IsEmpty.forall_iff, implies_true, true_and]
      rintro picked set ⟨⟩ i
      rfl
    case inviteCommit i =>
      obtain ⟨-, -, -, -, -, -, -, ids, invites, -⟩ := sure
      obtain ⟨caller, asked, owned⟩ := told
      simp only [invites, closing, List.mem_cons, List.not_mem_nil, reduceCtorEq, or_false, false_or,
        Change.insert.injEq]
      refine ⟨?_, ?_⟩
      · rintro j rfl
        exact ⟨t, caller, i, asked, owned, rfl⟩
      · rintro picked set ⟨⟩ j
        rfl
    case acceptCommit id =>
      obtain ⟨userID, i, ids, -, -, -, -, invites, -⟩ := sure
      simp only [invites, closing, List.mem_singleton, reduceCtorEq, IsEmpty.forall_iff, implies_true, true_and]
      rintro picked set ⟨⟩ j
      rfl

theorem Authority.step (auth : Authority users first past s)
    (reached : Steps.run (Membership.step users) first past = some s)
    (stepped : Membership.step users s a = some s') : Authority users first (past ++ [a]) s' := by
  have life := (auth.life.step stepped).life
  have told : ∀ u y, s.sessions u = some y → Told users first (past ++ [a]) u y :=
    fun u y there => (auth.told u y there).later
  have members : ∀ m ∈ s.db.members, Grounded users first (past ++ [a]) m :=
    fun m member => (auth.members m member).later
  have invites : ∀ i ∈ s.db.invites, Issued users first (past ++ [a]) i :=
    fun i member => (auth.invites i member).later
  cases step_effect stepped with
  | tick elapsed => exact ⟨life, told, members, invites⟩
  | start t request s₁ pc unused started =>
    have same : s₁.db = s.db ∧ s₁.sessions = s.sessions := by
      cases request with
      | create w =>
        obtain ⟨-, rfl, -⟩ := Request.start_create started
        exact ⟨rfl, rfl⟩
      | createInvite caller i =>
        obtain ⟨-, rfl, -⟩ := Request.start_createInvite started
        exact ⟨rfl, rfl⟩
      | _ =>
        cases Option.some.inj started
        exact ⟨rfl, rfl⟩
    obtain ⟨db, sessions⟩ := same
    refine ⟨life, fun u y there => ?_, fun m member => members m (db ▸ member),
      fun i member => invites i (db ▸ member)⟩
    rcases Steps.update_eq_some there with ⟨rfl, ⟨⟩⟩ | ⟨-, old⟩
    · exact Told.started started (List.mem_append_right _ List.mem_cons_self)
    · exact told u y (sessions ▸ old)
  | stop a t x rows result acts here free =>
    refine ⟨life, fun u y there => ?_, members, invites⟩
    rcases Steps.update_eq_some there with ⟨rfl, ⟨⟩⟩ | ⟨-, old⟩
    exacts [trivial, told u y old]
  | move t x rows x' here free moves =>
    refine ⟨life, fun u y there => ?_, members, invites⟩
    rcases Steps.update_eq_some there with ⟨rfl, ⟨⟩⟩ | ⟨-, old⟩
    exacts [auth.told_move reached here moves, told u y old]
  | allowed t x next here allows =>
    refine ⟨life, fun u y there => ?_, members, invites⟩
    rcases Steps.update_eq_some there with ⟨rfl, ⟨⟩⟩ | ⟨-, old⟩
    exacts [(told _ x here).allowed allows, told u y old]
  | commit a t lost x rows x' runs here free commits =>
    obtain ⟨added, unchanged⟩ := auth.committed_members here commits
    obtain ⟨opened, closed⟩ := auth.committed_invites here commits
    refine ⟨life, fun u y there => ?_, ?_, ?_⟩
    · rcases Steps.update_eq_some there with ⟨rfl, ⟨⟩⟩ | ⟨-, old⟩
      exacts [trivial, told u y old]
    · refine forall_mem_applyAll members (fun m member => ?_)
        fun picked set member => absurd member (unchanged picked set)
      obtain ⟨rfl, last, entitled⟩ := added m member
      exact ⟨t, ⟨a, lost, s, x', Steps.took_last reached a, runs, here, last, member⟩, entitled.later⟩
    · exact forall_mem_applyAll invites (fun i member => (opened i member).later)
        fun picked set member i issued => issued.closed (closed picked set member i)

theorem authority_run {now : Int} {actions : List Action}
    (ran : Steps.run (step users) (newStore now) actions = some s) :
    Authority users (newStore now) actions s := by
  refine Steps.run_past (fun past a s s' reached auth stepped => auth.step reached stepped) ran
    ⟨lifecycle_newStore now, ?_, ?_, ?_⟩
  · intro t x there
    cases there
  · intro m member
    cases member
  · intro i member
    cases member

/-- A step that takes a membership away commits a deletion or a removal. -/
theorem Authority.lost (auth : Authority users first past s) (stepped : Membership.step users s a = some s')
    {m : Member} (was : m ∈ s.db.members) (gone : m ∉ s'.db.members) :
    ∃ t lost, a.runs = some (t, lost) ∧ MayRemove users first past t m := by
  cases step_effect stepped with
  | start t request s₁ pc unused started =>
    refine absurd ?_ gone
    cases request with
    | create w =>
      obtain ⟨-, rfl, -⟩ := Request.start_create started
      exact was
    | createInvite caller i =>
      obtain ⟨-, rfl, -⟩ := Request.start_createInvite started
      exact was
    | _ =>
      cases Option.some.inj started
      exact was
  | tick | stop | move | allowed => exact absurd was gone
  | commit a t lost x rows x' runs here free commits =>
    refine ⟨t, lost, runs, ?_⟩
    have told := auth.told t x here
    have sure := auth.life.each t x here
    unfold Told at told
    change m ∉ applyAll s.db.members x'.members at gone
    have kept (inserts : ∀ c ∈ x'.members, ∃ row, c = .insert row) : MayRemove users first past t m :=
      absurd (mem_applyAll_of_inserts inserts was) gone
    cases commits with
    | removed id userID at_ =>
      simp only [at_] at told
      have named : m.workspaceID = id ∧ m.userID = userID := by
        by_contra other
        refine gone (mem_apply_delete.mpr ⟨was, ?_⟩)
        rw [Bool.and_eq_false_iff, decide_eq_false_iff_not, decide_eq_false_iff_not]
        exact not_and_or.mp other
      obtain ⟨caller, asked, owned⟩ := told
      obtain ⟨rfl, rfl⟩ := named
      exact .inr ⟨caller, asked, owned⟩
    | revoked id inviteID at_ =>
      simp only [Sure, at_] at sure
      exact kept (by simp [sure.2.1])
    | transaction at_ =>
      cases pc : x.pc <;> simp only [pc, Pc.commits, reduceCtorEq] at at_ <;>
        simp only [Sure, pc] at sure told
      case createCommit w => exact kept (by simp [sure.2.2.1])
      case grantCommit id userID => exact kept (by simp [sure.2.2.1])
      case inviteCommit i => exact kept (by simp [sure.2.2.2.2.2.1])
      case acceptCommit id =>
        obtain ⟨userID, i, ids, -, -, -, members, -⟩ := sure
        rcases members with none_ | one
        exacts [kept (by simp [none_]), kept (by simp [one])]
      case deleteCommit id =>
        obtain ⟨⟨caller, asked, owned⟩, only⟩ := told
        obtain ⟨-, -, ⟨seen, members⟩, -⟩ := sure
        have picked : m ∈ seen := by
          by_contra other
          refine gone ?_
          rw [members]
          exact mem_apply_delete.mpr ⟨was, decide_eq_false other⟩
        obtain rfl := only _ (members ▸ List.mem_cons_self) m (decide_eq_true picked)
        exact .inl ⟨caller, asked, owned⟩

theorem MayRemove.more {m : Member} (may : MayRemove users first past t m) (after : List Action) :
    MayRemove users first (past ++ after) t m := by
  rcases may with ⟨caller, asked, mid, visited, owner⟩ | ⟨caller, asked, mid, visited, owner⟩
  exacts [.inl ⟨caller, List.mem_append_left _ asked, mid, Steps.visited_more visited _, owner⟩,
    .inr ⟨caller, List.mem_append_left _ asked, mid, Steps.visited_more visited _, owner⟩]

/-- The owner takes bob out again. -/
def removeBob : List Action :=
  .start 4 (.removeMember (lit "alice") (lit "team") (lit "bob")) :: List.replicate 3 (Action.advance 4)

end Tracium.Membership
