import Tracium.Membership.Integrity
import Tracium.Membership.Joins

/-! The seats of a workspace: its members and its open invites, against the limit of an
entitlement provider that is asked inside the transactions. -/
namespace Tracium.Membership

open Go ReadCommitted

/-- Members and open unexpired invites, each of which holds a seat. -/
def Tables.seats (db : Tables) (id : Str) (now : Int) : Nat :=
  (db.roster id).length + db.invites.countP fun i => decide (i.workspaceID = id) && i.open now

/-- The seats without those of the open invites that `own` picks. -/
def Tables.taken (db : Tables) (id : Str) (now : Int) (own : Invite → Bool) : Nat :=
  (db.roster id).length +
    db.invites.countP fun i => decide (i.workspaceID = id) && i.open now && !own i

inductive Feature
  | invite
  | memberAdd

/-- The provider's answer on the committed tables. -/
def Tables.entitled (db : Tables) (limit : Nat) (id : Str) (now : Int) : Feature → Bool
  | .invite => decide (db.seats id now < limit)
  | .memberAdd => decide ((db.roster id).length < limit)

/-- The workspace and the feature that a handler's allow asks for. -/
def Pc.feature : Pc → Option (Str × Feature)
  | .grantAllow id _ invited => some (id, if invited then .memberAdd else .invite)
  | .inviteAllow i => some (i.workspaceID, .invite)
  | .acceptAllow id _ _ _ => some (id, .memberAdd)
  | _ => none

/-- The verdicts about the workspace are the provider's. -/
def provided (limit : Nat) (id : Str) (s : State) : Action → Bool
  | .allow t granted =>
    match (s.sessions t).bind (·.pc.feature) with
    | some (workspaceID, feature) =>
      workspaceID != id || granted == s.db.entitled limit id s.now feature
    | none => true
  | _ => true

variable (users : Users)

/-- The invites of a workspace among which a check looks for one that holds the seat. -/
def Pc.checks : Pc → Option (Str × (Invite → Bool))
  | .grantCheck id userID => some (id, fun i => users.lowerEmail userID = some i.email)
  | .inviteCheck i => some (i.workspaceID, fun j => j.email = i.email)
  | .acceptLoad tokenHash _ id => some (id, fun i => i.tokenHash = tokenHash)
  | _ => none

/-- No check takes an invite for open that was so when the transaction began and has
expired since. -/
def timely (id : Str) (s : State) : Action → Bool
  | .advance t =>
    match s.sessions t with
    | some x =>
      match x.pc.checks users with
      | some (workspaceID, own) => workspaceID != id || s.db.invites.all fun i =>
          !(decide (i.workspaceID = id) && own i && i.open x.startedAt) || i.open s.now
      | none => true
    | none => true
  | _ => true

/-- The invites whose seat a session takes over, from its check on. -/
def Pc.reserve : Pc → Option (Str × (Invite → Bool))
  | .grantAllow id userID true | .grantInsert id userID | .grantClose id userID
  | .grantCommit id userID => some (id, fun i => users.lowerEmail userID = some i.email)
  | .inviteReplace i | .inviteInsert i | .inviteCommit i =>
    some (i.workspaceID, fun j => j.email = i.email)
  | .acceptAllow id _ inviteID _ | .acceptInsert id _ inviteID _ | .acceptClose id _ inviteID _ =>
    some (id, fun i => i.id = inviteID)
  | _ => none

/-- The workspace an AcceptInvite is about to commit to. -/
def Pc.accepts : Pc → Option Str
  | .acceptCommit id => some id
  | _ => none

def Pc.deletes : Pc → Option Str
  | .deleteWorkspace id _ | .deleteMembers id | .deleteCommit id => some id
  | _ => none

def Action.deletes : Action → Option Str
  | .start _ (.delete id _) => some id
  | _ => none

def Pc.finished : Pc → Bool
  | .done _ => true
  | _ => false

/-- No request is under way. -/
def State.Idle (s : State) : Prop := ∀ t x, s.sessions t = some x → x.pc.finished = true

/-- Without the session's own invites a seat is free. -/
def Spare (limit : Nat) (id : Str) (s : State) (own : Invite → Bool) : Prop :=
  s.db.taken id s.now own + 1 ≤ limit

structure Reserved (limit : Nat) (id : Str) (s : State) (x : Session) : Prop where
  own : ∀ own, x.pc.reserve users = some (id, own) → Spare limit id s own
  accepted : x.pc.accepts = some id → ∃ ids,
    x.invites = [closing ids (accepting x.startedAt)] ∧ Spare limit id s (·.id ∈ ids)
  keeps : x.pc.deletes ≠ some id

structure Seated (limit : Nat) (id : Str) (s : State) : Prop where
  life : Lifecycle users s
  there : Exists s id
  within : s.db.seats id s.now ≤ limit
  reserved : ∀ t x, s.sessions t = some x → Reserved users limit id s x

variable {users} {s s' : State} {t u : Nat} {x x' : Session} {id : Str} {rows : List Row}
  {limit : Nat} {a : Action} {own : Invite → Bool} {db db' : Tables} {now : Int}

theorem Tables.taken_le_seats (db : Tables) (id : Str) (now : Int) (own : Invite → Bool) :
    db.taken id now own ≤ db.seats id now := by
  unfold Tables.taken Tables.seats
  have fewer : db.invites.countP (fun i => decide (i.workspaceID = id) && i.open now && !own i) ≤
      db.invites.countP fun i => decide (i.workspaceID = id) && i.open now :=
    List.countP_mono_left fun _ _ both => (Bool.and_eq_true_iff.mp both).1
  omega

/-- An open invite of its own leaves a session a seat. -/
theorem Tables.taken_lt_seats {i : Invite} (stored : i ∈ db.invites) (workspace : i.workspaceID = id)
    (open_ : i.open now = true) (mine : own i = true) : db.taken id now own < db.seats id now := by
  have split := List.countP_eq_countP_filter_add db.invites
    (fun i => decide (i.workspaceID = id) && i.open now) own
  have some_ : 0 < (db.invites.filter own).countP fun i =>
      decide (i.workspaceID = id) && i.open now := by
    refine List.countP_pos_iff.mpr ⟨i, List.mem_filter.mpr ⟨stored, mine⟩, ?_⟩
    simp [workspace, open_]
  have rest : (db.invites.filter fun i => !own i).countP
      (fun i => decide (i.workspaceID = id) && i.open now) =
      db.invites.countP fun i => decide (i.workspaceID = id) && i.open now && !own i :=
    List.countP_filter
  unfold Tables.taken Tables.seats
  omega

theorem open_of_later {i : Invite} {later : Int} (earlier : now ≤ later)
    (open_ : i.open later = true) : i.open now = true := by
  simp only [Invite.open, Bool.and_eq_true, decide_eq_true_eq] at open_ ⊢
  exact ⟨open_.1, by omega⟩

/-- Seats are given up as time passes. -/
theorem Tables.seats_later (db : Tables) (id : Str) {later : Int} (earlier : now ≤ later) :
    db.seats id later ≤ db.seats id now := by
  unfold Tables.seats
  have fewer : db.invites.countP (fun i => decide (i.workspaceID = id) && i.open later) ≤
      db.invites.countP fun i => decide (i.workspaceID = id) && i.open now := by
    refine List.countP_mono_left fun i _ both => ?_
    rw [Bool.and_eq_true_iff] at both ⊢
    exact ⟨both.1, open_of_later earlier both.2⟩
  omega

/-- Fewer members and fewer pending invites take fewer seats. -/
theorem Tables.taken_le {later : Int} (roster : (db'.roster id).Sublist (db.roster id))
    (pending : (db'.pending id).Sublist (db.pending id)) (earlier : now ≤ later)
    (own : Invite → Bool) : db'.taken id later own ≤ db.taken id now own := by
  have counted : ∀ (db : Tables) (now : Int),
      db.invites.countP (fun i => decide (i.workspaceID = id) && i.open now && !own i) =
      (db.pending id).countP fun i => decide (i.expiresAt > now) && !own i := by
    intro db now
    rw [Tables.pending, List.countP_filter]
    refine List.countP_congr fun i _ => ?_
    simp only [Invite.open, Bool.and_eq_true]
    tauto
  have fewer : (db'.pending id).countP (fun i => decide (i.expiresAt > later) && !own i) ≤
      (db.pending id).countP fun i => decide (i.expiresAt > now) && !own i := by
    refine Nat.le_trans pending.countP_le (List.countP_mono_left fun i _ both => ?_)
    simp only [Bool.and_eq_true, decide_eq_true_eq] at both ⊢
    exact ⟨by omega, both.2⟩
  unfold Tables.taken
  rw [counted, counted]
  have := roster.length_le
  omega

/-- A statement that closes invites gives up their seats. -/
theorem countP_closing {ids : List Str} {close : Invite → Invite} (invites : List Invite)
    (now : Int) (closes : ∀ i, (close i).unclosed = false) :
    (invites.map fun i => if i.id ∈ ids then close i else i).countP
      (fun i => decide (i.workspaceID = id) && i.open now) ≤
    invites.countP fun i => decide (i.workspaceID = id) && i.open now && !decide (i.id ∈ ids) := by
  rw [List.countP_map]
  refine List.countP_mono_left fun i _ counted => ?_
  by_cases within : i.id ∈ ids
  · simp [within, Invite.open, closes] at counted
  · simpa [within] using counted

/-- A session that has taken over a seat has locked its workspace. -/
theorem Sure.attends (sure : Sure users s t x)
    (at_ : (∃ own, x.pc.reserve users = some (id, own)) ∨
      x.pc.accepts = some id) : Attends s t id := by
  rcases at_ with ⟨own, at_⟩ | at_
  · cases pc : x.pc <;>
      simp only [pc, Pc.reserve, reduceCtorEq, Option.some.injEq, Prod.mk.injEq] at at_ <;>
      simp only [Sure, pc] at sure
    case grantAllow id' userID invited =>
      cases invited with
      | false => cases at_
      | true =>
        simp only [Option.some.injEq, Prod.mk.injEq] at at_
        exact at_.1 ▸ sure.1
    case inviteReplace => exact at_.1 ▸ sure.2.1
    case inviteInsert => exact at_.1 ▸ sure.2.1
    case inviteCommit => exact at_.1 ▸ sure.2.2.1
    all_goals exact at_.1 ▸ sure.1
  · cases pc : x.pc <;> simp only [pc, Pc.accepts, reduceCtorEq, Option.some.injEq] at at_
    simp only [Sure, pc] at sure
    obtain ⟨-, -, -, attends, -⟩ := sure
    exact at_ ▸ attends

theorem Spare.keep (spare : Spare limit id s own) (attends : Attends s u id) (there : Exists s id)
    (tame : Tame u s s') (later : s.now ≤ s'.now) : Spare limit id s' own := by
  have holds := attends.holds there
  have fewer := Tables.taken_le (tame.roster id holds) (tame.pending id holds) later own
  unfold Spare at spare ⊢
  omega

theorem Reserved.keep (reserved : Reserved users limit id s x) (sure : Sure users s u x)
    (there : Exists s id) (tame : Tame u s s') (later : s.now ≤ s'.now) :
    Reserved users limit id s' x where
  own := fun own reserve =>
    (reserved.own own reserve).keep (sure.attends (.inl ⟨own, reserve⟩)) there tame later
  accepted := by
    intro at_
    obtain ⟨ids, invites, spare⟩ := reserved.accepted at_
    exact ⟨ids, invites, spare.keep (sure.attends (.inr at_)) there tame later⟩
  keeps := reserved.keeps

theorem Reserved.of_same (reserved : Reserved users limit id s x) (db : s'.db = s.db)
    (now : s'.now = s.now) : Reserved users limit id s' x := by
  obtain ⟨own, accepted, keeps⟩ := reserved
  refine ⟨?_, ?_, keeps⟩
  all_goals
    unfold Spare at own accepted ⊢
    rw [db, now]
  exacts [own, accepted]

/-- A session goes on with the seat it has. -/
theorem Reserved.carry (reserved : Reserved users limit id s x)
    (reserve : x'.pc.reserve users = x.pc.reserve users) (deletes : x'.pc.deletes = x.pc.deletes)
    (accepts : x'.pc.accepts = none) : Reserved users limit id s x' where
  own := fun own taken => reserved.own own (reserve ▸ taken)
  accepted := by
    rw [accepts]
    intro at_
    cases at_
  keeps := deletes ▸ reserved.keeps

/-- A session that has not asked for a seat, or has found one. -/
theorem reserved_of_spare (spare : ∀ own, x.pc.reserve users = some (id, own) → Spare limit id s own)
    (accepts : x.pc.accepts = none) (deletes : x.pc.deletes = none) :
    Reserved users limit id s x where
  own := spare
  accepted := by
    rw [accepts]
    intro at_
    cases at_
  keeps := by
    rw [deletes]
    intro same
    cases same

theorem reserved_of_none (reserve : x.pc.reserve users = none) (accepts : x.pc.accepts = none)
    (deletes : x.pc.deletes = none) : Reserved users limit id s x := by
  refine reserved_of_spare (fun own taken => ?_) accepts deletes
  rw [reserve] at taken
  cases taken

/-- A check that finds an invite open, and timely, has found a seat. -/
theorem Seated.spare_of_open (seated : Seated users limit id s) (here : s.sessions t = some x)
    (time : timely users id s (.advance t) = true) (at_ : x.pc.checks users = some (id, own))
    {i : Invite} (stored : i ∈ s.db.invites) (workspace : i.workspaceID = id)
    (open_ : i.open x.startedAt = true) (mine : own i = true) {mine' : Invite → Bool}
    (reserves : mine' i = true) : Spare limit id s mine' := by
  simp only [timely, here, at_, bne_self_eq_false, Bool.false_or, List.all_eq_true] at time
  have still := time i stored
  simp only [workspace, mine, open_, decide_true, Bool.and_self, Bool.not_true, Bool.false_or] at still
  have fewer := Tables.taken_lt_seats stored workspace still reserves
  have within := seated.within
  unfold Spare
  omega

theorem Seated.grantChecked (seated : Seated users limit id s) (here : s.sessions t = some x)
    (time : timely users id s (.advance t) = true) {id' userID : Str}
    (at_ : x.pc = .grantCheck id' userID) : Reserved users limit id s { x with
      pc := .grantAllow id' userID
        ((s.view x).invites.any fun i => users.addressed id' userID i && i.open x.startedAt) } := by
  refine reserved_of_spare (fun own reserve => ?_) rfl rfl
  have sure := seated.life.each t x here
  simp only [Sure, at_] at sure
  rw [view_blank sure.2] at reserve
  cases invited : s.db.invites.any fun i => users.addressed id' userID i && i.open x.startedAt with
  | false =>
    rw [invited] at reserve
    cases reserve
  | true =>
    rw [invited] at reserve
    cases reserve
    obtain ⟨i, stored, found⟩ := List.any_eq_true.mp invited
    simp only [Users.addressed, Bool.and_eq_true, decide_eq_true_eq] at found
    obtain ⟨⟨workspace, matching⟩, open_⟩ := found
    exact seated.spare_of_open here time (by rw [at_]; rfl) stored workspace open_
      (decide_eq_true matching) (decide_eq_true matching)

theorem Seated.inviteChecked (seated : Seated users limit id s) (here : s.sessions t = some x)
    (time : timely users id s (.advance t) = true) {i : Invite} (at_ : x.pc = .inviteCheck i) :
    Reserved users limit id s { x with
      pc := if (s.view x).invites.any (fun j =>
          decide (j.workspaceID = i.workspaceID) && decide (j.email = i.email) &&
            j.open x.startedAt) then .inviteReplace i else .inviteAllow i } := by
  have sure := seated.life.each t x here
  simp only [Sure, at_] at sure
  rw [view_blank sure.2.2]
  split
  next replacing =>
    refine reserved_of_spare (fun own reserve => ?_) rfl rfl
    cases reserve
    obtain ⟨j, stored, found⟩ := List.any_eq_true.mp replacing
    simp only [Bool.and_eq_true, decide_eq_true_eq] at found
    obtain ⟨⟨workspace, email⟩, open_⟩ := found
    exact seated.spare_of_open here time (by rw [at_]; rfl) stored workspace open_
      (decide_eq_true email) (decide_eq_true email)
  next => exact reserved_of_none rfl rfl rfl

theorem Seated.acceptLoaded (seated : Seated users limit id s) (here : s.sessions t = some x)
    (time : timely users id s (.advance t) = true) {tokenHash userID id' : Str} {i : Invite}
    {next : Pc} (at_ : x.pc = .acceptLoad tokenHash userID id')
    (found : (s.view x).invites.find? (·.tokenHash = tokenHash) = some i)
    (opened : i.open x.startedAt = true)
    (next_ : next = .acceptInsert id' userID i.id i.role ∨
      next = .acceptAllow id' userID i.id i.role) :
    Reserved users limit id s { x with pc := next } := by
  have sure := seated.life.each t x here
  simp only [Sure, at_] at sure
  obtain ⟨linked, -, blank⟩ := sure
  obtain ⟨stored, token, workspace⟩ := seated.life.found_by_link linked blank found
  have spare : id' = id → Spare limit id s (·.id = i.id) := by
    rintro rfl
    exact seated.spare_of_open here time (by rw [at_]; rfl) stored workspace opened
      (decide_eq_true token) (decide_eq_true rfl)
  rcases next_ with rfl | rfl
  all_goals
    refine reserved_of_spare (fun own reserve => ?_) rfl rfl
    simp only [Pc.reserve, Option.some.injEq, Prod.mk.injEq] at reserve
    obtain ⟨same, rfl⟩ := reserve
    exact spare same

theorem Seated.acceptClosed (seated : Seated users limit id s) (here : s.sessions t = some x)
    {id' userID inviteID : Str} {role : Role} {ids : List Str}
    (at_ : x.pc = .acceptClose id' userID inviteID role)
    (picked : ids = ((s.view x).invites.filter (·.id = inviteID)).map (·.id)) :
    Reserved users limit id s { x with
      pc := .acceptCommit id'
      invites := x.invites ++ [closing ids (accepting x.startedAt)] } := by
  have sure := seated.life.each t x here
  simp only [Sure, at_] at sure
  obtain ⟨-, -, -, -, invites⟩ := sure
  have fewer : s.db.taken id s.now (·.id ∈ ids) ≤ s.db.taken id s.now (·.id = inviteID) := by
    refine Nat.add_le_add_left (List.countP_mono_left fun i stored counted => ?_) _
    simp only [Bool.and_eq_true, Bool.not_eq_true', decide_eq_false_iff_not] at counted ⊢
    refine ⟨counted.1, fun same => counted.2 ?_⟩
    have inView : i ∈ (s.view x).invites := by simpa [State.view, invites] using stored
    rw [picked]
    exact List.mem_map_of_mem (List.mem_filter.mpr ⟨inView, decide_eq_true same⟩)
  refine ⟨?_, ?_, ?_⟩
  · intro own reserve
    cases reserve
  · rintro ⟨⟩
    have spare := (seated.reserved t x here).own _ (by rw [at_]; rfl)
    refine ⟨ids, by rw [invites]; rfl, ?_⟩
    unfold Spare at spare ⊢
    omega
  · intro same
    cases same

/-- Every statement leaves its session the seat that it is going to take. -/
theorem Seated.moved (seated : Seated users limit id s) (here : s.sessions t = some x)
    (time : timely users id s (.advance t) = true) (moves : Moves users s x rows x') :
    Reserved users limit id s x' := by
  have reserved := seated.reserved t x here
  cases moves with
  | grantChecked id' userID at_ => exact seated.grantChecked here time at_
  | inviteChecked i at_ => exact seated.inviteChecked here time at_
  | acceptLoaded tokenHash userID id' i next at_ found opened matching next_ =>
    exact seated.acceptLoaded here time at_ found opened next_
  | acceptClosed id' userID inviteID role ids at_ picked => exact seated.acceptClosed here at_ picked
  | authorized caller id' next at_ =>
    cases pc : x.pc <;>
      simp only [pc, Pc.ownerCheck, reduceCtorEq, Option.some.injEq, Prod.mk.injEq] at at_ <;>
      obtain ⟨rfl, rfl, rfl⟩ := at_
    all_goals exact reserved_of_none rfl rfl rfl
  | began next at_ =>
    cases pc : x.pc <;> simp only [pc, Pc.begins, reduceCtorEq, Option.some.injEq] at at_ <;>
      obtain rfl := at_
    all_goals exact reserved_of_none rfl rfl rfl
  | locked id' next at_ | unlocked id' next at_ =>
    cases pc : x.pc <;>
      simp only [pc, Pc.locking, reduceCtorEq, Option.some.injEq, Prod.mk.injEq] at at_ <;>
      obtain ⟨rfl, rfl⟩ := at_
    all_goals exact reserved_of_none rfl rfl rfl
  | created _ at_ | owned _ at_ | deleted _ _ at_ | cleared _ _ _ at_ | grantInserted _ _ at_
  | grantClosed _ _ _ at_ | inviteReplaced _ _ at_ | inviteInserted _ at_ | acceptFound _ _ _ at_
  | acceptInserted _ _ _ _ at_ | acceptKept _ _ _ _ at_ | removable _ _ at_ =>
    exact reserved.carry (by rw [at_]; rfl) (by rw [at_]; rfl) rfl

/-- A verdict for a seat that is not held yet says that one is free. -/
theorem Seated.allowed (seated : Seated users limit id s) (here : s.sessions t = some x)
    (verdict : provided limit id s (.allow t true) = true) {next : Pc} (allows : Allows x next) :
    Reserved users limit id s { x with pc := next } := by
  have reserved := seated.reserved t x here
  have free : ∀ own, x.pc.feature = some (id, .invite) → Spare limit id s own := by
    intro own feature
    simp only [provided, here, Option.bind_some, feature, Tables.entitled, bne_self_eq_false,
      Bool.false_or, beq_iff_eq] at verdict
    have fits := of_decide_eq_true verdict.symm
    have fewer := s.db.taken_le_seats id s.now own
    unfold Spare
    omega
  cases allows with
  | grant id' userID invited at_ =>
    cases invited with
    | true => exact reserved.carry (by rw [at_]; rfl) (by rw [at_]; rfl) rfl
    | false =>
      refine reserved_of_spare (fun own reserve => ?_) rfl rfl
      cases reserve
      exact free _ (by rw [at_]; rfl)
  | invite i at_ =>
    refine reserved_of_spare (fun own reserve => ?_) rfl rfl
    cases reserve
    exact free _ (by rw [at_]; rfl)
  | accept id' userID inviteID role at_ =>
    exact reserved.carry (by rw [at_]; rfl) (by rw [at_]; rfl) rfl

/-- Nothing is added to the workspace. -/
theorem Tables.seats_le (roster : (db'.roster id).Sublist (db.roster id))
    (invites : db'.invites.countP (fun i => decide (i.workspaceID = id) && i.open now) ≤
      db.invites.countP fun i => decide (i.workspaceID = id) && i.open now) :
    db'.seats id now ≤ db.seats id now := Nat.add_le_add roster.length_le invites

theorem countP_closing_le {ids : List Str} {close : Invite → Invite} (invites : List Invite)
    (now : Int) (closes : ∀ i, (close i).unclosed = false) :
    (invites.map fun i => if i.id ∈ ids then close i else i).countP
      (fun i => decide (i.workspaceID = id) && i.open now) ≤
    invites.countP fun i => decide (i.workspaceID = id) && i.open now :=
  Nat.le_trans (countP_closing invites now closes)
    (List.countP_mono_left fun _ _ both => (Bool.and_eq_true_iff.mp both).1)

/-- The invites left open are not the session's own. -/
theorem countP_covered {ids : List Str} {close : Invite → Invite} (invites : List Invite)
    (now : Int) (closes : ∀ i, (close i).unclosed = false)
    (covers : ∀ i ∈ invites, i.workspaceID = id → i.unclosed = true → own i = true → i.id ∈ ids) :
    (invites.map fun i => if i.id ∈ ids then close i else i).countP
      (fun i => decide (i.workspaceID = id) && i.open now) ≤
    invites.countP fun i => decide (i.workspaceID = id) && i.open now && !own i := by
  refine Nat.le_trans (countP_closing invites now closes) (List.countP_mono_left fun i stored counted => ?_)
  simp only [Invite.open, Bool.and_eq_true, Bool.not_eq_true', decide_eq_true_eq,
    decide_eq_false_iff_not] at counted ⊢
  obtain ⟨⟨workspace, unclosed, later⟩, apart⟩ := counted
  refine ⟨⟨workspace, unclosed, later⟩, ?_⟩
  by_contra mine
  exact apart (covers i stored workspace unclosed (by simpa using mine))

theorem accepting_closed (at_ : Int) (i : Invite) : (accepting at_ i).unclosed = false := rfl

theorem revoking_closed (at_ : Int) (i : Invite) : (revoking at_ i).unclosed = false := by
  simp [Invite.unclosed, revoking]

/-- GrantMember and AcceptInvite trade an invite's seat, or a free one, for a member's. -/
theorem seats_join (own : Invite → Bool) {id' userID : Str} {role : Role} {ids : List Str}
    (within : s.db.seats id s.now ≤ limit)
    (members : x.members = [] ∨ x.members = [.insert ⟨id', userID, role⟩])
    (invites : x.invites = [closing ids (accepting x.startedAt)])
    (spare : id' = id → Spare limit id s own)
    (covers : id' = id → ∀ i ∈ s.db.invites, i.workspaceID = id → i.unclosed = true →
      own i = true → i.id ∈ ids) : (s.view x).seats id s.now ≤ limit := by
  have view := view_closing (s := s) invites
  have closed := accepting_closed x.startedAt
  have joined := view_members (s := s) members
  by_cases same : id' = id
  · have roster : ((s.view x).roster id).length ≤ (s.db.roster id).length + 1 := by
      rcases joined with unchanged | added
      · rw [Tables.roster, unchanged, ← Tables.roster]
        omega
      · rw [Tables.roster, added, List.filter_append, List.length_append, ← Tables.roster]
        have := List.length_filter_le (·.workspaceID = id) [Member.mk id' userID role]
        simpa using this
    have fewer := countP_covered s.db.invites s.now closed (covers same)
    have free := spare same
    unfold Spare Tables.taken at free
    rw [Tables.seats, view]
    omega
  · refine Nat.le_trans (Tables.seats_le ?_ (view ▸ countP_closing_le s.db.invites s.now closed)) within
    rcases joined with unchanged | added
    · rw [Tables.roster, unchanged, Tables.roster]
    · rw [roster_append added same, Tables.roster]

/-- CreateInvite trades the seat of the address's open invite, or a free one, for the new one's. -/
theorem seats_invite (own : Invite → Bool) {i : Invite} {ids : List Str}
    (within : s.db.seats id s.now ≤ limit) (members : x.members = [])
    (invites : x.invites = [closing ids (revoking x.startedAt), .insert i.inserted])
    (spare : i.workspaceID = id → Spare limit id s own)
    (covers : i.workspaceID = id → ∀ j ∈ s.db.invites, j.workspaceID = id → j.unclosed = true →
      own j = true → j.id ∈ ids) : (s.view x).seats id s.now ≤ limit := by
  have view : (s.view x).invites = (s.db.invites.map fun j =>
      if j.id ∈ ids then revoking x.startedAt j else j) ++ [i.inserted] := by
    rw [State.view, invites]
    simp [applyAll, closing, Change.apply]
  have closed := revoking_closed x.startedAt
  have roster : (s.view x).roster id = s.db.roster id := by
    simp [Tables.roster, State.view, members]
  unfold Tables.seats at within ⊢
  rw [roster, view, List.countP_append]
  by_cases same : i.workspaceID = id
  · have fewer := countP_covered s.db.invites s.now closed (covers same)
    have one : [i.inserted].countP (fun j => decide (j.workspaceID = id) && j.open s.now) ≤ 1 :=
      List.countP_le_length
    have free := spare same
    unfold Spare Tables.taken at free
    omega
  · have fewer : (s.db.invites.map fun j =>
        if j.id ∈ ids then revoking x.startedAt j else j).countP
          (fun j => decide (j.workspaceID = id) && j.open s.now) ≤
        s.db.invites.countP fun j => decide (j.workspaceID = id) && j.open s.now :=
      countP_closing_le s.db.invites s.now closed
    have none : [i.inserted].countP (fun j => decide (j.workspaceID = id) && j.open s.now) = 0 := by
      simp [Invite.inserted, same]
    omega

/-- What a commit leaves of the workspace. -/
structure Kept (limit : Nat) (id : Str) (now : Int) (db : Tables) : Prop where
  within : db.seats id now ≤ limit
  there : ∃ w ∈ db.workspaces, w.id = id

theorem Seated.kept (seated : Seated users limit id s) (x : Session) (workspaces : x.workspaces = [])
    (within : (s.view x).seats id s.now ≤ limit) : Kept limit id s.now (s.view x) where
  within := within
  there := by
    obtain ⟨w, member, same⟩ := seated.there
    exact ⟨w, by simpa [State.view, workspaces] using member, same⟩

theorem Seated.kept_create (seated : Seated users limit id s) {w : Workspace}
    (fresh : Fresh s t w.id) (workspaces : x.workspaces = [.insert w])
    (members : x.members = [.insert ⟨w.id, w.userID, .owner⟩]) (invites : x.invites = []) :
    Kept limit id s.now (s.view x) where
  within := by
    have apart : w.id ≠ id := by
      rintro rfl
      exact fresh.absent seated.there
    have joined : (s.view x).members = s.db.members ++ [⟨w.id, w.userID, .owner⟩] := by
      simp [State.view, members, applyAll, Change.apply]
    have sameInvites : (s.view x).invites = s.db.invites := by simp [State.view, invites]
    refine Nat.le_trans (Tables.seats_le ?_ (Nat.le_of_eq (by rw [sameInvites]))) seated.within
    rw [roster_append joined apart, Tables.roster]
  there := by
    obtain ⟨v, member, same⟩ := seated.there
    exact ⟨v, by simp [State.view, workspaces, applyAll, member], same⟩

theorem Seated.kept_delete (seated : Seated users limit id s) {id' : Str} {seen : List Member}
    (other : id' ≠ id) (workspaces : x.workspaces = [.delete (·.id = id')])
    (members : x.members = [.delete (· ∈ seen)])
    (invites : x.invites = [.delete (·.workspaceID = id')]) : Kept limit id s.now (s.view x) where
  within := by
    have viewMembers : (s.view x).members.Sublist s.db.members := by
      simp [State.view, members, applyAll, Change.apply]
    have viewInvites : (s.view x).invites.Sublist s.db.invites := by
      simp [State.view, invites, applyAll, Change.apply]
    exact Nat.le_trans (Tables.seats_le (viewMembers.filter _) viewInvites.countP_le) seated.within
  there := by
    obtain ⟨w, member, same⟩ := seated.there
    refine ⟨w, ?_, same⟩
    simp [State.view, workspaces, applyAll, member, same, other.symm]

theorem Seated.commit (seated : Seated users limit id s) (here : s.sessions t = some x)
    (commits : Commits s x rows x') : Kept limit id s.now (s.view x') := by
  have sure := seated.life.each t x here
  have reserved := seated.reserved t x here
  cases commits with
  | transaction at_ =>
    cases pc : x.pc <;> simp only [pc, Pc.commits, Bool.false_eq_true] at at_ <;>
      simp only [Sure, pc] at sure
    case createCommit w =>
      obtain ⟨fresh, workspaces, members, invites⟩ := sure
      exact seated.kept_create fresh workspaces members invites
    case deleteCommit id' =>
      obtain ⟨-, workspaces, ⟨seen, members⟩, invites⟩ := sure
      refine seated.kept_delete (fun same => ?_) workspaces members invites
      exact reserved.keeps (by rw [pc, ← same]; rfl)
    case grantCommit id' userID =>
      obtain ⟨-, workspaces, members, ids, invites, -, covers⟩ := sure
      refine seated.kept x workspaces (seats_join
        (fun i => users.lowerEmail userID = some i.email) seated.within (.inr members) invites ?_ ?_)
      · exact fun same => reserved.own _ (by rw [pc, ← same]; rfl)
      · rintro rfl i stored workspace unclosed mine
        exact covers seated.there i (mem_pending.mpr ⟨stored, workspace, unclosed⟩)
          (of_decide_eq_true mine)
    case inviteCommit i =>
      obtain ⟨-, -, -, -, workspaces, members, -, ids, invites, -, covers⟩ := sure
      refine seated.kept x workspaces (seats_invite (·.email = i.email) seated.within
        members invites ?_ ?_)
      · exact fun same => reserved.own _ (by rw [pc, ← same]; rfl)
      · rintro rfl j stored workspace unclosed mine
        exact covers seated.there j (mem_pending.mpr ⟨stored, workspace, unclosed⟩)
          (of_decide_eq_true mine)
    case acceptCommit id' =>
      obtain ⟨userID, i, ids, -, -, workspaces, members, invites, -⟩ := sure
      refine seated.kept x workspaces ?_
      by_cases same : id' = id
      · obtain ⟨ids, invites, spare⟩ := reserved.accepted (by rw [pc, same]; rfl)
        exact seats_join (·.id ∈ ids) seated.within members invites (fun _ => spare)
          fun _ _ _ _ _ mine => of_decide_eq_true mine
      · exact seats_join (fun _ => false) seated.within members invites
          (fun same' => absurd same' same) fun same' => absurd same' same
  | removed id' userID at_ =>
    simp only [Sure, at_] at sure
    refine seated.kept _ sure.1 (Nat.le_trans (Tables.seats_le ?_ ?_) seated.within)
    · refine List.Sublist.filter _ ?_
      simp [State.view, applyAll, Change.apply]
    · simp [State.view, sure.2.2]
  | revoked id' inviteID at_ =>
    simp only [Sure, at_] at sure
    refine seated.kept _ sure.1 (Nat.le_trans (Tables.seats_le ?_ ?_) seated.within)
    · simp [Tables.roster, State.view, sure.2.1]
    · simp only [State.view, applyAll, Change.apply, List.foldl_cons, List.foldl_nil,
        List.countP_map]
      refine List.countP_mono_left fun i _ counted => ?_
      rw [Function.comp_apply] at counted
      split at counted
      next => simp [Invite.open, Invite.unclosed] at counted
      next => exact counted

theorem step_later (stepped : step users s a = some s') : s.now ≤ s'.now := by
  cases step_effect stepped with
  | tick elapsed => exact Int.le_add_of_nonneg_right (Int.natCast_nonneg elapsed)
  | start t request s₁ pc unused started => exact Int.le_of_eq (start_same started).2.2.symm
  | stop | move | allowed | commit => exact Int.le_refl _

/-- A new session has no seat. -/
theorem start_reserved {request : Request} {s₁ : State} {pc : Pc}
    (started : request.start s = some (s₁, pc)) (keeps : (Action.start t request).deletes ≠ some id) :
    Reserved users limit id s' ⟨pc, now, [], [], []⟩ := by
  cases request with
  | delete id' userID =>
    cases Option.some.inj started
    refine ⟨?_, ?_, keeps⟩
    · intro own reserve
      cases reserve
    · intro at_
      cases at_
  | addMember | acceptInvite | removeMember | revokeInvite =>
    cases Option.some.inj started
    exact reserved_of_none rfl rfl rfl
  | create =>
    obtain ⟨-, rfl, rfl⟩ := Request.start_create started
    exact reserved_of_none rfl rfl rfl
  | createInvite =>
    obtain ⟨-, rfl, rfl⟩ := Request.start_createInvite started
    exact reserved_of_none rfl rfl rfl

theorem Seated.actor (seated : Seated users limit id s) (verdict : provided limit id s a = true)
    (time : timely users id s a = true) (keeps : a.deletes ≠ some id)
    (stepped : step users s a = some s') :
    Kept limit id s'.now s'.db ∧ ∀ t x, a.actor = some t → s'.sessions t = some x →
      Reserved users limit id s' x := by
  have unchanged : Kept limit id s.now s.db := ⟨seated.within, seated.there⟩
  cases step_effect stepped with
  | tick elapsed =>
    have later := step_later stepped
    refine ⟨⟨Nat.le_trans (s.db.seats_later id later) seated.within, seated.there⟩, ?_⟩
    intro t x acts
    cases acts
  | start v request s₁ pc unused started =>
    obtain ⟨-, db, now⟩ := start_same started
    refine ⟨?_, fun t x acts here => ?_⟩
    · change Kept limit id s₁.now s₁.db
      rw [db, now]
      exact unchanged
    · obtain rfl := Option.some.inj acts
      obtain rfl := Option.some.inj (here.symm.trans (set_self ..))
      exact start_reserved started keeps
  | stop a v y rows result acts' =>
    refine ⟨unchanged, fun t x acts here => ?_⟩
    obtain rfl := Option.some.inj (acts'.symm.trans acts)
    obtain rfl := Option.some.inj (here.symm.trans (set_self ..))
    exact reserved_of_none rfl rfl rfl
  | move v y rows y' here' free moves =>
    refine ⟨unchanged, fun t x acts here => ?_⟩
    obtain rfl := Option.some.inj acts
    obtain rfl := Option.some.inj (here.symm.trans (set_self ..))
    exact (seated.moved here' time moves).of_same rfl rfl
  | allowed v y next here' allows =>
    refine ⟨unchanged, fun t x acts here => ?_⟩
    obtain rfl := Option.some.inj acts
    obtain rfl := Option.some.inj (here.symm.trans (set_self ..))
    exact (seated.allowed here' verdict allows).of_same rfl rfl
  | commit a v lost y rows y' runs here' free commits =>
    refine ⟨seated.commit here' commits, fun t x acts here => ?_⟩
    obtain rfl := Option.some.inj ((Action.actor_of_runs runs).symm.trans acts)
    obtain rfl := Option.some.inj (here.symm.trans (set_self ..))
    exact reserved_of_none rfl rfl rfl

theorem Seated.step (seated : Seated users limit id s) (verdict : provided limit id s a = true)
    (time : timely users id s a = true) (keeps : a.deletes ≠ some id)
    (stepped : step users s a = some s') : Seated users limit id s' := by
  have progress := seated.life.step stepped
  obtain ⟨kept, own⟩ := seated.actor verdict time keeps stepped
  refine ⟨progress.life, kept.there, kept.within, fun u y started => ?_⟩
  by_cases acts : a.actor = some u
  · exact own u y acts started
  · rw [step_other stepped acts] at started
    exact (seated.reserved u y started).keep (seated.life.each u y started) seated.there
      (progress.tame u acts) (step_later stepped)

theorem seated_of_idle (life : Lifecycle users s) (idle : s.Idle) (there : Exists s id)
    (within : s.db.seats id s.now ≤ limit) : Seated users limit id s := by
  refine ⟨life, there, within, fun t x here => ?_⟩
  have finished := idle t x here
  cases pc : x.pc <;> simp only [pc, Pc.finished, Bool.false_eq_true] at finished
  exact reserved_of_none (by rw [pc]; rfl) (by rw [pc]; rfl) (by rw [pc]; rfl)

/-- From any state the store can be in with no request under way: as long as every verdict is
the provider's and no check takes an invite for open that has expired since its transaction
began, a workspace within its limit of seats stays within it, whatever the order of the
statements and the time that passes. -/
theorem seats_within_limit (users : Users) (limit : Nat) (id : Str) (now : Int)
    (earlier actions : List Action) (s₀ s : State)
    (reached : Steps.run (step users) (newStore now) earlier = some s₀) (idle : s₀.Idle)
    (there : Exists s₀ id) (within : s₀.db.seats id s₀.now ≤ limit)
    (keeps : ∀ a ∈ actions, a.deletes ≠ some id)
    (verdicts : Steps.Along (step users) (fun s a => provided limit id s a = true) s₀ actions)
    (time : Steps.Along (step users) (fun s a => timely users id s a = true) s₀ actions)
    (ran : Steps.run (step users) s₀ actions = some s) : s.db.seats id s.now ≤ limit := by
  have life : Lifecycle users s₀ := Steps.run_invariant_along
    (fun _ _ _ life _ stepped => (life.step stepped).life) (Steps.along_always _ _) reached
    (lifecycle_newStore now)
  have undeleted : Steps.Along (step users) (fun _ a => a.deletes ≠ some id) s₀ actions :=
    Steps.along_of_mem _ fun a member _ => keeps a member
  have seated : Seated users limit id s := Steps.run_invariant_along
    (fun _ _ _ seated ok stepped => seated.step ok.1.1 ok.1.2 ok.2 stepped)
    ((verdicts.and time).and undeleted) ran (seated_of_idle life idle there within)
  exact seated.within

theorem run_other {actions : List Action} (ran : Steps.run (step users) s actions = some s')
    (others : ∀ a ∈ actions, a.actor ≠ some t) : s'.sessions t = s.sessions t := by
  induction actions generalizing s with
  | nil => rw [Option.some.inj ran]
  | cons a rest ih =>
    obtain ⟨middle, first, later⟩ := Steps.run_cons ran
    rw [ih later fun b member => others b (List.mem_cons_of_mem a member)]
    exact step_other first (others a List.mem_cons_self)

/-- A new store is idle again when the few sessions of a run have ended. -/
theorem idle_of_run {actions : List Action} {few : Nat}
    (ran : Steps.run (step users) (newStore now) actions = some s)
    (actors : actions.all (fun a => a.actor.all (· < few)) = true)
    (ended : (List.range few).all (fun t => (s.sessions t).all (·.pc.finished)) = true) :
    s.Idle := by
  intro t x here
  by_cases known : t < few
  · have finished := List.all_eq_true.mp ended t (List.mem_range.mpr known)
    simpa [here] using finished
  · have unknown : s.sessions t = none := by
      rw [run_other ran fun a member acts => ?_]
      · rfl
      · have bounded := List.all_eq_true.mp actors a member
        rw [acts] at bounded
        exact known (of_decide_eq_true bounded)
    rw [unknown] at here
    cases here

def bobsNewInvite : Invite :=
  ⟨lit "invite2", lit "team", lit "bob@example.com", .member, lit "link2", 20, none, none⟩

def carolsInvite : Invite :=
  ⟨lit "invite3", lit "team", lit "carol@example.com", .member, lit "link3", 20, none, none⟩

/-- Alice has a workspace of two seats, the second one held by Bob's invite until 10. -/
def inviteBob : List Action :=
  createTeam ++ .start 1 (.createInvite (lit "alice") bobsInvite) ::
  List.replicate 4 (Action.advance 1) ++ .allow 1 true :: List.replicate 3 (Action.advance 1)

/-- Bob gets a new link at 9 and Carol no invite. -/
def newLinkInTime : List Action :=
  .tick 9 :: .start 2 (.createInvite (lit "alice") bobsNewInvite) ::
  List.replicate 7 (Action.advance 2) ++
  .start 3 (.createInvite (lit "alice") carolsInvite) :: List.replicate 4 (Action.advance 3) ++
  [.allow 3 false]

theorem seats_within_limit_newLinkInTime : ∃ s₀ s : State,
    Steps.run (step aliceAndBob) (newStore 0) inviteBob = some s₀ ∧ s₀.Idle ∧
    Steps.run (step aliceAndBob) s₀ newLinkInTime = some s ∧ s.db.seats (lit "team") s.now ≤ 2 := by
  have starts : (Steps.run (step aliceAndBob) (newStore 0) inviteBob).any (fun s₀ =>
      (List.range 2).all (fun t => (s₀.sessions t).all (·.pc.finished)) &&
      s₀.db.workspaces.any (·.id = lit "team") && decide (s₀.db.seats (lit "team") s₀.now ≤ 2) &&
      decide (Steps.Along (step aliceAndBob)
        (fun s a => provided 2 (lit "team") s a = true) s₀ newLinkInTime) &&
      decide (Steps.Along (step aliceAndBob)
        (fun s a => timely aliceAndBob (lit "team") s a = true) s₀ newLinkInTime) &&
      (Steps.run (step aliceAndBob) s₀ newLinkInTime).isSome) = true := by
    decide +kernel
  obtain ⟨s₀, reached, facts⟩ := (Option.any_eq_true _ _).mp starts
  simp only [Bool.and_eq_true, decide_eq_true_eq] at facts
  obtain ⟨⟨⟨⟨⟨ended, found⟩, within⟩, verdicts⟩, time⟩, ends⟩ := facts
  obtain ⟨s, ran⟩ := Option.isSome_iff_exists.mp ends
  obtain ⟨w, member, same⟩ := List.any_eq_true.mp found
  have idle := idle_of_run reached (by decide +kernel) ended
  exact ⟨s₀, s, reached, idle, ran, seats_within_limit aliceAndBob 2 (lit "team") 0 inviteBob
    newLinkInTime s₀ s reached idle ⟨w, member, of_decide_eq_true same⟩ within (by decide +kernel)
    verdicts time ran⟩

/-- The request for Bob's new link begins at 9 and waits for the lock of the one for Carol's
invite, whose seat check at 11 finds Bob's seat free. Then Bob's first invite still counts as
open and the check is skipped. -/
def newLinkTooLate : List Action :=
  .tick 9 :: .start 2 (.createInvite (lit "alice") bobsNewInvite) ::
  List.replicate 2 (Action.advance 2) ++
  .start 3 (.createInvite (lit "alice") carolsInvite) :: List.replicate 3 (Action.advance 3) ++
  .tick 2 :: .advance 3 :: .allow 3 true :: List.replicate 3 (Action.advance 3) ++
  List.replicate 5 (Action.advance 2)

theorem stale_invite_exceeds_limit : ∃ s₀ s : State,
    Steps.run (step aliceAndBob) (newStore 0) inviteBob = some s₀ ∧ s₀.Idle ∧
    Exists s₀ (lit "team") ∧ s₀.db.seats (lit "team") s₀.now ≤ 2 ∧
    (∀ a ∈ newLinkTooLate, a.deletes ≠ some (lit "team")) ∧
    Steps.Along (step aliceAndBob) (fun s a => provided 2 (lit "team") s a = true) s₀
      newLinkTooLate ∧
    Steps.run (step aliceAndBob) s₀ newLinkTooLate = some s ∧
    s.db.seats (lit "team") s.now = 3 := by
  have starts : (Steps.run (step aliceAndBob) (newStore 0) inviteBob).any (fun s₀ =>
      (List.range 2).all (fun t => (s₀.sessions t).all (·.pc.finished)) &&
      s₀.db.workspaces.any (·.id = lit "team") && decide (s₀.db.seats (lit "team") s₀.now ≤ 2) &&
      decide (Steps.Along (step aliceAndBob)
        (fun s a => provided 2 (lit "team") s a = true) s₀ newLinkTooLate) &&
      (Steps.run (step aliceAndBob) s₀ newLinkTooLate).any fun s =>
        decide (s.db.seats (lit "team") s.now = 3)) = true := by
    decide +kernel
  obtain ⟨s₀, reached, facts⟩ := (Option.any_eq_true _ _).mp starts
  simp only [Bool.and_eq_true, decide_eq_true_eq] at facts
  obtain ⟨⟨⟨⟨ended, found⟩, within⟩, verdicts⟩, ends⟩ := facts
  obtain ⟨s, ran, exceeds⟩ := (Option.any_eq_true _ _).mp ends
  obtain ⟨w, member, same⟩ := List.any_eq_true.mp found
  exact ⟨s₀, s, reached, idle_of_run reached (by decide +kernel) ended,
    ⟨w, member, of_decide_eq_true same⟩, within, by decide +kernel, verdicts, ran,
    of_decide_eq_true exceeds⟩

end Tracium.Membership
