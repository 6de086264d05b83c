import Tracium.Membership.Invites

/-! Runs of the workspace store keep the invites' invariant whatever the order of their
statements, so an invite's link admits one member, once, while it is open. -/
namespace Tracium.Membership

open Go ReadCommitted

variable {users : Users} {s s' : State} {t u : Nat} {x x' : Session} {id : Str} {rows : List Row}

theorem Lifecycle.fresh (life : Lifecycle users s) (here : s.sessions t = some x)
    (creating : x.pc.creates = some id) : Fresh s t id := by
  have sure := life.each t x here
  cases pc : x.pc <;> simp only [pc, Pc.creates, reduceCtorEq, Option.some.injEq] at creating <;>
    simp only [Sure, pc] at sure
  all_goals exact creating ▸ sure.1

/-- A committed workspace is nobody's to create. -/
theorem Lifecycle.settled (life : Lifecycle users s) (there : Exists s id) : Settled s id := by
  obtain ⟨w, member, rfl⟩ := there
  refine ⟨life.drawn w member, fun u y started creating => ?_⟩
  exact (life.fresh started creating).absent ⟨w, member, rfl⟩

theorem view_blank (blank : x.Blank) : s.view x = s.db := by
  obtain ⟨workspaces, members, invites⟩ := blank
  simp [State.view, workspaces, members, invites]

theorem exists_of_isOwner {userID : Str} (owner : s.db.isOwner id userID = true) : Exists s id := by
  simp only [Tables.isOwner, List.any_eq_true, Bool.and_eq_true, decide_eq_true_eq] at owner
  obtain ⟨w, member, same, -⟩ := owner
  exact ⟨w, member, same⟩

theorem InvitesOk.eq_of_id {db : Tables} (ok : InvitesOk users db) {i j : Invite}
    (first : i ∈ db.invites) (second : j ∈ db.invites) (same : i.id = j.id) : i = j := by
  by_contra apart
  have symmetric : Std.Symm fun i j : Invite => i.id ≠ j.id := ⟨fun _ _ apart same => apart same.symm⟩
  exact ok.ids.forall first second apart same

/-- The statement that closes invites locks the unclosed ones it picks. -/
theorem Lifecycle.took (life : Lifecycle users s) {rows : Invite → Bool} {ids : List Str}
    (picked : ids = (s.db.invites.filter rows).map (·.id))
    (unclosed : ∀ i ∈ s.db.invites, rows i = true → i.unclosed = true)
    (locked : ∀ row ∈ ids.map Row.invite, s.locks row = some t) : Took s t ids where
  locked := fun k member => locked _ (List.mem_map_of_mem member)
  unclosed := by
    intro i stored within
    rw [picked] at within
    obtain ⟨j, inFilter, same⟩ := List.mem_map.mp within
    obtain ⟨stored', picks⟩ := List.mem_filter.mp inFilter
    rw [← life.ok.eq_of_id stored' stored same]
    exact unclosed j stored' picks

theorem covers_of_picked {rows : Invite → Bool} {ids : List Str} {p : Invite → Prop}
    (picked : ids = (s.db.invites.filter rows).map (·.id))
    (all : ∀ i ∈ s.db.pending id, p i → rows i = true) : Covers s id p ids := by
  intro _ i pending satisfies
  rw [picked]
  refine List.mem_map_of_mem (List.mem_filter.mpr ⟨(mem_pending.mp pending).1, ?_⟩)
  exact all i pending satisfies

/-- The owner check finds the workspace. -/
theorem Sure.authorized (sure : Sure users s t x) {caller : Str} {next : Pc}
    (at_ : x.pc.ownerCheck = some (caller, id, next)) (settled : Settled s id) :
    Sure users s t { x with pc := next } := by
  cases pc : x.pc <;>
    simp only [pc, Pc.ownerCheck, reduceCtorEq, Option.some.injEq, Prod.mk.injEq] at at_ <;>
    simp only [Sure, pc] at sure <;> obtain ⟨rfl, rfl, rfl⟩ := at_
  case grantCheckOwner => exact ⟨settled, sure⟩
  case inviteCheckOwner => exact ⟨sure.1, settled, sure.2⟩
  case removeCheckOwner => exact sure
  case revokeCheckOwner => exact sure

theorem Sure.began (sure : Sure users s t x) {next : Pc} (at_ : x.pc.begins = some next)
    (now : Int) : Sure users s t { x with pc := next, startedAt := now } := by
  cases pc : x.pc <;> simp only [pc, Pc.begins, reduceCtorEq, Option.some.injEq] at at_ <;>
    simp only [Sure, pc] at sure <;> obtain rfl := at_
  all_goals exact sure

theorem Sure.locking (sure : Sure users s t x) {next : Pc}
    (at_ : x.pc.locking = some (id, next)) : Settled s id ∧ x.Blank ∧
      (Attends s t id → Sure users s t { x with pc := next }) := by
  cases pc : x.pc <;>
    simp only [pc, Pc.locking, reduceCtorEq, Option.some.injEq, Prod.mk.injEq] at at_ <;>
    simp only [Sure, pc] at sure <;> obtain ⟨rfl, rfl⟩ := at_
  case grantLock => exact ⟨sure.1, sure.2, fun attends => ⟨attends, sure.2⟩⟩
  case inviteLock => exact ⟨sure.2.1, sure.2.2, fun attends => ⟨sure.1, attends, sure.2.2⟩⟩
  case acceptLock => exact ⟨sure.2.1, sure.2.2, fun attends => ⟨sure.1, attends, sure.2.2⟩⟩

theorem Users.Normalized.lowerEmail (normalized : users.Normalized) (userID : Str) :
    users.lowerEmail userID = users.email userID := by
  unfold Users.lowerEmail
  cases stored : users.email userID with
  | none => rfl
  | some email => exact congrArg some (normalized userID email stored)

theorem Lifecycle.sure_replace (life : Lifecycle users s) {i : Invite} {ids : List Str}
    (sure : Sure users s t x) (at_ : x.pc = .inviteReplace i)
    (picked : ids = ((s.view x).invites.filter (·.addresses i.workspaceID i.email)).map (·.id))
    (locked : ∀ row ∈ ids.map Row.invite, s.locks row = some t) :
    Sure users s t { x with
      pc := .inviteInsert i, invites := x.invites ++ [closing ids (revoking x.startedAt)] } := by
  simp only [Sure, at_] at sure
  obtain ⟨drafted, attends, stranger, blank⟩ := sure
  rw [view_blank blank] at picked
  obtain ⟨workspaces, members, invites⟩ := blank
  refine ⟨drafted, attends, stranger, workspaces, members, ids, by rw [invites]; rfl, ?_, ?_⟩
  · refine life.took picked (fun j _ picks => ?_) locked
    exact (Bool.and_eq_true_iff.mp picks).2
  · refine covers_of_picked picked fun j pending same => ?_
    obtain ⟨-, workspace, unclosed⟩ := mem_pending.mp pending
    simp [Invite.addresses, workspace, same, unclosed]

theorem Lifecycle.sure_grantClose (life : Lifecycle users s) {userID : Str} {ids : List Str}
    (sure : Sure users s t x) (at_ : x.pc = .grantClose id userID)
    (picked : ids = ((s.view x).invites.filter fun i =>
      users.addressed id userID i && i.unclosed).map (·.id))
    (locked : ∀ row ∈ ids.map Row.invite, s.locks row = some t) :
    Sure users s t { x with
      pc := .grantCommit id userID
      invites := x.invites ++ [closing ids (accepting x.startedAt)] } := by
  simp only [Sure, at_] at sure
  obtain ⟨attends, workspaces, members, invites⟩ := sure
  have same : (s.view x).invites = s.db.invites := by simp [State.view, invites]
  rw [same] at picked
  refine ⟨attends, workspaces, members, ids, by rw [invites]; rfl, ?_, ?_⟩
  · refine life.took picked (fun j _ picks => ?_) locked
    exact (Bool.and_eq_true_iff.mp picks).2
  · refine covers_of_picked picked fun j pending matching => ?_
    obtain ⟨-, workspace, unclosed⟩ := mem_pending.mp pending
    simp [Users.addressed, workspace, matching, unclosed]

theorem Lifecycle.sure_acceptClose (life : Lifecycle users s) {userID inviteID : Str} {role : Role}
    {ids : List Str} (sure : Sure users s t x) (at_ : x.pc = .acceptClose id userID inviteID role)
    (picked : ids = ((s.view x).invites.filter (·.id = inviteID)).map (·.id))
    (locked : ∀ row ∈ ids.map Row.invite, s.locks row = some t) :
    Sure users s t { x with
      pc := .acceptCommit id
      invites := x.invites ++ [closing ids (accepting x.startedAt)] } := by
  simp only [Sure, at_] at sure
  obtain ⟨attends, ⟨i, pinned, rfl, rfl⟩, workspaces, members, invites⟩ := sure
  have same : (s.view x).invites = s.db.invites := by simp [State.view, invites]
  rw [same] at picked
  refine ⟨userID, i, ids, attends, pinned, workspaces, members, by rw [invites]; rfl, ?_, ?_⟩
  · refine life.took picked (fun j stored picks => ?_) locked
    rw [life.ok.eq_of_id stored pinned.stored (of_decide_eq_true picks)]
    exact (Bool.and_eq_true_iff.mp pinned.opened).1
  · intro k
    rw [picked, List.mem_map]
    constructor
    · rintro ⟨j, picks, rfl⟩
      exact of_decide_eq_true (List.mem_filter.mp picks).2
    · rintro rfl
      exact ⟨i, List.mem_filter.mpr ⟨pinned.stored, decide_eq_true rfl⟩, rfl⟩

theorem sure_inviteInsert {i : Invite} (sure : Sure users s t x)
    (at_ : x.pc = .inviteInsert i) (there : (s.view x).hasWorkspace i.workspaceID = true)
    (keys : ∀ j ∈ (s.view x).invites, j.id ≠ i.id ∧ j.tokenHash ≠ i.tokenHash)
    (locked : ∀ row ∈ [Row.workspace i.workspaceID, .invite i.id], s.locks row = some t) :
    Sure users s t { x with
      pc := .inviteCommit i, invites := x.invites ++ [.insert i.inserted] } := by
  simp only [Sure, at_] at sure
  obtain ⟨drafted, attends, stranger, workspaces, members, ids, invites, took, covers⟩ := sure
  have exists_ : Exists s i.workspaceID := by
    obtain ⟨w, member, same⟩ := List.any_eq_true.mp there
    exact ⟨w, by simpa [State.view, workspaces] using member, of_decide_eq_true same⟩
  refine ⟨drafted, ⟨locked _ List.mem_cons_self, exists_⟩, attends, stranger, workspaces, members,
    ⟨locked _ (by simp), ?_⟩, ids, by rw [invites]; rfl, took, covers⟩
  intro j stored
  have within : (if j.id ∈ ids then revoking x.startedAt j else j) ∈ (s.view x).invites := by
    rw [view_closing invites]
    exact List.mem_map_of_mem stored
  have apart := (keys _ within).1
  split at apart <;> exact apart

theorem sure_deleteWorkspace {userID : Str}
    (sure : Sure users s t x) (at_ : x.pc = .deleteWorkspace id userID)
    (owner : (s.view x).isOwner id userID = true)
    (locked : ∀ row ∈ Row.workspace id ::
      ((s.view x).invites.filter (·.workspaceID = id)).map (fun i => .invite i.id),
      s.locks row = some t) :
    Sure users s t { x with
      pc := .deleteMembers id
      workspaces := x.workspaces ++ [.delete (·.id = id)]
      invites := x.invites ++ [.delete (·.workspaceID = id)] } := by
  simp only [Sure, at_] at sure
  rw [view_blank sure] at owner locked
  obtain ⟨workspaces, members, invites⟩ := sure
  refine ⟨⟨⟨locked _ List.mem_cons_self, exists_of_isOwner owner⟩, ?_⟩, by rw [workspaces]; rfl,
    members, by rw [invites]; rfl⟩
  intro i stored same
  apply locked
  refine List.mem_cons_of_mem _ (List.mem_map.mpr ⟨i, List.mem_filter.mpr ⟨stored, ?_⟩, rfl⟩)
  exact decide_eq_true same

/-- The invite that AcceptInvite reads by its link. -/
theorem Lifecycle.found_by_link (life : Lifecycle users s) {tokenHash : Str} {i : Invite}
    (linked : (tokenHash, id) ∈ s.links) (blank : x.Blank)
    (found : (s.view x).invites.find? (·.tokenHash = tokenHash) = some i) :
    i ∈ s.db.invites ∧ i.tokenHash = tokenHash ∧ i.workspaceID = id := by
  rw [view_blank blank] at found
  have stored := List.mem_of_find?_eq_some found
  have token : i.tokenHash = tokenHash := by simpa using List.find?_some found
  exact ⟨stored, token, life.links tokenHash _ _ (token ▸ life.linked i stored) linked⟩

theorem Lifecycle.pinned_of_found (life : Lifecycle users s) {tokenHash userID : Str} {i : Invite}
    (linked : (tokenHash, id) ∈ s.links) (blank : x.Blank)
    (found : (s.view x).invites.find? (·.tokenHash = tokenHash) = some i)
    (opened : i.open x.startedAt = true) (matching : users.lowerEmail userID = some i.email)
    (locked : s.locks (.invite i.id) = some t) :
    Pinned users s t x.startedAt id userID i ∧ i.tokenHash = tokenHash := by
  obtain ⟨stored, token, workspace⟩ := life.found_by_link linked blank found
  exact ⟨⟨stored, workspace, opened, matching, locked⟩, token⟩

theorem Lifecycle.sure_acceptLoad (life : Lifecycle users s) {tokenHash userID : Str} {i : Invite}
    {next : Pc} (sure : Sure users s t x) (at_ : x.pc = .acceptLoad tokenHash userID id)
    (found : (s.view x).invites.find? (·.tokenHash = tokenHash) = some i)
    (opened : i.open x.startedAt = true) (matching : users.lowerEmail userID = some i.email)
    (next_ : next = .acceptInsert id userID i.id i.role ∨ next = .acceptAllow id userID i.id i.role)
    (locked : s.locks (.invite i.id) = some t) : Sure users s t { x with pc := next } := by
  simp only [Sure, at_] at sure
  obtain ⟨linked, attends, blank⟩ := sure
  obtain ⟨pinned, -⟩ := life.pinned_of_found linked blank found opened matching locked
  rcases next_ with rfl | rfl
  all_goals exact ⟨attends, ⟨i, pinned, rfl, rfl⟩, blank⟩

/-- Every statement leaves its session sure of what the next one relies on. -/
theorem Lifecycle.sure_move (life : Lifecycle users (s.lock t rows))
    (here : s.sessions t = some x) (moves : Moves users s x rows x')
    (locked : ∀ row ∈ rows, (s.lock t rows).locks row = some t) :
    Sure users (s.lock t rows) t x' := by
  have sure := life.each t x here
  cases moves with
  | created w at_ =>
    simp only [Sure, at_] at sure
    obtain ⟨fresh, workspaces, members, invites⟩ := sure
    exact ⟨fresh, by rw [workspaces]; rfl, members, invites⟩
  | owned w at_ =>
    simp only [Sure, at_] at sure
    obtain ⟨fresh, workspaces, members, invites⟩ := sure
    exact ⟨fresh, workspaces, by rw [members]; rfl, invites⟩
  | deleted id userID at_ owner => exact sure_deleteWorkspace sure at_ owner locked
  | cleared id _ seen at_ =>
    simp only [Sure, at_] at sure
    obtain ⟨clears, workspaces, members, invites⟩ := sure
    exact ⟨clears, workspaces, ⟨seen, by rw [members]; rfl⟩, invites⟩
  | authorized caller id next at_ owner =>
    exact sure.authorized at_ (life.settled (exists_of_isOwner owner))
  | began next at_ => exact sure.began at_ _
  | locked id next at_ found =>
    obtain ⟨-, blank, go⟩ := sure.locking at_
    rw [view_blank blank] at found
    obtain ⟨w, member, same⟩ := List.any_eq_true.mp found
    have there : Exists (s.lock t [.workspace id]) id := ⟨w, member, of_decide_eq_true same⟩
    exact go ⟨life.settled there, .inl ⟨locked _ List.mem_cons_self, there⟩⟩
  | unlocked id next at_ missing =>
    obtain ⟨settled, blank, go⟩ := sure.locking at_
    rw [view_blank blank] at missing
    refine go ⟨settled, .inr ?_⟩
    rintro ⟨w, member, same⟩
    rw [Tables.hasWorkspace, List.any_eq_false] at missing
    exact missing w member (decide_eq_true same)
  | grantChecked id userID at_ =>
    simp only [Sure, at_] at sure
    exact sure
  | grantInserted id userID at_ =>
    simp only [Sure, at_] at sure
    obtain ⟨attends, workspaces, members, invites⟩ := sure
    exact ⟨attends, workspaces, by rw [members]; rfl, invites⟩
  | grantClosed id userID ids at_ picked => exact life.sure_grantClose sure at_ picked locked
  | inviteChecked i at_ stranger =>
    simp only [Sure, at_] at sure
    obtain ⟨drafted, attends, blank⟩ := sure
    rw [view_blank blank] at stranger
    have unknown : Stranger users (s.lock t []) i.workspaceID i.email := by
      intro _ m member normalized
      obtain ⟨known, same⟩ := mem_roster.mp member
      rw [normalized.lowerEmail]
      exact stranger m known same
    split
    all_goals exact ⟨drafted, attends, unknown, blank⟩
  | inviteReplaced i ids at_ picked => exact life.sure_replace sure at_ picked locked
  | inviteInserted i at_ there keys => exact sure_inviteInsert sure at_ there keys locked
  | acceptFound tokenHash userID i at_ found =>
    simp only [Sure, at_] at sure
    rw [view_blank sure] at found
    have stored := List.mem_of_find?_eq_some found
    have token : i.tokenHash = tokenHash := by simpa using List.find?_some found
    exact ⟨token ▸ life.linked i stored, life.settled (life.ok.placed i stored), sure⟩
  | acceptLoaded tokenHash userID id i next at_ found opened matching next_ =>
    exact life.sure_acceptLoad sure at_ found opened matching next_ (locked _ List.mem_cons_self)
  | acceptInserted id userID inviteID role at_ =>
    simp only [Sure, at_] at sure
    obtain ⟨attends, pinned, workspaces, members, invites⟩ := sure
    exact ⟨attends, pinned, workspaces, .inr (by rw [members]; rfl), invites⟩
  | acceptKept id userID inviteID role at_ =>
    simp only [Sure, at_] at sure
    obtain ⟨attends, pinned, workspaces, members, invites⟩ := sure
    exact ⟨attends, pinned, workspaces, .inl members, invites⟩
  | acceptClosed id userID inviteID role ids at_ picked =>
    exact life.sure_acceptClose sure at_ picked locked
  | removable id userID at_ =>
    simp only [Sure, at_] at sure
    exact sure

theorem Sure.allowed {next : Pc} (sure : Sure users s t x) (allows : Allows x next) :
    Sure users s t { x with pc := next } := by
  cases allows with
  | grant id userID invited at_ | invite i at_ | accept id userID inviteID role at_ =>
    simp only [Sure, at_] at sure
    exact sure

/-- What a step of the store leaves behind. -/
structure Progress (users : Users) (s : State) (a : Action) (s' : State) : Prop where
  life : Lifecycle users s'
  tame : ∀ u, a.actor ≠ some u → Tame u s s'
  invites : ∀ j ∈ s'.db.invites, (∃ i ∈ s.db.invites, Advances i j) ∨
    ∃ v x, s.sessions v = some x ∧ x.pc.inviting = some j.tokenHash

theorem Progress.of_same {a : Action} (life : Lifecycle users s')
    (tame : ∀ u, a.actor ≠ some u → Tame u s s') (db : s'.db = s.db) : Progress users s a s' :=
  ⟨life, tame, fun j member => .inl ⟨j, db ▸ member, .inl rfl⟩⟩

theorem Lifecycle.tick (life : Lifecycle users s) (elapsed : Nat) :
    Progress users s (.tick elapsed) { s with now := s.now + elapsed } := by
  have tame : ∀ u, Tame u s { s with now := s.now + elapsed } := fun u =>
    .of_same (fun _ h => h) (fun _ h => h) (fun _ y h _ _ c => ⟨y, h, c⟩)
      (fun _ y h _ _ c => ⟨y, h, c⟩) (fun _ h => h) rfl
  exact .of_same ⟨life.ok, life.drawn, life.linked, life.links,
    fun u y started => (life.each u y started).keep (tame u)⟩ (fun u _ => tame u) rfl

theorem Lifecycle.unspent (life : Lifecycle users s) (here : s.sessions t = some x)
    {tokenHash : Str} (inviting : x.pc.inviting = some tokenHash) : Unspent s t tokenHash := by
  have sure := life.each t x here
  cases pc : x.pc <;> simp only [pc, Pc.inviting, reduceCtorEq, Option.some.injEq] at inviting <;>
    simp only [Sure, pc] at sure
  all_goals exact inviting ▸ sure.1.unspent

/-- A new session draws its id or link and has changed nothing. -/
theorem Lifecycle.enter (life : Lifecycle users s) {ids : List Str} {links : List (Str × Str)}
    {pc : Pc} (a : Action) (unused : s.sessions t = none) (idsGrow : ∀ id ∈ s.ids, id ∈ ids)
    (linksGrow : ∀ l ∈ s.links, l ∈ links)
    (functional : ∀ tokenHash a b, (tokenHash, a) ∈ links → (tokenHash, b) ∈ links → a = b)
    (newID : ∀ id, pc.creates = some id → id ∉ s.ids)
    (newLink : ∀ h, pc.inviting = some h → h ∉ s.links.map Prod.fst)
    (own : Sure users ({ s with ids := ids, links := links }.set t ⟨pc, s.now, [], [], []⟩) t
      ⟨pc, s.now, [], [], []⟩) :
    Progress users s a ({ s with ids := ids, links := links }.set t ⟨pc, s.now, [], [], []⟩) := by
  have tame : ∀ u, Tame u s
      ({ s with ids := ids, links := links }.set t ⟨pc, s.now, [], [], []⟩) := by
    intro u
    refine .of_same idsGrow linksGrow ?_ ?_ (fun _ held => held) rfl
    · intro v y started id drawn creating
      rcases Steps.update_eq_some started with ⟨-, ⟨⟩⟩ | ⟨-, old⟩
      exacts [absurd drawn (newID id creating), ⟨y, old, creating⟩]
    · intro v y started h drawn inviting
      rcases Steps.update_eq_some started with ⟨-, ⟨⟩⟩ | ⟨-, old⟩
      exacts [absurd drawn (newLink h inviting), ⟨y, old, inviting⟩]
  refine .of_same ⟨life.ok, fun w member => idsGrow _ (life.drawn w member),
    fun i member => linksGrow _ (life.linked i member), functional, ?_⟩ (fun u _ => tame u) rfl
  intro u y started
  rcases Steps.update_eq_some started with ⟨rfl, ⟨⟩⟩ | ⟨-, old⟩
  exacts [own, (life.each u y old).keep (tame u)]

theorem Lifecycle.start (life : Lifecycle users s) {request : Request} {s₁ : State} {pc : Pc}
    (unused : s.sessions t = none) (started : request.start s = some (s₁, pc)) :
    Progress users s (.start t request) (s₁.set t ⟨pc, s₁.now, [], [], []⟩) := by
  cases request with
  | delete | addMember | acceptInvite | removeMember | revokeInvite =>
    cases Option.some.inj started
    exact life.enter _ unused (fun _ h => h) (fun _ h => h) life.links (fun _ h => nomatch h)
      (fun _ h => nomatch h) ⟨rfl, rfl, rfl⟩
  | create w =>
    obtain ⟨new, rfl, rfl⟩ := Request.start_create started
    refine life.enter _ unused (fun _ h => List.mem_cons_of_mem _ h) (fun _ h => h) life.links ?_
      (fun _ h => nomatch h) ⟨⟨List.mem_cons_self, ?_, ?_⟩, rfl, rfl, rfl⟩
    · rintro _ ⟨⟩
      exact new
    · rintro ⟨v, member, same⟩
      exact new (same ▸ life.drawn v member)
    · intro u y other known creating
      have old : s.sessions u = some y := (Function.update_of_ne other ..).symm.trans known
      exact new (life.fresh old creating).drawn
  | createInvite caller i =>
    obtain ⟨new, rfl, rfl⟩ := Request.start_createInvite started
    refine life.enter _ unused (fun _ h => h) (fun _ h => List.mem_cons_of_mem _ h)
      (links_cons life.links new) (fun _ h => nomatch h) ?_
      ⟨⟨⟨?_, ?_, ?_⟩, List.mem_cons_self⟩, rfl, rfl, rfl⟩
    · rintro _ ⟨⟩
      exact new
    · exact List.mem_cons_self
    · intro j stored same
      exact new (List.mem_map.mpr ⟨_, life.linked j stored, same⟩)
    · intro u y other known inviting
      have old : s.sessions u = some y := (Function.update_of_ne other ..).symm.trans known
      exact new (life.unspent old inviting).drawn

theorem Lifecycle.step (life : Lifecycle users s) {a : Action}
    (stepped : step users s a = some s') : Progress users s a s' := by
  cases step_effect stepped with
  | tick elapsed => exact life.tick elapsed
  | start t request s₁ pc unused started => exact life.start unused started
  | stop a t x rows result acts here free =>
    have locked := life.lock free
    have lawful := locked.lawful_self (t := t) x.pc
    refine .of_same (locked.finish lawful here) (fun u other => ?_) rfl
    have apart : u ≠ t := fun same => other (same ▸ acts)
    exact (lawful.tame here apart).of_lock free
  | move t x rows x' here free moves =>
    have locked := life.lock free
    have mine : ∀ row ∈ rows, (s.lock t rows).locks row = some t :=
      fun row member => Locks.acquire_self member
    obtain ⟨creates, inviting⟩ := moves.carries
    refine .of_same (locked.set here creates inviting
      (locked.sure_move here moves mine)) (fun u other => ?_) rfl
    have here' : (s.lock t rows).sessions t = some x := here
    exact (tame_set here' creates inviting).of_lock free
  | allowed t x next here allows =>
    obtain ⟨creates, inviting⟩ := allows.carries
    exact .of_same (life.set here (.inl creates) inviting ((life.each t x here).allowed allows))
      (fun u _ => tame_set here (.inl creates) inviting) rfl
  | commit a t lost x rows x' runs here free commits =>
    have locked := life.lock free
    have mine : ∀ row ∈ rows, (s.lock t rows).locks row = some t :=
      fun row member => Locks.acquire_self member
    have lawful := locked.lawful_commit here commits mine
    refine ⟨locked.finish lawful here, fun u other => ?_, fun j member => ?_⟩
    · have apart : u ≠ t := fun same => other (same ▸ Action.actor_of_runs runs)
      exact (lawful.tame here apart).of_lock free
    · rcases lawful.invites j member with old | inviting
      · exact .inl old
      · exact .inr ⟨t, x, here, inviting⟩

theorem lifecycle_newStore (now : Int) : Lifecycle users (newStore now) := by
  refine ⟨⟨?_, ?_, ?_, ?_, ?_, ?_⟩, ?_, ?_, ?_, ?_⟩ <;> simp [newStore]

end Tracium.Membership
