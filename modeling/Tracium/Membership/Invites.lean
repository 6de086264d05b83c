import Mathlib.Data.List.Pairwise
import Tracium.Membership.Rely

/-! The life of an invite over every interleaving of the store's statements: it is opened
once, closed at most once, and an address has at most one unclosed invite in a workspace it
is no member of. -/
namespace Tracium.Membership

open Go ReadCommitted

variable (users : Users)

/-- What holds of the committed invites. -/
structure InvitesOk (db : Tables) : Prop where
  placed : ∀ i ∈ db.invites, ∃ w ∈ db.workspaces, w.id = i.workspaceID
  ids : db.invites.Pairwise fun i j => i.id ≠ j.id
  tokens : db.invites.Pairwise fun i j => i.tokenHash ≠ j.tokenHash
  single : db.invites.Pairwise fun i j => i.unclosed = true → j.unclosed = true →
    i.workspaceID = j.workspaceID → i.email ≠ j.email
  once : ∀ i ∈ db.invites, i.acceptedAt ≠ none → i.revokedAt = none
  strangers : ∀ i ∈ db.invites, i.unclosed = true → ∀ m ∈ db.members,
    m.workspaceID = i.workspaceID → users.Unlike m.userID i.email

structure Lifecycle (s : State) : Prop where
  ok : InvitesOk users s.db
  drawn : ∀ w ∈ s.db.workspaces, w.id ∈ s.ids
  linked : ∀ i ∈ s.db.invites, (i.tokenHash, i.workspaceID) ∈ s.links
  links : ∀ tokenHash a b, (tokenHash, a) ∈ s.links → (tokenHash, b) ∈ s.links → a = b
  each : ∀ t x, s.sessions t = some x → Sure users s t x

/-- What the tables a session commits may change. -/
structure Lawful (s : State) (t : Nat) (pc : Pc) (db : Tables) : Prop where
  ok : InvitesOk users db
  drawn : ∀ w ∈ db.workspaces, w.id ∈ s.ids
  linked : ∀ i ∈ db.invites, (i.tokenHash, i.workspaceID) ∈ s.links
  kept : ∀ u, u ≠ t → ∀ id, Holds s u id → ∃ w ∈ db.workspaces, w.id = id
  added : ∀ w ∈ db.workspaces, w ∈ s.db.workspaces ∨ pc.creates = some w.id
  roster : ∀ u, u ≠ t → ∀ id, Holds s u id → (db.roster id).Sublist (s.db.roster id)
  pending : ∀ u, u ≠ t → ∀ id, Holds s u id → (db.pending id).Sublist (s.db.pending id)
  pinned : ∀ u, u ≠ t → ∀ i, s.locks (.invite i.id) = some u →
    (i ∈ db.invites ↔ i ∈ s.db.invites)
  arrived : ∀ u, u ≠ t → ∀ id, Holds s u id → ∀ j ∈ db.invites, j.workspaceID = id →
    ∃ i ∈ s.db.invites, Advances i j
  invites : ∀ j ∈ db.invites, (∃ i ∈ s.db.invites, Advances i j) ∨
    pc.inviting = some j.tokenHash

variable {users} {s s' : State} {t u : Nat} {x x' : Session} {id : Str} {rows : List Row}

theorem Lawful.tame {db : Tables} {result : Except Error Unit} (lawful : Lawful users s t x.pc db)
    (here : s.sessions t = some x) (other : u ≠ t) :
    Tame u s ({ s with db := db }.finish t result) where
  ids := fun _ drawn => drawn
  links := fun _ drawn => drawn
  creates := by
    intro v y started id _ creating
    rcases Steps.update_eq_some started with ⟨rfl, ⟨⟩⟩ | ⟨-, old⟩
    · cases creating
    · exact ⟨y, old, creating⟩
  locks := fun row held => Locks.release_other other held
  kept := lawful.kept u other
  joined := by
    intro id holds m member same
    exact (mem_roster.mp ((lawful.roster u other id holds).subset (mem_roster.mpr ⟨member, same⟩))).1
  added := by
    intro w member
    rcases lawful.added w member with old | creating
    · exact .inl old
    · exact .inr ⟨t, x, other.symm, here, creating⟩
  tokens := by
    intro v y started h _ inviting
    rcases Steps.update_eq_some started with ⟨rfl, ⟨⟩⟩ | ⟨-, old⟩
    · cases inviting
    · exact ⟨y, old, inviting⟩
  inserted := by
    intro j member
    rcases lawful.invites j member with ⟨i, old, advances⟩ | inviting
    · exact .inl ⟨i, old, advances.same.2.2.2.symm⟩
    · exact .inr ⟨t, x, other.symm, here, inviting⟩
  roster := lawful.roster u other
  pending := lawful.pending u other
  pinned := lawful.pinned u other
  arrived := by
    intro id holds j member same
    obtain ⟨i, old, advances⟩ := lawful.arrived u other id holds j member same
    obtain ⟨sameID, workspace, -⟩ := advances.same
    exact ⟨i, old, sameID.symm, workspace.symm.trans same⟩

theorem Lifecycle.finish (life : Lifecycle users s) {db : Tables} {result : Except Error Unit}
    (lawful : Lawful users s t x.pc db) (here : s.sessions t = some x) :
    Lifecycle users ({ s with db := db }.finish t result) := by
  refine ⟨lawful.ok, lawful.drawn, lawful.linked, life.links, fun u y started => ?_⟩
  rcases Steps.update_eq_some started with ⟨rfl, ⟨⟩⟩ | ⟨other, old⟩
  · exact ⟨rfl, rfl, rfl⟩
  · exact (life.each u y old).keep (lawful.tame here other)

theorem Lifecycle.lawful_self (life : Lifecycle users s) (pc : Pc) : Lawful users s t pc s.db where
  ok := life.ok
  drawn := life.drawn
  linked := life.linked
  kept := fun _ _ _ holds => holds.there
  added := fun _ member => .inl member
  roster := fun _ _ _ _ => .refl _
  pending := fun _ _ _ _ => .refl _
  pinned := fun _ _ _ _ => .rfl
  arrived := fun _ _ _ _ j member _ => ⟨j, member, .inl rfl⟩
  invites := fun j member => .inl ⟨j, member, .inl rfl⟩

theorem tame_lock {rows : List Row} (free : ∀ row ∈ rows, s.locks.free t row = true) :
    Tame u s (s.lock t rows) :=
  .of_same (fun _ h => h) (fun _ h => h) (fun _ y h _ _ c => ⟨y, h, c⟩)
    (fun _ y h _ _ c => ⟨y, h, c⟩) (fun _ held => Locks.acquire_other free held) rfl

theorem Lifecycle.lock (life : Lifecycle users s) {rows : List Row}
    (free : ∀ row ∈ rows, s.locks.free t row = true) : Lifecycle users (s.lock t rows) :=
  ⟨life.ok, life.drawn, life.linked, life.links,
    fun u y started => (life.each u y started).keep (tame_lock free)⟩

/-- A session moves on with the ids and the link it has. -/
theorem tame_set (here : s.sessions t = some x)
    (creates : x'.pc.creates = none ∨ x'.pc.creates = x.pc.creates)
    (inviting : x'.pc.inviting = none ∨ x'.pc.inviting = x.pc.inviting) :
    Tame u s (s.set t x') := by
  refine .of_same (fun _ h => h) (fun _ h => h) ?_ ?_ (fun _ held => held) rfl
  · intro v y started id _ creating
    rcases Steps.update_eq_some started with ⟨rfl, ⟨⟩⟩ | ⟨-, old⟩
    · rcases creates with none | same
      · rw [none] at creating
        cases creating
      · exact ⟨x, here, same ▸ creating⟩
    · exact ⟨y, old, creating⟩
  · intro v y started h _ asked
    rcases Steps.update_eq_some started with ⟨rfl, ⟨⟩⟩ | ⟨-, old⟩
    · rcases inviting with none | same
      · rw [none] at asked
        cases asked
      · exact ⟨x, here, same ▸ asked⟩
    · exact ⟨y, old, asked⟩

theorem Lifecycle.set (life : Lifecycle users s) (here : s.sessions t = some x)
    (creates : x'.pc.creates = none ∨ x'.pc.creates = x.pc.creates)
    (inviting : x'.pc.inviting = none ∨ x'.pc.inviting = x.pc.inviting)
    (own : Sure users s t x') : Lifecycle users (s.set t x') := by
  refine ⟨life.ok, life.drawn, life.linked, life.links, fun u y started => ?_⟩
  rcases Steps.update_eq_some started with ⟨rfl, ⟨⟩⟩ | ⟨-, old⟩
  · exact own.keep (tame_set here creates inviting)
  · exact (life.each u y old).keep (tame_set here creates inviting)

theorem filter_map_sublist {α : Type} {p : α → Bool} {f : α → α} {l : List α}
    (kept : ∀ a ∈ l, p (f a) = true → f a = a) : ((l.map f).filter p).Sublist (l.filter p) := by
  induction l with
  | nil => exact .slnil
  | cons a rest ih =>
    have ih := ih fun b member => kept b (List.mem_cons_of_mem a member)
    cases passes : p (f a) with
    | true =>
      have same := kept a List.mem_cons_self passes
      rw [same] at passes
      simp only [List.map_cons, same, List.filter_cons, passes, if_true]
      exact ih.cons_cons a
    | false =>
      rw [List.map_cons, List.filter_cons, if_neg (by simp [passes]), List.filter_cons]
      split
      exacts [ih.cons a, ih]

/-- An address has one unclosed invite in a workspace. -/
theorem InvitesOk.eq_of_address {db : Tables} (ok : InvitesOk users db) {i j : Invite}
    (first : i ∈ db.invites) (second : j ∈ db.invites) (open₁ : i.unclosed = true)
    (open₂ : j.unclosed = true) (workspace : i.workspaceID = j.workspaceID)
    (email : i.email = j.email) : i = j := by
  by_contra apart
  have symmetric : Std.Symm fun i j : Invite => i.unclosed = true → j.unclosed = true →
      i.workspaceID = j.workspaceID → i.email ≠ j.email :=
    ⟨fun i j apart open₁ open₂ workspace email => apart open₂ open₁ workspace.symm email.symm⟩
  exact ok.single.forall first second apart open₁ open₂ workspace email

/-- Closing invites leaves the rest of the table as it was. -/
theorem InvitesOk.advance {db db' : Tables} {f : Invite → Invite} (ok : InvitesOk users db)
    (workspaces : db'.workspaces = db.workspaces) (invites : db'.invites = db.invites.map f)
    (advances : ∀ i ∈ db.invites, Advances i (f i))
    (strangers : ∀ i ∈ db'.invites, i.unclosed = true → ∀ m ∈ db'.members,
      m.workspaceID = i.workspaceID → users.Unlike m.userID i.email) :
    InvitesOk users db' where
  placed := by
    rw [invites, workspaces]
    intro j member
    obtain ⟨i, old, rfl⟩ := List.mem_map.mp member
    rw [(advances i old).same.2.1]
    exact ok.placed i old
  ids := by
    rw [invites, List.pairwise_map]
    refine ok.ids.imp_of_mem fun {i j} first second apart => ?_
    rw [(advances i first).same.1, (advances j second).same.1]
    exact apart
  tokens := by
    rw [invites, List.pairwise_map]
    refine ok.tokens.imp_of_mem fun {i j} first second apart => ?_
    rw [(advances i first).same.2.2.2, (advances j second).same.2.2.2]
    exact apart
  single := by
    rw [invites, List.pairwise_map]
    refine ok.single.imp_of_mem fun {i j} first second apart open₁ open₂ => ?_
    have same₁ := (advances i first).eq_of_unclosed open₁
    have same₂ := (advances j second).eq_of_unclosed open₂
    rw [same₁] at open₁ ⊢
    rw [same₂] at open₂ ⊢
    exact apart open₁ open₂
  once := by
    rw [invites]
    intro j member accepted
    obtain ⟨i, old, rfl⟩ := List.mem_map.mp member
    rcases advances i old with same | ⟨unclosed, ⟨_, same⟩ | ⟨_, same⟩⟩
    · rw [same] at accepted ⊢
      exact ok.once i old accepted
    all_goals
      simp only [Invite.unclosed, Bool.and_eq_true, Option.isNone_iff_eq_none] at unclosed
      rw [same] at accepted ⊢
    · exact unclosed.2
    · exact absurd unclosed.1 accepted
  strangers := strangers

theorem InvitesOk.insert {db db' : Tables} {i : Invite} (ok : InvitesOk users db)
    (workspaces : db'.workspaces = db.workspaces) (members : db'.members = db.members)
    (invites : db'.invites = db.invites ++ [i]) (unclosed : i.acceptedAt = none)
    (placed : ∃ w ∈ db.workspaces, w.id = i.workspaceID)
    (fresh : ∀ j ∈ db.invites, j.id ≠ i.id ∧ j.tokenHash ≠ i.tokenHash)
    (alone : ∀ j ∈ db.invites, j.unclosed = true → j.workspaceID = i.workspaceID →
      j.email ≠ i.email)
    (stranger : ∀ m ∈ db.members, m.workspaceID = i.workspaceID →
      users.Unlike m.userID i.email) : InvitesOk users db' := by
  have each : ∀ j, j ∈ db'.invites ↔ j ∈ db.invites ∨ j = i := by
    intro j
    rw [invites, List.mem_append, List.mem_singleton]
  have pairwise : ∀ {r : Invite → Invite → Prop}, db.invites.Pairwise r →
      (∀ j ∈ db.invites, r j i) → db'.invites.Pairwise r := by
    intro r old new
    rw [invites, List.pairwise_append]
    refine ⟨old, List.pairwise_singleton r i, fun j member k last => ?_⟩
    rw [List.mem_singleton.mp last]
    exact new j member
  refine ⟨?_, pairwise ok.ids fun j member => (fresh j member).1,
    pairwise ok.tokens fun j member => (fresh j member).2,
    pairwise ok.single fun j member open_ _ same => alone j member open_ same, ?_, ?_⟩
  · rw [workspaces]
    intro j member
    rcases (each j).mp member with old | rfl
    exacts [ok.placed j old, placed]
  · intro j member accepted
    rcases (each j).mp member with old | rfl
    exacts [ok.once j old accepted, absurd unclosed accepted]
  · rw [members]
    intro j member open_
    rcases (each j).mp member with old | rfl
    exacts [ok.strangers j old open_, stranger]

/-- A session that closes rows it has locked. -/
theorem Lifecycle.lawful_closing (life : Lifecycle users s) {db : Tables} {f : Invite → Invite}
    (workspaces : db.workspaces = s.db.workspaces) (invites : db.invites = s.db.invites.map f)
    (advances : ∀ i ∈ s.db.invites, Advances i (f i))
    (locked : ∀ i ∈ s.db.invites, f i ≠ i → s.locks (.invite i.id) = some t)
    (roster : ∀ u, u ≠ t → ∀ id, Holds s u id → (db.roster id).Sublist (s.db.roster id))
    (strangers : ∀ i ∈ db.invites, i.unclosed = true → ∀ m ∈ db.members,
      m.workspaceID = i.workspaceID → users.Unlike m.userID i.email) :
    Lawful users s t x.pc db := by
  have before : ∀ j ∈ db.invites, ∃ i ∈ s.db.invites, j = f i ∧ Advances i j := by
    rw [invites]
    intro j member
    obtain ⟨i, old, rfl⟩ := List.mem_map.mp member
    exact ⟨i, old, rfl, advances i old⟩
  refine ⟨life.ok.advance workspaces invites advances strangers, ?_, ?_, ?_, ?_, roster, ?_, ?_, ?_, ?_⟩
  · rw [workspaces]
    exact life.drawn
  · intro j member
    obtain ⟨i, old, -, advance⟩ := before j member
    rw [advance.same.2.1, advance.same.2.2.2]
    exact life.linked i old
  · rw [workspaces]
    exact fun _ _ _ holds => holds.there
  · rw [workspaces]
    exact fun _ member => .inl member
  · intro u other id _
    rw [Tables.pending, invites]
    refine filter_map_sublist fun i old passes => ?_
    exact (advances i old).eq_of_unclosed (Bool.and_eq_true_iff.mp passes).2
  · intro u other i theirs
    have unmoved : ∀ j ∈ s.db.invites, j.id = i.id → f j = j := by
      intro j old same
      by_contra moved
      exact other (Option.some.inj (theirs.symm.trans (same ▸ locked j old moved)))
    rw [invites, List.mem_map]
    constructor
    · rintro ⟨j, old, rfl⟩
      rw [unmoved j old (advances j old).same.1.symm]
      exact old
    · exact fun old => ⟨i, old, unmoved i old rfl⟩
  · intro u other id _ j member _
    obtain ⟨i, old, -, advance⟩ := before j member
    exact ⟨i, old, advance⟩
  · intro j member
    obtain ⟨i, old, -, advance⟩ := before j member
    exact .inl ⟨i, old, advance⟩

theorem applyAll_closing (table : List Invite) (ids : List Str) (close : Invite → Invite) :
    applyAll table [closing ids close] = table.map fun i => if i.id ∈ ids then close i else i := by
  simp [applyAll, closing, Change.apply]

theorem advances_accepting {ids : List Str} (took : Took s t ids) (at_ : Int) :
    ∀ i ∈ s.db.invites, Advances i (if i.id ∈ ids then accepting at_ i else i) := by
  intro i stored
  split
  next within => exact .inr ⟨took.unclosed i stored within, .inl ⟨at_, rfl⟩⟩
  next => exact .inl rfl

theorem advances_revoking {ids : List Str} (took : Took s t ids) (at_ : Int) :
    ∀ i ∈ s.db.invites, Advances i (if i.id ∈ ids then revoking at_ i else i) := by
  intro i stored
  split
  next within => exact .inr ⟨took.unclosed i stored within, .inr ⟨at_, rfl⟩⟩
  next => exact .inl rfl

theorem Took.locked_of_moved {ids : List Str} (took : Took s t ids) {close : Invite → Invite} :
    ∀ i ∈ s.db.invites, (if i.id ∈ ids then close i else i) ≠ i → s.locks (.invite i.id) = some t := by
  intro i stored moved
  split at moved
  next within => exact took.locked i.id within
  next => exact absurd rfl moved

/-- Nobody else holds a workspace that is attended to. -/
theorem Attends.apart (attends : Attends s t id) (other : u ≠ t) {id' : Str}
    (theirs : Holds s u id') : id ≠ id' := by
  rintro rfl
  exact other ((attends.holds theirs.there).exclusive theirs)

theorem roster_append {db : Tables} {members : List Member} {m : Member}
    (joined : db.members = members ++ [m]) {id' : Str} (apart : m.workspaceID ≠ id') :
    db.roster id' = members.filter (·.workspaceID = id') := by
  rw [Tables.roster, joined, List.filter_append]
  simp [apart]

/-- The only member of the roster that is not an old one is the one who joins. -/
theorem Lifecycle.strangers_join (life : Lifecycle users s) {db : Tables} {f : Invite → Invite}
    {userID : Str} {role : Role} (invites : db.invites = s.db.invites.map f)
    (advances : ∀ i ∈ s.db.invites, Advances i (f i))
    (members : db.members = s.db.members ∨ db.members = s.db.members ++ [⟨id, userID, role⟩])
    (closed : ∀ i ∈ s.db.pending id, users.lowerEmail userID = some i.email → f i ≠ i) :
    ∀ i ∈ db.invites, i.unclosed = true → ∀ m ∈ db.members, m.workspaceID = i.workspaceID →
      users.Unlike m.userID i.email := by
  rw [invites]
  intro j member unclosed m inRoster same
  obtain ⟨i, old, rfl⟩ := List.mem_map.mp member
  have kept := (advances i old).eq_of_unclosed unclosed
  rw [kept] at unclosed same ⊢
  have joined : m ∈ s.db.members ∨ m = ⟨id, userID, role⟩ := by
    rcases members with unchanged | added
    · exact .inl (unchanged ▸ inRoster)
    · rw [added, List.mem_append, List.mem_singleton] at inRoster
      exact inRoster
  rcases joined with known | rfl
  · exact life.ok.strangers i old unclosed m known same
  · exact fun _ addressed => closed i (mem_pending.mpr ⟨old, same.symm, unclosed⟩) addressed kept

theorem Lifecycle.exists_of_pending (life : Lifecycle users s) {i : Invite}
    (pending : i ∈ s.db.pending id) : Exists s id := by
  obtain ⟨stored, workspace, -⟩ := mem_pending.mp pending
  exact workspace ▸ life.ok.placed i stored

theorem accepting_ne {i : Invite} (unclosed : i.unclosed = true) (at_ : Int) :
    accepting at_ i ≠ i := by
  intro same
  have accepted := congrArg Invite.acceptedAt same
  simp only [Invite.unclosed, Bool.and_eq_true, Option.isNone_iff_eq_none] at unclosed
  rw [unclosed.1] at accepted
  cases accepted

theorem view_members {m : Member} (members : x.members = [] ∨ x.members = [.insert m]) :
    (s.view x).members = s.db.members ∨ (s.view x).members = s.db.members ++ [m] := by
  rcases members with none | one
  · exact .inl (by simp [State.view, none])
  · exact .inr (by simp [State.view, one, applyAll, Change.apply])

theorem view_closing {ids : List Str} {close : Invite → Invite}
    (invites : x.invites = [closing ids close]) :
    (s.view x).invites = s.db.invites.map fun i => if i.id ∈ ids then close i else i := by
  rw [State.view, invites]
  exact applyAll_closing _ _ _

/-- GrantMember and AcceptInvite: a member joins and the invites that address them close. -/
theorem Lifecycle.lawful_join (life : Lifecycle users s) {userID : Str} {role : Role}
    {ids : List Str} (attends : Attends s t id) (took : Took s t ids)
    (workspaces : x.workspaces = [])
    (members : x.members = [] ∨ x.members = [.insert ⟨id, userID, role⟩])
    (invites : x.invites = [closing ids (accepting x.startedAt)])
    (covers : ∀ i ∈ s.db.pending id, users.lowerEmail userID = some i.email → i.id ∈ ids) :
    Lawful users s t x.pc (s.view x) := by
  have view := view_closing (s := s) invites
  have inMembers := view_members (s := s) members
  refine life.lawful_closing (by simp [State.view, workspaces]) view (advances_accepting took _)
    took.locked_of_moved ?_ ?_
  · intro u other id' theirs
    rcases inMembers with unchanged | added
    · rw [Tables.roster, unchanged, Tables.roster]
    · rw [roster_append added (attends.apart other theirs), Tables.roster]
  · refine life.strangers_join view (advances_accepting took _) inMembers fun i pending addressed => ?_
    rw [if_pos (covers i pending addressed)]
    exact accepting_ne (mem_pending.mp pending).2.2 _

theorem revoking_ne {i : Invite} (unclosed : i.unclosed = true) (at_ : Int) :
    revoking at_ i ≠ i := by
  intro same
  have revoked := congrArg Invite.revokedAt same
  simp only [Invite.unclosed, Bool.and_eq_true, Option.isNone_iff_eq_none] at unclosed
  rw [unclosed.2] at revoked
  cases revoked

/-- CreateInvite: the unclosed invites of the address close and the new one opens. -/
theorem Lifecycle.lawful_invite (life : Lifecycle users s) {i : Invite} {ids : List Str}
    (drafted : Drafted s t i) (holds : Holds s t i.workspaceID)
    (stranger : Stranger users s i.workspaceID i.email) (took : Took s t ids)
    (covers : Covers s i.workspaceID (·.email = i.email) ids)
    (locked : s.locks (.invite i.id) = some t) (fresh : ∀ j ∈ s.db.invites, j.id ≠ i.id)
    (at_ : x.pc = .inviteCommit i) (workspaces : x.workspaces = []) (members : x.members = [])
    (invites : x.invites = [closing ids (revoking x.startedAt), .insert i.inserted]) :
    Lawful users s t x.pc (s.view x) := by
  let f : Invite → Invite := fun j => if j.id ∈ ids then revoking x.startedAt j else j
  let closed : Tables := { s.db with invites := s.db.invites.map f }
  have view : (s.view x).invites = closed.invites ++ [i.inserted] := by
    rw [State.view, invites]
    simp [applyAll, closing, Change.apply, closed, f]
  have sameWorkspaces : (s.view x).workspaces = closed.workspaces := by
    simp [State.view, workspaces, closed]
  have sameMembers : (s.view x).members = closed.members := by simp [State.view, members, closed]
  have advances : ∀ j ∈ s.db.invites, Advances j (f j) := advances_revoking took x.startedAt
  have closes : Lawful users s t x.pc closed := by
    refine life.lawful_closing rfl rfl advances took.locked_of_moved (fun _ _ _ _ => .refl _) ?_
    intro j member unclosed
    obtain ⟨k, old, rfl⟩ := List.mem_map.mp member
    have kept := (advances k old).eq_of_unclosed unclosed
    rw [kept] at unclosed ⊢
    exact life.ok.strangers k old unclosed
  have before : ∀ j ∈ closed.invites, ∃ k ∈ s.db.invites, j = f k ∧ Advances k j := by
    intro j member
    obtain ⟨k, old, rfl⟩ := List.mem_map.mp member
    exact ⟨k, old, rfl, advances k old⟩
  have apart : ∀ u, u ≠ t → ∀ id, Holds s u id → i.workspaceID ≠ id := by
    rintro u other _ theirs rfl
    exact other (holds.exclusive theirs)
  refine ⟨?_, by rw [sameWorkspaces]; exact life.drawn, ?_, ?_, ?_, ?_, ?_, ?_, ?_, ?_⟩
  · refine closes.ok.insert sameWorkspaces sameMembers view rfl holds.there ?_ ?_ ?_
    · intro j member
      obtain ⟨k, old, -, advance⟩ := before j member
      rw [advance.same.1, advance.same.2.2.2]
      exact ⟨fresh k old, drafted.unspent.absent k old⟩
    · intro j member unclosed same email
      obtain ⟨k, old, rfl, advance⟩ := before j member
      have kept := advance.eq_of_unclosed unclosed
      rw [kept] at unclosed same email
      have within := covers holds.there k (mem_pending.mpr ⟨old, same, unclosed⟩) email
      simp only [f, if_pos within] at kept
      exact revoking_ne unclosed _ kept
    · exact fun m member same => stranger holds.there m (mem_roster.mpr ⟨member, same⟩)
  · rw [view]
    intro j member
    rcases List.mem_append.mp member with old | new
    · exact closes.linked j old
    · rw [List.mem_singleton.mp new]
      exact drafted.linked
  · rw [sameWorkspaces]
    exact closes.kept
  · rw [sameWorkspaces]
    exact closes.added
  · intro u other id theirs
    rw [Tables.roster, sameMembers]
    exact closes.roster u other id theirs
  · intro u other id theirs
    have elsewhere : [i.inserted].filter
        (fun j => decide (j.workspaceID = id) && j.unclosed) = [] := by
      simp [Invite.inserted, apart u other id theirs]
    rw [Tables.pending, view, List.filter_append, elsewhere, List.append_nil]
    exact closes.pending u other id theirs
  · intro u other j theirs
    rw [view, List.mem_append, List.mem_singleton, closes.pinned u other j theirs]
    refine or_iff_left fun new => ?_
    rw [new] at theirs
    exact other (Option.some.inj (theirs.symm.trans locked))
  · intro u other id theirs j member same
    rw [view] at member
    rcases List.mem_append.mp member with old | new
    · exact closes.arrived u other id theirs j old same
    · rw [List.mem_singleton.mp new] at same
      exact absurd same (apart u other id theirs)
  · rw [view]
    intro j member
    rcases List.mem_append.mp member with old | new
    · exact closes.invites j old
    · rw [List.mem_singleton.mp new, at_]
      exact .inr rfl

/-- Create: nobody can have been invited to the workspace yet. -/
theorem Lifecycle.lawful_create (life : Lifecycle users s) {w : Workspace} (fresh : Fresh s t w.id)
    (at_ : x.pc = .createCommit w) (workspaces : x.workspaces = [.insert w])
    (members : x.members = [.insert ⟨w.id, w.userID, .owner⟩]) (invites : x.invites = []) :
    Lawful users s t x.pc (s.view x) := by
  have inWorkspaces : ∀ v, v ∈ (s.view x).workspaces ↔ v ∈ s.db.workspaces ∨ v = w := by
    intro v
    simp [State.view, workspaces, applyAll]
  have inMembers : (s.view x).members = s.db.members ++ [⟨w.id, w.userID, .owner⟩] := by
    simp [State.view, members, applyAll, Change.apply]
  have sameInvites : (s.view x).invites = s.db.invites := by simp [State.view, invites]
  have wider : ∀ id, Exists s id → ∃ v ∈ (s.view x).workspaces, v.id = id := by
    rintro id ⟨v, member, rfl⟩
    exact ⟨v, (inWorkspaces v).mpr (.inl member), rfl⟩
  have ok : InvitesOk users (s.view x) := by
    refine ⟨?_, ?_, ?_, ?_, ?_, ?_⟩ <;> rw [sameInvites]
    · exact fun i member => wider _ (life.ok.placed i member)
    · exact life.ok.ids
    · exact life.ok.tokens
    · exact life.ok.single
    · exact life.ok.once
    · rw [inMembers]
      intro i stored unclosed m member same
      rcases List.mem_append.mp member with old | new
      · exact life.ok.strangers i stored unclosed m old same
      · obtain ⟨v, known, there⟩ := life.ok.placed i stored
        rw [List.mem_singleton.mp new] at same
        exact absurd ⟨v, known, there.trans same.symm⟩ fresh.absent
  refine ⟨ok, ?_, by rw [sameInvites]; exact life.linked, fun _ _ id holds => wider id holds.there,
    ?_, ?_, ?_, ?_, ?_, ?_⟩
  · intro v member
    rcases (inWorkspaces v).mp member with old | rfl
    exacts [life.drawn v old, fresh.drawn]
  · intro v member
    rcases (inWorkspaces v).mp member with old | rfl
    exacts [.inl old, .inr (by rw [at_]; rfl)]
  · intro u _ id theirs
    have apart : w.id ≠ id := by
      rintro rfl
      exact fresh.absent theirs.there
    rw [roster_append inMembers apart, Tables.roster]
  · intro u _ id _
    rw [Tables.pending, sameInvites, Tables.pending]
  · intro u _ i _
    rw [sameInvites]
  · rw [sameInvites]
    exact fun _ _ _ _ j member _ => ⟨j, member, .inl rfl⟩
  · rw [sameInvites]
    exact fun j member => .inl ⟨j, member, .inl rfl⟩

/-- Delete: the workspace goes with the invites that reference it. -/
theorem Lifecycle.lawful_delete (life : Lifecycle users s) {seen : List Member}
    (clears : Clears s t id) (workspaces : x.workspaces = [.delete (·.id = id)])
    (members : x.members = [.delete (· ∈ seen)])
    (invites : x.invites = [.delete (·.workspaceID = id)]) : Lawful users s t x.pc (s.view x) := by
  have inWorkspaces : ∀ w, w ∈ (s.view x).workspaces ↔ w ∈ s.db.workspaces ∧ w.id ≠ id := by
    intro w
    simp [State.view, workspaces, applyAll]
  have viewMembers : (s.view x).members.Sublist s.db.members := by
    simp [State.view, members, applyAll, Change.apply]
  have viewInvites : (s.view x).invites = s.db.invites.filter fun i => !decide (i.workspaceID = id) := by
    simp [State.view, invites, applyAll, Change.apply]
  have sublist : (s.view x).invites.Sublist s.db.invites := by
    rw [viewInvites]
    exact List.filter_sublist
  have still : ∀ id', Exists s id' → id' ≠ id → ∃ w ∈ (s.view x).workspaces, w.id = id' := by
    rintro _ ⟨w, member, rfl⟩ apart
    exact ⟨w, (inWorkspaces w).mpr ⟨member, apart⟩, rfl⟩
  have old : ∀ i, i ∈ (s.view x).invites ↔ i ∈ s.db.invites ∧ i.workspaceID ≠ id := by
    intro i
    rw [viewInvites]
    simp
  refine ⟨⟨?_, life.ok.ids.sublist sublist, life.ok.tokens.sublist sublist,
    life.ok.single.sublist sublist, ?_, ?_⟩, ?_, ?_, ?_, ?_, ?_, ?_, ?_, ?_, ?_⟩
  · intro i member
    obtain ⟨stored, apart⟩ := (old i).mp member
    exact still _ (life.ok.placed i stored) apart
  · exact fun i member => life.ok.once i (sublist.subset member)
  · exact fun i member unclosed m known =>
      life.ok.strangers i (sublist.subset member) unclosed m (viewMembers.subset known)
  · exact fun w member => life.drawn w ((inWorkspaces w).mp member).1
  · exact fun i member => life.linked i (sublist.subset member)
  · intro u other id' theirs
    refine still id' theirs.there ?_
    rintro rfl
    exact other (clears.holds.exclusive theirs)
  · exact fun w member => .inl ((inWorkspaces w).mp member).1
  · exact fun _ _ _ _ => viewMembers.filter _
  · exact fun _ _ _ _ => sublist.filter _
  · intro u other i theirs
    rw [old]
    refine and_iff_left_of_imp fun stored same => ?_
    exact other (Option.some.inj (theirs.symm.trans (clears.locked i stored same)))
  · exact fun _ _ _ _ j member _ => ⟨j, sublist.subset member, .inl rfl⟩
  · exact fun j member => .inl ⟨j, sublist.subset member, .inl rfl⟩

/-- RemoveMember. -/
theorem Lifecycle.lawful_remove (life : Lifecycle users s) (x : Session) {rows : Member → Bool}
    (workspaces : x.workspaces = []) (members : x.members = [.delete rows])
    (invites : x.invites = []) : Lawful users s t x.pc (s.view x) := by
  have sameWorkspaces : (s.view x).workspaces = s.db.workspaces := by simp [State.view, workspaces]
  have sameInvites : (s.view x).invites = s.db.invites := by simp [State.view, invites]
  have viewMembers : (s.view x).members.Sublist s.db.members := by
    simp [State.view, members, applyAll, Change.apply]
  refine life.lawful_closing sameWorkspaces (by simp [sameInvites])
    (fun i _ => .inl rfl) (fun i _ moved => absurd rfl moved)
    (fun _ _ _ _ => viewMembers.filter _) ?_
  rw [sameInvites]
  exact fun i stored unclosed m member => life.ok.strangers i stored unclosed m (viewMembers.subset member)

/-- RevokeInvite, a statement of its own under the row's lock alone. -/
theorem Lifecycle.lawful_revoke (life : Lifecycle users s) (x : Session) {inviteID : Str} {at_ : Int}
    (locked : s.locks (.invite inviteID) = some t) (workspaces : x.workspaces = [])
    (members : x.members = [])
    (invites : x.invites = [.update (fun i => decide (i.id = inviteID) &&
      decide (i.workspaceID = id) && i.unclosed) (revoking at_)]) :
    Lawful users s t x.pc (s.view x) := by
  have view : (s.view x).invites = s.db.invites.map fun i =>
      if (decide (i.id = inviteID) && decide (i.workspaceID = id) && i.unclosed) = true then
        revoking at_ i else i := by
    simp [State.view, invites, applyAll, Change.apply]
  have sameMembers : (s.view x).members = s.db.members := by simp [State.view, members]
  have advances : ∀ i ∈ s.db.invites, Advances i
      (if (decide (i.id = inviteID) && decide (i.workspaceID = id) && i.unclosed) = true then
        revoking at_ i else i) := by
    intro i _
    split
    next picked => exact .inr ⟨(Bool.and_eq_true_iff.mp picked).2, .inr ⟨at_, rfl⟩⟩
    next => exact .inl rfl
  refine life.lawful_closing (by simp [State.view, workspaces]) view advances ?_ ?_ ?_
  · intro i _ moved
    split at moved
    next picked =>
      simp only [Bool.and_eq_true, decide_eq_true_eq] at picked
      rw [picked.1.1]
      exact locked
    next => exact absurd rfl moved
  · intro u other id' _
    rw [Tables.roster, sameMembers, Tables.roster]
  · rw [view, sameMembers]
    intro j member unclosed
    obtain ⟨i, old, rfl⟩ := List.mem_map.mp member
    have kept := (advances i old).eq_of_unclosed unclosed
    rw [kept] at unclosed ⊢
    exact life.ok.strangers i old unclosed

theorem Lifecycle.lawful_commit (life : Lifecycle users s) (here : s.sessions t = some x)
    {s₀ : State} {rows : List Row} (commits : Commits s₀ x rows x')
    (locked : ∀ row ∈ rows, s.locks row = some t) : Lawful users s t x.pc (s.view x') := by
  have sure := life.each t x here
  cases commits with
  | transaction at_ =>
    cases pc : x.pc <;> simp only [pc, Pc.commits, Bool.false_eq_true] at at_ <;>
      simp only [Sure, pc] at sure <;> rw [← pc]
    case createCommit w =>
      obtain ⟨fresh, workspaces, members, invites⟩ := sure
      exact life.lawful_create fresh pc workspaces members invites
    case deleteCommit id =>
      obtain ⟨clears, workspaces, ⟨seen, members⟩, invites⟩ := sure
      exact life.lawful_delete clears workspaces members invites
    case grantCommit id userID =>
      obtain ⟨attends, workspaces, members, ids, invites, took, covers⟩ := sure
      exact life.lawful_join attends took workspaces (.inr members) invites fun i pending =>
        covers (life.exists_of_pending pending) i pending
    case inviteCommit i =>
      obtain ⟨drafted, holds, -, stranger, workspaces, members, ⟨locked, fresh⟩, ids, invites, took,
        covers⟩ := sure
      exact life.lawful_invite drafted holds stranger took covers locked fresh pc workspaces members
        invites
    case acceptCommit id =>
      obtain ⟨userID, i, ids, attends, pinned, workspaces, members, invites, took, only⟩ := sure
      refine life.lawful_join attends took workspaces members invites fun j pending addressed => ?_
      obtain ⟨stored, workspace, unclosed⟩ := mem_pending.mp pending
      have email : j.email = i.email := Option.some.inj (addressed.symm.trans pinned.matching)
      have same := life.ok.eq_of_address stored pinned.stored unclosed
        (Bool.and_eq_true_iff.mp pinned.opened).1 (workspace.trans pinned.workspace.symm) email
      rw [only, same]
  | removed id userID at_ =>
    simp only [Sure, at_] at sure
    exact life.lawful_remove { x with
      members := [.delete fun m => m.workspaceID = id && m.userID = userID] } sure.1 rfl sure.2.2
  | revoked id inviteID at_ =>
    simp only [Sure, at_] at sure
    exact life.lawful_revoke { x with
      invites := [.update (fun i => decide (i.id = inviteID) && decide (i.workspaceID = id) &&
        i.unclosed) (revoking s₀.now)] } (locked _ List.mem_cons_self) sure.1 sure.2.1 rfl

end Tracium.Membership
