import Tracium.Membership.Effects

/-! What the sessions that write invites rely on. A session that has locked its workspace
sees nobody join it and no invite opened in it; a row it has locked stays as it is; the link
it was started with is nobody else's. -/
namespace Tracium.Membership

open Go ReadCommitted

def Tables.roster (db : Tables) (id : Str) : List Member := db.members.filter (·.workspaceID = id)

/-- The invites of a workspace that are neither accepted nor revoked. -/
def Tables.pending (db : Tables) (id : Str) : List Invite :=
  db.invites.filter fun i => decide (i.workspaceID = id) && i.unclosed

/-- The link of an invite that is not committed yet. -/
def Pc.inviting : Pc → Option Str
  | .inviteCheckOwner _ i | .inviteBegin i | .inviteLock i | .inviteCheck i | .inviteAllow i
  | .inviteReplace i | .inviteInsert i | .inviteCommit i => some i.tokenHash
  | _ => none

/-- An invite stays as it is, or is closed the one way or the other. -/
def Advances (i j : Invite) : Prop :=
  j = i ∨ i.unclosed = true ∧
    ((∃ at_, j = { i with acceptedAt := some at_ }) ∨ ∃ at_, j = { i with revokedAt := some at_ })

/-- The link was drawn for this session's invite alone. -/
structure Unspent (s : State) (t : Nat) (tokenHash : Str) : Prop where
  drawn : tokenHash ∈ s.links.map Prod.fst
  absent : ∀ i ∈ s.db.invites, i.tokenHash ≠ tokenHash
  alone : ∀ u x, u ≠ t → s.sessions u = some x → x.pc.inviting ≠ some tokenHash

structure Drafted (s : State) (t : Nat) (i : Invite) : Prop where
  unspent : Unspent s t i.tokenHash
  linked : (i.tokenHash, i.workspaceID) ∈ s.links

/-- Past lockWorkspace: the row is locked, or there is none and never will be. -/
structure Attends (s : State) (t : Nat) (id : Str) : Prop where
  settled : Settled s id
  found : Holds s t id ∨ ¬Exists s id

/-- The rows are locked by the session that closes them. -/
structure Took (s : State) (t : Nat) (ids : List Str) : Prop where
  locked : ∀ k ∈ ids, s.locks (.invite k) = some t
  unclosed : ∀ i ∈ s.db.invites, i.id ∈ ids → i.unclosed = true

/-- Delete has locked the workspace and every invite that references it. -/
structure Clears (s : State) (t : Nat) (id : Str) : Prop where
  holds : Holds s t id
  locked : ∀ i ∈ s.db.invites, i.workspaceID = id → s.locks (.invite i.id) = some t

/-- No other unclosed invite of the workspace satisfies `p`. -/
def Covers (s : State) (id : Str) (p : Invite → Prop) (ids : List Str) : Prop :=
  Exists s id → ∀ i ∈ s.db.pending id, p i → i.id ∈ ids

variable (users : Users)

/-- users' emails are stored as NormalizeEmail returns them, which lower leaves alone. -/
def Users.Normalized (users : Users) : Prop :=
  ∀ userID email, users.email userID = some email → users.lower email = email

/-- The address is another one than the user's. -/
def Users.Unlike (users : Users) (userID email : Str) : Prop :=
  users.Normalized → users.lowerEmail userID ≠ some email

def Stranger (s : State) (id email : Str) : Prop :=
  Exists s id → ∀ m ∈ s.db.roster id, users.Unlike m.userID email

/-- The invite AcceptInvite found open, locked since. -/
structure Pinned (s : State) (t : Nat) (startedAt : Int) (id userID : Str) (i : Invite) : Prop where
  stored : i ∈ s.db.invites
  workspace : i.workspaceID = id
  opened : i.open startedAt = true
  matching : users.lowerEmail userID = some i.email
  locked : s.locks (.invite i.id) = some t

def Session.Blank (x : Session) : Prop := x.workspaces = [] ∧ x.members = [] ∧ x.invites = []

def accepting (at_ : Int) (i : Invite) : Invite := { i with acceptedAt := some at_ }

def revoking (at_ : Int) (i : Invite) : Invite := { i with revokedAt := some at_ }

/-- What a session relies on, and what it has changed, when it reaches each statement. -/
def Sure (s : State) (t : Nat) (x : Session) : Prop :=
  match x.pc with
  | .createWorkspace w => Fresh s t w.id ∧ x.Blank
  | .createOwner w => Fresh s t w.id ∧ x.workspaces = [.insert w] ∧ x.members = [] ∧ x.invites = []
  | .createCommit w => Fresh s t w.id ∧ x.workspaces = [.insert w] ∧
      x.members = [.insert ⟨w.id, w.userID, .owner⟩] ∧ x.invites = []
  | .deleteMembers id => Clears s t id ∧ x.workspaces = [.delete (·.id = id)] ∧ x.members = [] ∧
      x.invites = [.delete (·.workspaceID = id)]
  | .deleteCommit id => Clears s t id ∧ x.workspaces = [.delete (·.id = id)] ∧
      (∃ seen : List Member, x.members = [.delete (· ∈ seen)]) ∧
      x.invites = [.delete (·.workspaceID = id)]
  | .grantBegin id _ | .grantLock id _ => Settled s id ∧ x.Blank
  | .grantCheck id _ | .grantAllow id _ _ | .grantInsert id _ => Attends s t id ∧ x.Blank
  | .grantClose id userID => Attends s t id ∧ x.workspaces = [] ∧
      x.members = [.insert ⟨id, userID, .member⟩] ∧ x.invites = []
  | .grantCommit id userID => Attends s t id ∧ x.workspaces = [] ∧
      x.members = [.insert ⟨id, userID, .member⟩] ∧
      ∃ ids, x.invites = [closing ids (accepting x.startedAt)] ∧ Took s t ids ∧
        Covers s id (fun i => users.lowerEmail userID = some i.email) ids
  | .inviteCheckOwner _ i => Drafted s t i ∧ x.Blank
  | .inviteBegin i | .inviteLock i => Drafted s t i ∧ Settled s i.workspaceID ∧ x.Blank
  | .inviteCheck i => Drafted s t i ∧ Attends s t i.workspaceID ∧ x.Blank
  | .inviteAllow i | .inviteReplace i => Drafted s t i ∧ Attends s t i.workspaceID ∧
      Stranger users s i.workspaceID i.email ∧ x.Blank
  | .inviteInsert i => Drafted s t i ∧ Attends s t i.workspaceID ∧
      Stranger users s i.workspaceID i.email ∧ x.workspaces = [] ∧ x.members = [] ∧
      ∃ ids, x.invites = [closing ids (revoking x.startedAt)] ∧ Took s t ids ∧
        Covers s i.workspaceID (·.email = i.email) ids
  | .inviteCommit i => Drafted s t i ∧ Holds s t i.workspaceID ∧ Attends s t i.workspaceID ∧
      Stranger users s i.workspaceID i.email ∧ x.workspaces = [] ∧ x.members = [] ∧
      (s.locks (.invite i.id) = some t ∧ ∀ j ∈ s.db.invites, j.id ≠ i.id) ∧
      ∃ ids, x.invites = [closing ids (revoking x.startedAt), .insert i.inserted] ∧ Took s t ids ∧
        Covers s i.workspaceID (·.email = i.email) ids
  | .acceptLock tokenHash _ id => (tokenHash, id) ∈ s.links ∧ Settled s id ∧ x.Blank
  | .acceptLoad tokenHash _ id => (tokenHash, id) ∈ s.links ∧ Attends s t id ∧ x.Blank
  | .acceptAllow id userID inviteID role | .acceptInsert id userID inviteID role =>
      Attends s t id ∧ (∃ i, Pinned users s t x.startedAt id userID i ∧ i.id = inviteID ∧
        i.role = role) ∧ x.Blank
  | .acceptClose id userID inviteID role => Attends s t id ∧
      (∃ i, Pinned users s t x.startedAt id userID i ∧ i.id = inviteID ∧ i.role = role) ∧
      x.workspaces = [] ∧ (x.members = [] ∨ x.members = [.insert ⟨id, userID, role⟩]) ∧
      x.invites = []
  | .acceptCommit id => ∃ userID i ids, Attends s t id ∧
      Pinned users s t x.startedAt id userID i ∧ x.workspaces = [] ∧
      (x.members = [] ∨ x.members = [.insert ⟨id, userID, i.role⟩]) ∧
      x.invites = [closing ids (accepting x.startedAt)] ∧ Took s t ids ∧ ∀ k, k ∈ ids ↔ k = i.id
  | _ => x.Blank

/-- What other sessions may do to the tables, as session `u` sees it. -/
structure Tame (u : Nat) (s s' : State) : Prop extends Respects u s s' where
  tokens : ∀ v x', s'.sessions v = some x' → ∀ h ∈ s.links.map Prod.fst,
    x'.pc.inviting = some h → ∃ x, s.sessions v = some x ∧ x.pc.inviting = some h
  inserted : ∀ j ∈ s'.db.invites, (∃ i ∈ s.db.invites, i.tokenHash = j.tokenHash) ∨
    ∃ v x, v ≠ u ∧ s.sessions v = some x ∧ x.pc.inviting = some j.tokenHash
  roster : ∀ id, Holds s u id → (s'.db.roster id).Sublist (s.db.roster id)
  pending : ∀ id, Holds s u id → (s'.db.pending id).Sublist (s.db.pending id)
  pinned : ∀ i, s.locks (.invite i.id) = some u → (i ∈ s'.db.invites ↔ i ∈ s.db.invites)
  arrived : ∀ id, Holds s u id → ∀ j ∈ s'.db.invites, j.workspaceID = id →
    ∃ i ∈ s.db.invites, i.id = j.id ∧ i.workspaceID = id

variable {users} {s s' : State} {t u : Nat} {x : Session} {id : Str}

theorem Advances.same {i j : Invite} (advances : Advances i j) :
    j.id = i.id ∧ j.workspaceID = i.workspaceID ∧ j.email = i.email ∧ j.tokenHash = i.tokenHash := by
  rcases advances with rfl | ⟨-, ⟨_, rfl⟩ | ⟨_, rfl⟩⟩
  all_goals exact ⟨rfl, rfl, rfl, rfl⟩

/-- An invite that is unclosed has not changed. -/
theorem Advances.eq_of_unclosed {i j : Invite} (advances : Advances i j)
    (unclosed : j.unclosed = true) : j = i := by
  rcases advances with rfl | ⟨-, ⟨_, rfl⟩ | ⟨_, rfl⟩⟩
  · rfl
  all_goals simp [Invite.unclosed] at unclosed

/-- A statement keeps the id and the link of its session or has no more use for them. -/
theorem Moves.carries (moves : Moves users s x rows x') :
    (x'.pc.creates = none ∨ x'.pc.creates = x.pc.creates) ∧
      (x'.pc.inviting = none ∨ x'.pc.inviting = x.pc.inviting) := by
  cases moves with
  | authorized caller id next at_ =>
    cases pc : x.pc <;>
      simp only [pc, Pc.ownerCheck, reduceCtorEq, Option.some.injEq, Prod.mk.injEq] at at_ <;>
      obtain ⟨rfl, rfl, rfl⟩ := at_
    all_goals exact ⟨.inl rfl, .inr rfl⟩
  | began next at_ =>
    cases pc : x.pc <;> simp only [pc, Pc.begins, reduceCtorEq, Option.some.injEq] at at_ <;>
      obtain rfl := at_
    all_goals exact ⟨.inl rfl, .inr rfl⟩
  | locked id next at_ | unlocked id next at_ =>
    cases pc : x.pc <;>
      simp only [pc, Pc.locking, reduceCtorEq, Option.some.injEq, Prod.mk.injEq] at at_ <;>
      obtain ⟨rfl, rfl⟩ := at_
    all_goals exact ⟨.inl rfl, .inr rfl⟩
  | inviteChecked i at_ =>
    rw [at_]
    split
    all_goals exact ⟨.inl rfl, .inr rfl⟩
  | acceptLoaded tokenHash userID id i next at_ found opened matching next_ =>
    rcases next_ with rfl | rfl
    all_goals exact ⟨.inl rfl, .inl rfl⟩
  | created w at_ | owned w at_ => exact ⟨.inr (by rw [at_]; rfl), .inl rfl⟩
  | inviteReplaced i _ at_ | inviteInserted i at_ => exact ⟨.inl rfl, .inr (by rw [at_]; rfl)⟩
  | _ => exact ⟨.inl rfl, .inl rfl⟩

theorem Allows.carries {next : Pc} (allows : Allows x next) :
    next.creates = none ∧ (next.inviting = none ∨ next.inviting = x.pc.inviting) := by
  cases allows with
  | invite i at_ => exact ⟨rfl, .inr (by rw [at_]; rfl)⟩
  | _ => exact ⟨rfl, .inl rfl⟩

theorem mem_roster {db : Tables} {m : Member} :
    m ∈ db.roster id ↔ m ∈ db.members ∧ m.workspaceID = id := by
  simp [Tables.roster]

theorem mem_pending {db : Tables} {i : Invite} :
    i ∈ db.pending id ↔ i ∈ db.invites ∧ i.workspaceID = id ∧ i.unclosed = true := by
  simp [Tables.pending]

theorem Unspent.keep {tokenHash : Str} (unspent : Unspent s u tokenHash) (tame : Tame u s s') :
    Unspent s' u tokenHash where
  drawn := by
    obtain ⟨l, member, rfl⟩ := List.mem_map.mp unspent.drawn
    exact List.mem_map_of_mem (tame.links l member)
  absent := by
    rintro j member rfl
    rcases tame.inserted j member with ⟨i, old, same⟩ | ⟨v, x, other, started, inviting⟩
    · exact unspent.absent i old same
    · exact unspent.alone v x other started inviting
  alone := by
    intro v x' other started inviting
    obtain ⟨x, old, inviting⟩ := tame.tokens v x' started _ unspent.drawn inviting
    exact unspent.alone v x other old inviting

theorem Drafted.keep {i : Invite} (drafted : Drafted s u i) (tame : Tame u s s') :
    Drafted s' u i := ⟨drafted.unspent.keep tame, tame.links _ drafted.linked⟩

theorem Clears.keep (clears : Clears s u id) (tame : Tame u s s') : Clears s' u id where
  holds := clears.holds.keep tame.toRespects
  locked := by
    intro j stored same
    obtain ⟨i, old, sameID, workspace⟩ := tame.arrived id clears.holds j stored same
    exact tame.locks _ (sameID ▸ clears.locked i old workspace)

theorem Attends.keep (attends : Attends s u id) (tame : Tame u s s') : Attends s' u id where
  settled := attends.settled.keep tame.toRespects
  found := by
    rcases attends.found with holds | absent
    · exact .inl (holds.keep tame.toRespects)
    · exact .inr (attends.settled.absent_keep tame.toRespects absent)

/-- A workspace that is there was locked all along. -/
theorem Attends.holds (attends : Attends s u id) (there : Exists s id) : Holds s u id := by
  rcases attends.found with holds | absent
  · exact holds
  · exact absurd there absent

theorem Attends.holds_before (attends : Attends s u id) (tame : Tame u s s')
    (there : Exists s' id) : Holds s u id := by
  rcases attends.found with holds | absent
  · exact holds
  · exact absurd there (attends.settled.absent_keep tame.toRespects absent)

theorem Took.keep {ids : List Str} (took : Took s u ids) (tame : Tame u s s') : Took s' u ids where
  locked := fun k member => tame.locks _ (took.locked k member)
  unclosed := fun i stored member =>
    took.unclosed i ((tame.pinned i (took.locked i.id member)).mp stored) member

theorem Covers.keep {p : Invite → Prop} {ids : List Str} (covers : Covers s id p ids)
    (attends : Attends s u id) (tame : Tame u s s') : Covers s' id p ids := by
  intro there i pending satisfies
  have holds := attends.holds_before tame there
  exact covers holds.there i ((tame.pending id holds).subset pending) satisfies

theorem Stranger.keep {email : Str} (stranger : Stranger users s id email)
    (attends : Attends s u id) (tame : Tame u s s') : Stranger users s' id email := by
  intro there m member
  have holds := attends.holds_before tame there
  exact stranger holds.there m ((tame.roster id holds).subset member)

theorem Pinned.keep {startedAt : Int} {userID : Str} {i : Invite}
    (pinned : Pinned users s u startedAt id userID i) (tame : Tame u s s') :
    Pinned users s' u startedAt id userID i where
  stored := (tame.pinned i pinned.locked).mpr pinned.stored
  workspace := pinned.workspace
  opened := pinned.opened
  matching := pinned.matching
  locked := tame.locks _ pinned.locked

/-- Locks that were free are nobody's loss. -/
theorem Tame.of_lock {rows : List Row} (free : ∀ row ∈ rows, s.locks.free t row = true)
    (tame : Tame u (s.lock t rows) s') : Tame u s s' := by
  have held : ∀ row, s.locks row = some u → (s.lock t rows).locks row = some u :=
    fun row mine => Locks.acquire_other free mine
  have holds : ∀ id, Holds s u id → Holds (s.lock t rows) u id :=
    fun id mine => ⟨held _ mine.locked, mine.there⟩
  exact {
    ids := tame.ids
    links := tame.links
    creates := tame.creates
    locks := fun row mine => tame.locks row (held row mine)
    kept := fun id mine => tame.kept id (holds id mine)
    joined := fun id mine => tame.joined id (holds id mine)
    added := tame.added
    tokens := tame.tokens
    inserted := tame.inserted
    roster := fun id mine => tame.roster id (holds id mine)
    pending := fun id mine => tame.pending id (holds id mine)
    pinned := fun i mine => tame.pinned i (held _ mine)
    arrived := fun id mine => tame.arrived id (holds id mine) }

/-- A step that leaves the tables alone. -/
theorem Tame.of_same (ids : ∀ id ∈ s.ids, id ∈ s'.ids) (links : ∀ l ∈ s.links, l ∈ s'.links)
    (creates : ∀ v x', s'.sessions v = some x' → ∀ id ∈ s.ids, x'.pc.creates = some id →
      ∃ x, s.sessions v = some x ∧ x.pc.creates = some id)
    (tokens : ∀ v x', s'.sessions v = some x' → ∀ h ∈ s.links.map Prod.fst,
      x'.pc.inviting = some h → ∃ x, s.sessions v = some x ∧ x.pc.inviting = some h)
    (locks : ∀ row, s.locks row = some u → s'.locks row = some u) (db : s'.db = s.db) :
    Tame u s s' where
  ids := ids
  links := links
  creates := creates
  locks := locks
  kept := fun id holds => by
    rw [Exists, db]
    exact holds.there
  joined := fun _ _ m member _ => by
    rw [← db]
    exact member
  added := fun w member => .inl (by rw [← db]; exact member)
  tokens := tokens
  inserted := fun j member => .inl ⟨j, by rw [← db]; exact member, rfl⟩
  roster := fun id _ => by rw [db]
  pending := fun id _ => by rw [db]
  pinned := fun i _ => by rw [db]
  arrived := fun _ _ j member same => ⟨j, by rw [← db]; exact member, rfl, same⟩

theorem Sure.keep (sure : Sure users s u x) (tame : Tame u s s') : Sure users s' u x := by
  unfold Sure at sure ⊢
  split at sure
  case h_1 => exact ⟨sure.1.keep tame.toRespects, sure.2⟩
  case h_2 => exact ⟨sure.1.keep tame.toRespects, sure.2⟩
  case h_3 => exact ⟨sure.1.keep tame.toRespects, sure.2⟩
  case h_4 => exact ⟨sure.1.keep tame, sure.2⟩
  case h_5 => exact ⟨sure.1.keep tame, sure.2⟩
  case h_6 => exact ⟨sure.1.keep tame.toRespects, sure.2⟩
  case h_7 => exact ⟨sure.1.keep tame.toRespects, sure.2⟩
  case h_8 => exact ⟨sure.1.keep tame, sure.2⟩
  case h_9 => exact ⟨sure.1.keep tame, sure.2⟩
  case h_10 => exact ⟨sure.1.keep tame, sure.2⟩
  case h_11 => exact ⟨sure.1.keep tame, sure.2⟩
  case h_12 =>
    obtain ⟨attends, workspaces, members, ids, invites, took, covers⟩ := sure
    exact ⟨attends.keep tame, workspaces, members, ids, invites, took.keep tame,
      covers.keep attends tame⟩
  case h_13 => exact ⟨sure.1.keep tame, sure.2⟩
  case h_14 => exact ⟨sure.1.keep tame, sure.2.1.keep tame.toRespects, sure.2.2⟩
  case h_15 => exact ⟨sure.1.keep tame, sure.2.1.keep tame.toRespects, sure.2.2⟩
  case h_16 => exact ⟨sure.1.keep tame, sure.2.1.keep tame, sure.2.2⟩
  case h_17 | h_18 =>
    obtain ⟨drafted, attends, stranger, blank⟩ := sure
    exact ⟨drafted.keep tame, attends.keep tame, stranger.keep attends tame, blank⟩
  case h_19 =>
    obtain ⟨drafted, attends, stranger, workspaces, members, ids, invites, took, covers⟩ := sure
    exact ⟨drafted.keep tame, attends.keep tame, stranger.keep attends tame, workspaces, members,
      ids, invites, took.keep tame, covers.keep attends tame⟩
  case h_20 =>
    obtain ⟨drafted, holds, attends, stranger, workspaces, members, ⟨locked, free⟩, ids, invites,
      took, covers⟩ := sure
    refine ⟨drafted.keep tame, holds.keep tame.toRespects, attends.keep tame,
      stranger.keep attends tame, workspaces, members, ⟨tame.locks _ locked, ?_⟩, ids, invites,
      took.keep tame, covers.keep attends tame⟩
    intro j stored same
    exact free j ((tame.pinned j (same ▸ locked)).mp stored) same
  case h_21 => exact ⟨tame.links _ sure.1, sure.2.1.keep tame.toRespects, sure.2.2⟩
  case h_22 => exact ⟨tame.links _ sure.1, sure.2.1.keep tame, sure.2.2⟩
  case h_23 | h_24 | h_25 =>
    obtain ⟨attends, ⟨i, pinned, same⟩, rest⟩ := sure
    exact ⟨attends.keep tame, ⟨i, pinned.keep tame, same⟩, rest⟩
  case h_26 =>
    obtain ⟨userID, i, ids, attends, pinned, workspaces, members, invites, took, only⟩ := sure
    exact ⟨userID, i, ids, attends.keep tame, pinned.keep tame, workspaces, members, invites,
      took.keep tame, only⟩
  case h_27 => exact sure

end Tracium.Membership
