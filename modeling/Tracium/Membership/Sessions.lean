import Tracium.Membership.Store

/-! What a session of the workspace store may rely on while other sessions run. Each place
of the code has a stake in one workspace: that nobody else creates it, that its row is
locked, or that it is gone for good. -/
namespace Tracium.Membership

open Go ReadCommitted

def Exists (s : State) (id : Str) : Prop := ∃ w ∈ s.db.workspaces, w.id = id

namespace Pc

/-- The id of a workspace that is not committed yet. -/
def creates : Pc → Option Str
  | .createWorkspace w | .createOwner w | .createCommit w => some w.id
  | _ => none

/-- The link the session was started with or has read. -/
def link : Pc → Option (Str × Str)
  | .inviteCheckOwner _ i | .inviteBegin i | .inviteLock i | .inviteCheck i | .inviteAllow i
  | .inviteReplace i | .inviteInsert i | .inviteCommit i => some (i.tokenHash, i.workspaceID)
  | .acceptLock tokenHash _ workspaceID | .acceptLoad tokenHash _ workspaceID =>
    some (tokenHash, workspaceID)
  | _ => none

end Pc

inductive Stake
  | nothing
  | fresh (id : Str)
  | settled (id : Str)
  | attended (id : Str)
  | holds (id : Str)
  | clears (id : Str)
  | notCreator (id userID : Str)

def Pc.stake : Pc → Stake
  | .createWorkspace w | .createOwner w | .createCommit w => .fresh w.id
  | .deleteMembers id => .holds id
  | .deleteCommit id => .clears id
  | .grantBegin id _ | .grantLock id _ => .settled id
  | .grantCheck id _ | .grantAllow id _ _ | .grantInsert id _ | .grantClose id _
  | .grantCommit id _ => .holds id
  | .inviteBegin i | .inviteLock i => .settled i.workspaceID
  | .inviteCheck i | .inviteAllow i | .inviteReplace i | .inviteInsert i => .attended i.workspaceID
  | .inviteCommit i => .holds i.workspaceID
  | .acceptLock _ _ id => .settled id
  | .acceptLoad _ _ id => .attended id
  | .acceptAllow id _ _ _ | .acceptInsert id _ _ _ | .acceptClose id _ _ _ | .acceptCommit id =>
    .holds id
  | .removeIsOwner id _ => .settled id
  | .removeDelete id userID => .notCreator id userID
  | _ => .nothing

/-- The id was drawn for this session's workspace alone. -/
structure Fresh (s : State) (t : Nat) (id : Str) : Prop where
  drawn : id ∈ s.ids
  absent : ¬ Exists s id
  alone : ∀ u x, u ≠ t → s.sessions u = some x → x.pc.creates ≠ some id

/-- The workspace was committed at some time, so nobody will create it. -/
structure Settled (s : State) (id : Str) : Prop where
  drawn : id ∈ s.ids
  nobody : ∀ u x, s.sessions u = some x → x.pc.creates ≠ some id

structure Holds (s : State) (t : Nat) (id : Str) : Prop where
  locked : s.locks (.workspace id) = some t
  there : Exists s id

def Stake.Ok (s : State) (t : Nat) (x : Session) : Stake → Prop
  | .nothing => True
  | .fresh id => Fresh s t id
  | .settled id => Settled s id
  | .attended id => Settled s id ∧ (Holds s t id ∨ ¬ Exists s id)
  | .holds id => Holds s t id
  | .clears id => Holds s t id ∧ ∃ seen : List Member, x.members = [.delete (· ∈ seen)] ∧
      (∀ m ∈ seen, m.workspaceID = id) ∧ ∀ m ∈ s.db.members, m.workspaceID = id → m ∈ seen
  | .notCreator id userID => Settled s id ∧ ∀ w ∈ s.db.workspaces, w.id = id → w.userID ≠ userID

/-- Changes that close invites and move none to another workspace or link. -/
def Closing (changes : List (Change Invite)) : Prop :=
  ∀ c ∈ changes, ∃ rows set, c = .update rows set ∧
    ∀ i, (set i).workspaceID = i.workspaceID ∧ (set i).tokenHash = i.tokenHash

/-- Changes that only add members of one workspace. -/
def Joining (id : Str) (changes : List (Change Member)) : Prop :=
  ∀ c ∈ changes, ∃ m, c = .insert m ∧ m.workspaceID = id

/-- What a session has changed when it reaches each statement. -/
def Shape (x : Session) : Prop :=
  match x.pc with
  | .createOwner w => x.workspaces = [.insert w] ∧ x.members = [] ∧ x.invites = []
  | .createCommit w => x.workspaces = [.insert w] ∧
      x.members = [.insert ⟨w.id, w.userID, .owner⟩] ∧ x.invites = []
  | .deleteMembers id => x.workspaces = [.delete (·.id = id)] ∧ x.members = [] ∧
      x.invites = [.delete (·.workspaceID = id)]
  | .deleteCommit id => x.workspaces = [.delete (·.id = id)] ∧
      x.invites = [.delete (·.workspaceID = id)]
  | .grantCheck id _ | .grantAllow id _ _ | .grantInsert id _ | .grantClose id _ | .grantCommit id _
  | .acceptAllow id _ _ _ | .acceptInsert id _ _ _ | .acceptClose id _ _ _ | .acceptCommit id =>
      x.workspaces = [] ∧ Joining id x.members ∧ Closing x.invites
  | .inviteInsert _ => x.workspaces = [] ∧ x.members = [] ∧ Closing x.invites
  | .inviteCommit i => x.workspaces = [] ∧ x.members = [] ∧
      ∃ closed, x.invites = closed ++ [.insert i.inserted] ∧ Closing closed
  | _ => x.workspaces = [] ∧ x.members = [] ∧ x.invites = []

structure SessionOk (s : State) (t : Nat) (x : Session) : Prop where
  shape : Shape x
  stake : x.pc.stake.Ok s t x
  link : ∀ l, x.pc.link = some l → l ∈ s.links

/-- What other sessions may do, as session `u` sees it: they remove no workspace it has
locked and add no member to it, and only their creator adds workspaces. -/
structure Respects (u : Nat) (s s' : State) : Prop where
  ids : ∀ id ∈ s.ids, id ∈ s'.ids
  links : ∀ l ∈ s.links, l ∈ s'.links
  creates : ∀ v x', s'.sessions v = some x' → ∀ id ∈ s.ids, x'.pc.creates = some id →
    ∃ x, s.sessions v = some x ∧ x.pc.creates = some id
  locks : ∀ row, s.locks row = some u → s'.locks row = some u
  kept : ∀ id, Holds s u id → Exists s' id
  joined : ∀ id, Holds s u id → ∀ m ∈ s'.db.members, m.workspaceID = id → m ∈ s.db.members
  added : ∀ w ∈ s'.db.workspaces, w ∈ s.db.workspaces ∨
    ∃ v x, v ≠ u ∧ s.sessions v = some x ∧ x.pc.creates = some w.id

variable {s s' : State} {t u : Nat} {x : Session} {id : Str}

theorem Settled.keep (settled : Settled s id) (respects : Respects u s s') : Settled s' id := by
  refine ⟨respects.ids id settled.drawn, fun v x' started creating => ?_⟩
  obtain ⟨x, old, creates⟩ := respects.creates v x' started id settled.drawn creating
  exact settled.nobody v x old creates

theorem Settled.absent_keep (settled : Settled s id) (respects : Respects u s s')
    (absent : ¬ Exists s id) : ¬ Exists s' id := by
  rintro ⟨w, member, rfl⟩
  rcases respects.added w member with old | ⟨v, x, -, started, creating⟩
  · exact absent ⟨w, old, rfl⟩
  · exact settled.nobody v x started creating

theorem Fresh.keep (fresh : Fresh s u id) (respects : Respects u s s') : Fresh s' u id := by
  refine ⟨respects.ids id fresh.drawn, ?_, fun v x' other started creating => ?_⟩
  · rintro ⟨w, member, rfl⟩
    rcases respects.added w member with old | ⟨v, x, other, started, creating⟩
    · exact fresh.absent ⟨w, old, rfl⟩
    · exact fresh.alone v x other started creating
  · obtain ⟨x, old, creates⟩ := respects.creates v x' started id fresh.drawn creating
    exact fresh.alone v x other old creates

theorem Holds.keep (holds : Holds s u id) (respects : Respects u s s') : Holds s' u id :=
  ⟨respects.locks _ holds.locked, respects.kept id holds⟩

theorem Holds.exclusive (mine : Holds s t id) (theirs : Holds s u id) : u = t :=
  Option.some.inj (theirs.locked.symm.trans mine.locked)

theorem Stake.Ok.keep {stake : Stake} (ok : stake.Ok s u x) (respects : Respects u s s') :
    stake.Ok s' u x := by
  cases stake with
  | nothing => trivial
  | fresh id => exact Fresh.keep ok respects
  | settled id => exact Settled.keep ok respects
  | attended id =>
    obtain ⟨settled, holds | absent⟩ := ok
    · exact ⟨settled.keep respects, .inl (holds.keep respects)⟩
    · exact ⟨settled.keep respects, .inr (settled.absent_keep respects absent)⟩
  | holds id => exact Holds.keep ok respects
  | clears id =>
    obtain ⟨holds, seen, deletes, only, all⟩ := ok
    exact ⟨holds.keep respects, seen, deletes, only, fun m member same =>
      all m (respects.joined id holds m member same) same⟩
  | notCreator id userID =>
    obtain ⟨settled, other⟩ := ok
    refine ⟨settled.keep respects, fun w member same => ?_⟩
    rcases respects.added w member with old | ⟨v, x, -, started, creating⟩
    · exact other w old same
    · exact absurd (same ▸ creating) (settled.nobody v x started)

theorem SessionOk.keep (ok : SessionOk s u x) (respects : Respects u s s') : SessionOk s' u x :=
  ⟨ok.shape, ok.stake.keep respects, fun l linked => respects.links l (ok.link l linked)⟩

end Tracium.Membership
