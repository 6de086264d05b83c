import Tracium.Membership.Sessions

/-! Referential integrity of workspace_members over every interleaving of the store's
statements. The table has no foreign key: what keeps its rows pointing at workspaces is the
row lock, and GrantMember takes none when the workspace is gone. -/
namespace Tracium.Membership

open Go ReadCommitted

/-- Every member row refers to a workspace, and every creator is its workspace's owner. -/
structure Intact (db : Tables) : Prop where
  members : ∀ m ∈ db.members, ∃ w ∈ db.workspaces, w.id = m.workspaceID
  owners : ∀ w ∈ db.workspaces, ⟨w.id, w.userID, .owner⟩ ∈ db.members

structure Invariant (s : State) : Prop where
  intact : Intact s.db
  drawn : ∀ w ∈ s.db.workspaces, w.id ∈ s.ids
  invites : ∀ i ∈ s.db.invites, (i.tokenHash, i.workspaceID) ∈ s.links ∧ Exists s i.workspaceID
  links : ∀ tokenHash a b, (tokenHash, a) ∈ s.links → (tokenHash, b) ∈ s.links → a = b
  each : ∀ t x, s.sessions t = some x → SessionOk s t x

variable {s s' : State} {t : Nat} {x x' : Session}

theorem Invariant.fresh (inv : Invariant s) (here : s.sessions t = some x) {id : Str}
    (creating : x.pc.creates = some id) : Fresh s t id := by
  have stake := (inv.each t x here).stake
  cases at_ : x.pc <;> simp only [at_, Pc.creates, reduceCtorEq, Option.some.injEq] at creating
  all_goals
    rw [at_] at stake
    exact creating ▸ stake

/-- A committed workspace is nobody's to create. -/
theorem Invariant.settled (inv : Invariant s) {id : Str} (there : Exists s id) : Settled s id := by
  obtain ⟨w, member, rfl⟩ := there
  refine ⟨inv.drawn w member, fun u y started creating => ?_⟩
  exact (inv.fresh started creating).absent ⟨w, member, rfl⟩

/-- Locks change hands only among free rows. -/
theorem Invariant.acquire (inv : Invariant s) {rows : List Row}
    (free : ∀ row ∈ rows, s.locks.free t row = true) :
    Invariant { s with locks := s.locks.acquire t rows } := by
  refine ⟨inv.intact, inv.drawn, inv.invites, inv.links, fun u y started => ?_⟩
  refine (inv.each u y started).keep ⟨fun _ h => h, fun _ h => h, fun v y' h _ _ c => ⟨y', h, c⟩,
    fun row held => Locks.acquire_other free held, fun _ holds => holds.there,
    fun _ _ _ member _ => member, fun _ member => .inl member⟩

/-- One session moves on; the tables stay. -/
theorem Invariant.set (inv : Invariant s) (here : s.sessions t = some x)
    (creates : x'.pc.creates = none ∨ x'.pc.creates = x.pc.creates) (own : SessionOk s t x') :
    Invariant (s.set t x') := by
  have respects : ∀ u, Respects u s (s.set t x') := by
    intro u
    refine ⟨fun _ h => h, fun _ h => h, fun v y started id _ creating => ?_, fun _ h => h,
      fun _ holds => holds.there, fun _ _ _ member _ => member, fun _ member => .inl member⟩
    rcases Steps.update_eq_some started with ⟨rfl, ⟨⟩⟩ | ⟨-, old⟩
    · rcases creates with none | same
      · rw [none] at creating
        cases creating
      · exact ⟨x, here, same ▸ creating⟩
    · exact ⟨y, old, creating⟩
  refine ⟨inv.intact, inv.drawn, inv.invites, inv.links, fun u y started => ?_⟩
  rcases Steps.update_eq_some started with ⟨rfl, ⟨⟩⟩ | ⟨-, old⟩
  · exact own.keep (respects u)
  · exact (inv.each u y old).keep (respects u)

/-- A transaction ends: its locks are free and its tables have its changes. -/
theorem Invariant.finish (inv : Invariant s) (db : Tables) (result : Except Error Unit)
    (respects : ∀ u, u ≠ t → Respects u s ({ s with db := db }.finish t result))
    (intact : Intact db) (drawn : ∀ w ∈ db.workspaces, w.id ∈ s.ids)
    (invites : ∀ i ∈ db.invites, (i.tokenHash, i.workspaceID) ∈ s.links ∧
      ∃ w ∈ db.workspaces, w.id = i.workspaceID) :
    Invariant ({ s with db := db }.finish t result) := by
  refine ⟨intact, drawn, invites, inv.links, fun u y started => ?_⟩
  rcases Steps.update_eq_some started with ⟨rfl, ⟨⟩⟩ | ⟨other, old⟩
  · exact ⟨⟨rfl, rfl, rfl⟩, trivial, fun _ linked => by cases linked⟩
  · exact (inv.each u y old).keep (respects u other)

/-- What the others see of a transaction's end. -/
theorem respects_finish {db : Tables} {result : Except Error Unit} {u : Nat} (other : u ≠ t)
    (kept : ∀ id, Holds s u id → ∃ w ∈ db.workspaces, w.id = id)
    (joined : ∀ id, Holds s u id → ∀ m ∈ db.members, m.workspaceID = id → m ∈ s.db.members)
    (added : ∀ w ∈ db.workspaces, w ∈ s.db.workspaces ∨
      ∃ x, s.sessions t = some x ∧ x.pc.creates = some w.id) :
    Respects u s ({ s with db := db }.finish t result) := by
  refine ⟨fun _ h => h, fun _ h => h, fun v y started id _ creating => ?_,
    fun row held => Locks.release_other other held, kept, joined, fun w member => ?_⟩
  · rcases Steps.update_eq_some started with ⟨rfl, ⟨⟩⟩ | ⟨-, old⟩
    · cases creating
    · exact ⟨y, old, creating⟩
  · rcases added w member with old | ⟨x, started, creating⟩
    · exact .inl old
    · exact .inr ⟨t, x, other.symm, started, creating⟩

/-- A rollback. -/
theorem Invariant.abandon (inv : Invariant s) (result : Except Error Unit) :
    Invariant (s.finish t result) :=
  inv.finish s.db result
    (fun _ other => respects_finish other (fun _ holds => holds.there)
      (fun _ _ _ member _ => member) fun _ member => .inl member)
    inv.intact inv.drawn inv.invites

/-- A transaction that adds rows only to workspaces it has locked. -/
theorem Invariant.commit_adding (inv : Invariant s) (workspaces : x.workspaces = [])
    (members : ∀ c ∈ x.members, ∃ m, c = .insert m ∧ Holds s t m.workspaceID)
    (inserted : ∀ i, .insert i ∈ x.invites →
      (i.tokenHash, i.workspaceID) ∈ s.links ∧ Holds s t i.workspaceID)
    (updated : ∀ rows set, .update rows set ∈ x.invites → ∀ i,
      (set i).workspaceID = i.workspaceID ∧ (set i).tokenHash = i.tokenHash) :
    Invariant (s.commit t x false) := by
  have same : (s.view x).workspaces = s.db.workspaces := by simp [State.view, workspaces]
  have old : ∀ m ∈ s.db.members, m ∈ (s.view x).members := fun m member =>
    mem_applyAll_of_inserts (fun c within => (members c within).imp fun _ h => h.1) member
  have new : ∀ m ∈ (s.view x).members, m ∈ s.db.members ∨ Holds s t m.workspaceID := by
    refine forall_mem_applyAll (fun m member => .inl member) (fun m within => ?_) ?_
    · obtain ⟨_, ⟨⟩, holds⟩ := members _ within
      exact .inr holds
    · intro rows set within
      obtain ⟨_, ⟨⟩, -⟩ := members _ within
  refine inv.finish (s.view x) (.ok ()) (fun u other => ?_) ⟨?_, ?_⟩ ?_ ?_
  · refine respects_finish other (fun id holds => by rw [same]; exact holds.there) ?_
      fun w member => .inl (same ▸ member)
    rintro _ theirs m member rfl
    rcases new m member with known | mine
    exacts [known, absurd (mine.exclusive theirs) other]
  · intro m member
    rw [same]
    rcases new m member with known | mine
    exacts [inv.intact.members m known, mine.there]
  · intro w member
    exact old _ (inv.intact.owners w (same ▸ member))
  · intro w member
    exact inv.drawn w (same ▸ member)
  · rw [same]
    refine forall_mem_applyAll inv.invites (fun i within => ?_) fun rows set within i ok => ?_
    · exact ⟨(inserted i within).1, (inserted i within).2.there⟩
    · obtain ⟨workspace, token⟩ := updated rows set within i
      rw [workspace, token]
      exact ok

/-- Create: the workspace and its owner row appear together. -/
theorem Invariant.commit_create (inv : Invariant s) (here : s.sessions t = some x) {w : Workspace}
    (at_ : x.pc = .createCommit w) : Invariant (s.commit t x false) := by
  have ok := inv.each t x here
  have fresh : Fresh s t w.id := by
    have stake := ok.stake
    rw [at_] at stake
    exact stake
  have shape := ok.shape
  simp only [Shape, at_] at shape
  obtain ⟨workspaces, members, invites⟩ := shape
  have inWorkspaces : ∀ v, v ∈ (s.view x).workspaces ↔ v ∈ s.db.workspaces ∨ v = w := by
    intro v
    simp [State.view, workspaces, applyAll]
  have inMembers : ∀ m, m ∈ (s.view x).members ↔
      m ∈ s.db.members ∨ m = ⟨w.id, w.userID, .owner⟩ := by
    intro m
    simp [State.view, members, applyAll]
  have wider : ∀ id, Exists s id → ∃ v ∈ (s.view x).workspaces, v.id = id := by
    rintro id ⟨v, member, rfl⟩
    exact ⟨v, (inWorkspaces v).mpr (.inl member), rfl⟩
  refine inv.finish (s.view x) (.ok ()) (fun u other => ?_) ⟨?_, ?_⟩ ?_ ?_
  · refine respects_finish other (fun id holds => wider id holds.there) ?_ ?_
    · rintro _ holds m member rfl
      rcases (inMembers m).mp member with known | rfl
      exacts [known, absurd holds.there fresh.absent]
    · intro v member
      rcases (inWorkspaces v).mp member with known | rfl
      exacts [.inl known, .inr ⟨x, here, by rw [at_]; rfl⟩]
  · intro m member
    rcases (inMembers m).mp member with known | rfl
    exacts [wider _ (inv.intact.members m known), ⟨w, (inWorkspaces w).mpr (.inr rfl), rfl⟩]
  · intro v member
    rcases (inWorkspaces v).mp member with known | rfl
    exacts [(inMembers _).mpr (.inl (inv.intact.owners v known)), (inMembers _).mpr (.inr rfl)]
  · intro v member
    rcases (inWorkspaces v).mp member with known | rfl
    exacts [inv.drawn v known, fresh.drawn]
  · intro i member
    rw [show (s.view x).invites = s.db.invites by simp [State.view, invites]] at member
    exact ⟨(inv.invites i member).1, wider _ (inv.invites i member).2⟩

/-- Delete: no member of the workspace was added since the statement that removed them. -/
theorem Invariant.commit_delete (inv : Invariant s) (here : s.sessions t = some x) {id : Str}
    (at_ : x.pc = .deleteCommit id) : Invariant (s.commit t x false) := by
  have ok := inv.each t x here
  have stake := ok.stake
  rw [at_] at stake
  obtain ⟨holds, seen, members, only, all⟩ := stake
  have shape := ok.shape
  simp only [Shape, at_] at shape
  obtain ⟨workspaces, invites⟩ := shape
  have inWorkspaces : ∀ w, w ∈ (s.view x).workspaces ↔ w ∈ s.db.workspaces ∧ w.id ≠ id := by
    intro w
    simp [State.view, workspaces, applyAll]
  have inMembers : ∀ m, m ∈ (s.view x).members ↔ m ∈ s.db.members ∧ m ∉ seen := by
    intro m
    simp [State.view, members, applyAll]
  have still : ∀ id', Exists s id' → id' ≠ id → ∃ w ∈ (s.view x).workspaces, w.id = id' := by
    rintro _ ⟨w, member, rfl⟩ apart
    exact ⟨w, (inWorkspaces w).mpr ⟨member, apart⟩, rfl⟩
  refine inv.finish (s.view x) (.ok ()) (fun u other => ?_) ⟨?_, ?_⟩ ?_ ?_
  · refine respects_finish other (fun id' theirs => ?_)
      (fun _ _ m member _ => ((inMembers m).mp member).1)
      fun w member => .inl ((inWorkspaces w).mp member).1
    refine still id' theirs.there ?_
    rintro rfl
    exact other (holds.exclusive theirs)
  · intro m member
    obtain ⟨known, unseen⟩ := (inMembers m).mp member
    exact still _ (inv.intact.members m known) fun same => unseen (all m known same)
  · intro w member
    obtain ⟨known, apart⟩ := (inWorkspaces w).mp member
    exact (inMembers _).mpr ⟨inv.intact.owners w known, fun within => apart (only _ within)⟩
  · intro w member
    exact inv.drawn w ((inWorkspaces w).mp member).1
  · intro i member
    have kept : i ∈ s.db.invites ∧ i.workspaceID ≠ id := by
      simpa [State.view, invites, applyAll] using member
    obtain ⟨linked, there⟩ := inv.invites i kept.1
    exact ⟨linked, still _ there kept.2⟩

/-- RemoveMember: the row is not its workspace's creator's. -/
theorem Invariant.commit_remove (inv : Invariant s) {workspaceID userID : Str}
    (other : ∀ w ∈ s.db.workspaces, w.id = workspaceID → w.userID ≠ userID)
    (workspaces : x.workspaces = []) (invites : x.invites = [])
    (members : x.members = [.delete fun m => m.workspaceID = workspaceID && m.userID = userID]) :
    Invariant (s.commit t x false) := by
  have sameWorkspaces : (s.view x).workspaces = s.db.workspaces := by simp [State.view, workspaces]
  have inMembers : ∀ m, m ∈ (s.view x).members ↔
      m ∈ s.db.members ∧ (m.workspaceID = workspaceID → m.userID ≠ userID) := by
    intro m
    simp [State.view, members, applyAll]
  refine inv.finish (s.view x) (.ok ()) (fun u apart => ?_) ⟨?_, ?_⟩ ?_ ?_
  · exact respects_finish apart (fun id holds => by rw [sameWorkspaces]; exact holds.there)
      (fun _ _ m member _ => ((inMembers m).mp member).1) fun w member => .inl (sameWorkspaces ▸ member)
  · intro m member
    rw [sameWorkspaces]
    exact inv.intact.members m ((inMembers m).mp member).1
  · intro w member
    rw [sameWorkspaces] at member
    exact (inMembers _).mpr ⟨inv.intact.owners w member, other w member⟩
  · intro w member
    exact inv.drawn w (sameWorkspaces ▸ member)
  · intro i member
    rw [show (s.view x).invites = s.db.invites by simp [State.view, invites]] at member
    rw [sameWorkspaces]
    exact inv.invites i member

/-- A statement that got its locks runs in a state that differs in them alone. -/
theorem Invariant.withLocks (inv : Invariant s) (here : s.sessions t = some x) {rows : List Row}
    {then_ : State → State} (stepped : s.withLocks t rows then_ = some s')
    (next : ∀ s₁ : State, Invariant s₁ → s₁.sessions t = some x → s₁.db = s.db →
      (∀ row ∈ rows, s₁.locks row = some t) → Invariant (then_ s₁)) : Invariant s' := by
  unfold State.withLocks at stepped
  split at stepped
  next free =>
    rw [List.all_eq_true] at free
    rw [← Option.some.inj stepped]
    exact next _ (inv.acquire free) here rfl fun row member => Locks.acquire_self member
  next => cases stepped

theorem hasWorkspace_iff {db : Tables} {id : Str} :
    db.hasWorkspace id = true ↔ ∃ w ∈ db.workspaces, w.id = id := by
  simp [Tables.hasWorkspace]

/-- After lockWorkspace the row is locked, or there is none and never will be. -/
theorem Invariant.lockWorkspace (inv : Invariant s) (here : s.sessions t = some x)
    (workspaces : x.workspaces = []) {id : Str} (settled : Settled s id) {next : Pc}
    (stepped : s.lockWorkspace t x id next = some s') (creates : next.creates = none)
    (own : ∀ s₁ : State, SessionOk s₁ t x → s₁.db = s.db → Settled s₁ id →
      (Holds s₁ t id ∨ ¬ Exists s₁ id) → SessionOk s₁ t { x with pc := next }) : Invariant s' := by
  have view : (s.view x).workspaces = s.db.workspaces := by simp [State.view, workspaces]
  unfold State.lockWorkspace at stepped
  split at stepped
  next found =>
    have there : Exists s id := by
      obtain ⟨w, member, same⟩ := hasWorkspace_iff.mp found
      exact ⟨w, view ▸ member, same⟩
    refine inv.withLocks here stepped fun s₁ inv₁ here₁ same locked => ?_
    have there₁ : Exists s₁ id := by rw [Exists, same]; exact there
    exact inv₁.set here₁ (.inl creates) (own s₁ (inv₁.each t x here₁) same (inv₁.settled there₁)
      (.inl ⟨locked _ List.mem_cons_self, there₁⟩))
  next missing =>
    rw [← Option.some.inj stepped]
    refine inv.set here (.inl creates) (own s (inv.each t x here) rfl settled (.inr ?_))
    rintro ⟨w, member, same⟩
    exact missing (hasWorkspace_iff.mpr ⟨w, view ▸ member, same⟩)

theorem Invariant.insertMember (inv : Invariant s) (here : s.sessions t = some x) {m : Member}
    {next : Pc} {conflict : State → State}
    (stepped : s.insertMember t x m next conflict = some s')
    (creates : next.creates = none ∨ next.creates = x.pc.creates)
    (own : ∀ s₁ : State, SessionOk s₁ t x →
      SessionOk s₁ t { x with pc := next, members := x.members ++ [.insert m] })
    (duplicate : ∀ s₁ : State, Invariant s₁ → s₁.sessions t = some x → Invariant (conflict s₁)) :
    Invariant s' := by
  refine inv.withLocks here stepped fun s₁ inv₁ here₁ _ _ => ?_
  split
  · exact duplicate s₁ inv₁ here₁
  · exact inv₁.set here₁ creates (own s₁ (inv₁.each t x here₁))

theorem Invariant.updateInvites (inv : Invariant s) (here : s.sessions t = some x)
    {rows : Invite → Bool} {change : Invite → Invite} {next : Pc}
    (stepped : s.updateInvites t x rows change next = some s') (creates : next.creates = none)
    (own : ∀ (s₁ : State) (rows' : Invite → Bool), SessionOk s₁ t x →
      SessionOk s₁ t { x with pc := next, invites := x.invites ++ [.update rows' change] }) :
    Invariant s' := by
  unfold State.updateInvites at stepped
  refine inv.withLocks here stepped fun s₁ inv₁ here₁ _ _ => ?_
  exact inv₁.set here₁ (.inl creates) (own s₁ _ (inv₁.each t x here₁))

theorem isOwner_iff {db : Tables} {id userID : Str} :
    db.isOwner id userID = true ↔ ∃ w ∈ db.workspaces, w.id = id ∧ w.userID = userID := by
  simp [Tables.isOwner]

theorem Invariant.requireOwner (inv : Invariant s) (here : s.sessions t = some x)
    {caller id : Str} {next : Pc} (creates : next.creates = none)
    (own : Settled s id → SessionOk s t { x with pc := next }) :
    Invariant (s.requireOwner t x caller id next) := by
  unfold State.requireOwner
  split
  next owned =>
    refine inv.set here (.inl creates) (own (inv.settled ?_))
    obtain ⟨w, member, same, -⟩ := isOwner_iff.mp owned
    exact ⟨w, member, same⟩
  next => exact inv.abandon _

theorem Closing.append {changes : List (Change Invite)} (closing : Closing changes)
    (rows : Invite → Bool) {set : Invite → Invite}
    (fixed : ∀ i, (set i).workspaceID = i.workspaceID ∧ (set i).tokenHash = i.tokenHash) :
    Closing (changes ++ [.update rows set]) := by
  intro c member
  rcases List.mem_append.mp member with old | new
  · exact closing c old
  · exact ⟨rows, set, List.mem_singleton.mp new, fixed⟩

theorem Closing.updates {changes : List (Change Invite)} (closing : Closing changes)
    (rows : Invite → Bool) (set : Invite → Invite) (member : .update rows set ∈ changes) (i : Invite) :
    (set i).workspaceID = i.workspaceID ∧ (set i).tokenHash = i.tokenHash := by
  obtain ⟨_, _, ⟨⟩, fixed⟩ := closing _ member
  exact fixed i

theorem Closing.insert_not_mem {changes : List (Change Invite)} (closing : Closing changes)
    (i : Invite) : .insert i ∉ changes := by
  intro member
  obtain ⟨_, _, ⟨⟩, -⟩ := closing _ member

theorem Joining.append {id : Str} {changes : List (Change Member)} (joining : Joining id changes)
    {m : Member} (same : m.workspaceID = id) : Joining id (changes ++ [.insert m]) := by
  intro c member
  rcases List.mem_append.mp member with old | new
  · exact joining c old
  · exact ⟨m, List.mem_singleton.mp new, same⟩

variable {users : Users}

theorem Invariant.createWorkspace (inv : Invariant s) (here : s.sessions t = some x) {w : Workspace}
    (at_ : x.pc = .createWorkspace w) (stepped : advance users s t x = some s') : Invariant s' := by
  have shape := (inv.each t x here).shape
  simp only [Shape, at_] at shape
  obtain ⟨workspaces, members, invites⟩ := shape
  simp only [advance, at_] at stepped
  refine inv.withLocks here stepped fun s₁ inv₁ here₁ _ _ => ?_
  have fresh := (inv₁.each t x here₁).stake
  rw [at_] at fresh
  split
  · exact inv₁.abandon _
  · exact inv₁.set here₁ (.inr (by rw [at_]; rfl))
      ⟨⟨by simp [workspaces], members, invites⟩, fresh, by simp [Pc.link]⟩

theorem Invariant.createOwner (inv : Invariant s) (here : s.sessions t = some x) {w : Workspace}
    (at_ : x.pc = .createOwner w) (stepped : advance users s t x = some s') : Invariant s' := by
  have shape := (inv.each t x here).shape
  simp only [Shape, at_] at shape
  obtain ⟨workspaces, members, invites⟩ := shape
  simp only [advance, at_] at stepped
  refine inv.insertMember here stepped (.inr (by rw [at_]; rfl)) (fun s₁ ok₁ => ?_)
    fun s₁ inv₁ _ => inv₁.abandon _
  have fresh := ok₁.stake
  rw [at_] at fresh
  exact ⟨⟨workspaces, by simp [members], invites⟩, fresh, by simp [Pc.link]⟩

theorem Invariant.deleteWorkspace (inv : Invariant s) (here : s.sessions t = some x)
    {id userID : Str} (at_ : x.pc = .deleteWorkspace id userID)
    (stepped : advance users s t x = some s') : Invariant s' := by
  have shape := (inv.each t x here).shape
  simp only [Shape, at_] at shape
  obtain ⟨workspaces, members, invites⟩ := shape
  simp only [advance, at_] at stepped
  split at stepped
  next owned =>
    refine inv.withLocks here stepped fun s₁ inv₁ here₁ same locked => ?_
    refine inv₁.set here₁ (.inl rfl)
      ⟨⟨by simp [workspaces], members, by simp [invites]⟩, ⟨locked _ List.mem_cons_self, ?_⟩,
        by simp [Pc.link]⟩
    obtain ⟨w, member, is, -⟩ := isOwner_iff.mp owned
    rw [Exists, same]
    exact ⟨w, by simpa [State.view, workspaces] using member, is⟩
  next =>
    rw [← Option.some.inj stepped]
    exact inv.abandon _

/-- The statement sees every committed member, and the row lock keeps new ones out. -/
theorem Invariant.deleteMembers (inv : Invariant s) (here : s.sessions t = some x) {id : Str}
    (at_ : x.pc = .deleteMembers id) (stepped : advance users s t x = some s') : Invariant s' := by
  have shape := (inv.each t x here).shape
  simp only [Shape, at_] at shape
  obtain ⟨workspaces, members, invites⟩ := shape
  simp only [advance, at_] at stepped
  refine inv.withLocks here stepped fun s₁ inv₁ here₁ same _ => ?_
  have holds := (inv₁.each t x here₁).stake
  rw [at_] at holds
  refine inv₁.set here₁ (.inl rfl) ⟨⟨workspaces, invites⟩,
    ⟨holds, (s.view x).members.filter (·.workspaceID = id), ?_, ?_, ?_⟩, by simp [Pc.link]⟩
  · simp [members]
  · intro m member
    simpa using (List.mem_filter.mp member).2
  · intro m member within
    rw [same] at member
    exact List.mem_filter.mpr ⟨by simpa [State.view, members] using member, by simpa using within⟩

/-- The invite is still there, so its workspace is, so the lock was taken. -/
theorem Invariant.acceptLoad (inv : Invariant s) (here : s.sessions t = some x)
    {tokenHash userID id : Str} (at_ : x.pc = .acceptLoad tokenHash userID id)
    (stepped : advance users s t x = some s') : Invariant s' := by
  have ok := inv.each t x here
  have shape := ok.shape
  simp only [Shape, at_] at shape
  obtain ⟨workspaces, members, invites⟩ := shape
  have linked : (tokenHash, id) ∈ s.links := ok.link _ (by rw [at_]; rfl)
  simp only [advance, at_] at stepped
  split at stepped
  next =>
    rw [← Option.some.inj stepped]
    exact inv.abandon _
  next i found =>
    have member : i ∈ s.db.invites := by
      simpa [State.view, invites] using List.mem_of_find?_eq_some found
    have token : i.tokenHash = tokenHash := by simpa using List.find?_some found
    obtain ⟨linked', there⟩ := inv.invites i member
    rw [token] at linked'
    have there : Exists s id := inv.links _ _ _ linked' linked ▸ there
    refine inv.withLocks here stepped fun s₁ inv₁ here₁ same _ => ?_
    have stake := (inv₁.each t x here₁).stake
    rw [at_] at stake
    have holds : Holds s₁ t id := by
      obtain ⟨-, holds | absent⟩ := stake
      · exact holds
      · exact absurd (by rw [Exists, same]; exact there) absent
    have joins : x.workspaces = [] ∧ Joining id x.members ∧ Closing x.invites := by
      refine ⟨workspaces, ?_, ?_⟩
      · simp [members, Joining]
      · simp [invites, Closing]
    split
    · exact inv₁.abandon _
    · split
      · exact inv₁.abandon _
      · split <;> exact inv₁.set here₁ (.inl rfl) ⟨joins, holds, by simp [Pc.link]⟩

/-- The foreign key finds the workspace, so the lock was taken. -/
theorem Invariant.inviteInsert (inv : Invariant s) (here : s.sessions t = some x) {i : Invite}
    (at_ : x.pc = .inviteInsert i) (stepped : advance users s t x = some s') : Invariant s' := by
  have shape := (inv.each t x here).shape
  simp only [Shape, at_] at shape
  obtain ⟨workspaces, members, closing⟩ := shape
  simp only [advance, at_] at stepped
  refine inv.withLocks here stepped fun s₁ inv₁ here₁ _ locked => ?_
  have ok₁ := inv₁.each t x here₁
  split
  next => exact inv₁.abandon _
  next valid =>
    simp only [Bool.or_eq_true, not_or, Bool.not_eq_true, Bool.not_eq_false'] at valid
    obtain ⟨w, member, same⟩ := hasWorkspace_iff.mp valid.1
    rw [show (s₁.view x).workspaces = s₁.db.workspaces by simp [State.view, workspaces]] at member
    refine inv₁.set here₁ (.inl rfl) ⟨⟨workspaces, members, x.invites, rfl, closing⟩,
      ⟨locked _ List.mem_cons_self, w, member, same⟩, fun l linked => ok₁.link l ?_⟩
    rw [at_]
    exact linked

/-- The lockWorkspace statement of every GrantMember finds its workspace. -/
def grantFindsWorkspace (s : State) : Action → Bool
  | .advance t =>
    match s.sessions t with
    | some ⟨.grantLock id _, _, _, _, _⟩ => s.db.hasWorkspace id
    | _ => true
  | _ => true

theorem Invariant.advance_grant (inv : Invariant s) (here : s.sessions t = some x)
    (finds : grantFindsWorkspace s (.advance t) = true)
    (stepped : advance users s t x = some s') {id userID : Str}
    (at_ : x.pc = .grantLock id userID) : Invariant s' := by
  have ok := inv.each t x here
  have shape := ok.shape
  have stake := ok.stake
  simp only [Shape, at_] at shape
  rw [at_] at stake
  obtain ⟨workspaces, members, invites⟩ := shape
  have there : Exists s id := by
    obtain ⟨pc, startedAt, ws, ms, is⟩ := x
    cases at_
    simp only [grantFindsWorkspace, here] at finds
    exact hasWorkspace_iff.mp finds
  simp only [advance, at_] at stepped
  refine inv.lockWorkspace here workspaces stake stepped rfl fun s₁ ok₁ same _ found => ?_
  refine ⟨⟨workspaces, by simp [members, Joining], by simp [invites, Closing]⟩, ?_, by simp [Pc.link]⟩
  rcases found with holds | absent
  · exact holds
  · exact absurd (by rw [Exists, same]; exact there) absent

theorem Invariant.grantInsert (inv : Invariant s) (here : s.sessions t = some x) {id userID : Str}
    (at_ : x.pc = .grantInsert id userID) (stepped : advance users s t x = some s') : Invariant s' := by
  have shape := (inv.each t x here).shape
  simp only [Shape, at_] at shape
  simp only [advance, at_] at stepped
  refine inv.insertMember here stepped (.inl rfl) (fun s₁ ok₁ => ?_) fun _ inv₁ _ => inv₁.abandon _
  have holds := ok₁.stake
  rw [at_] at holds
  exact ⟨⟨shape.1, shape.2.1.append rfl, shape.2.2⟩, holds, by simp [Pc.link]⟩

theorem Invariant.inviteCheck (inv : Invariant s) (here : s.sessions t = some x) {i : Invite}
    (at_ : x.pc = .inviteCheck i) (stepped : advance users s t x = some s') : Invariant s' := by
  have ok := inv.each t x here
  have shape := ok.shape
  have stake := ok.stake
  simp only [Shape, at_] at shape
  rw [at_] at stake
  have linked : ∀ l, some (i.tokenHash, i.workspaceID) = some l → l ∈ s.links :=
    fun l h => ok.link l (by rw [at_]; exact h)
  simp only [advance, at_] at stepped
  split at stepped
  · exact Option.some.inj stepped ▸ inv.abandon _
  · split at stepped <;>
      exact Option.some.inj stepped ▸ inv.set here (.inl rfl) ⟨shape, stake, linked⟩

theorem Invariant.inviteReplace (inv : Invariant s) (here : s.sessions t = some x) {i : Invite}
    (at_ : x.pc = .inviteReplace i) (stepped : advance users s t x = some s') : Invariant s' := by
  have shape := (inv.each t x here).shape
  simp only [Shape, at_] at shape
  obtain ⟨workspaces, members, invites⟩ := shape
  simp only [advance, at_] at stepped
  refine inv.updateInvites here stepped rfl fun s₁ rows ok₁ => ?_
  have attended := ok₁.stake
  rw [at_] at attended
  have closing : Closing x.invites := by simp [invites, Closing]
  exact ⟨⟨workspaces, members, closing.append rows fun _ => ⟨rfl, rfl⟩⟩, attended,
    fun l h => ok₁.link l (by rw [at_]; exact h)⟩

theorem Invariant.inviteCommit (inv : Invariant s) (here : s.sessions t = some x) {i : Invite}
    (at_ : x.pc = .inviteCommit i) (stepped : advance users s t x = some s') : Invariant s' := by
  have ok := inv.each t x here
  have shape := ok.shape
  have stake := ok.stake
  simp only [Shape, at_] at shape
  rw [at_] at stake
  obtain ⟨workspaces, members, closed, invites, closing⟩ := shape
  have linked : (i.tokenHash, i.workspaceID) ∈ s.links := ok.link _ (by rw [at_]; rfl)
  simp only [advance, at_] at stepped
  rw [← Option.some.inj stepped]
  refine inv.commit_adding workspaces (by simp [members]) (fun j member => ?_) fun rows set member => ?_
  · rw [invites] at member
    rcases List.mem_append.mp member with old | new
    · exact absurd old (closing.insert_not_mem j)
    · cases List.mem_singleton.mp new
      exact ⟨linked, stake⟩
  · rw [invites] at member
    rcases List.mem_append.mp member with old | new
    · exact closing.updates rows set old
    · cases List.mem_singleton.mp new

theorem Invariant.acceptFind (inv : Invariant s) (here : s.sessions t = some x) {tokenHash userID : Str}
    (at_ : x.pc = .acceptFind tokenHash userID) (stepped : advance users s t x = some s') : Invariant s' := by
  have shape := (inv.each t x here).shape
  simp only [Shape, at_] at shape
  simp only [advance, at_] at stepped
  split at stepped
  next => exact Option.some.inj stepped ▸ inv.abandon _
  next i found =>
    have member : i ∈ s.db.invites := by
      simpa [State.view, shape.2.2] using List.mem_of_find?_eq_some found
    have token : i.tokenHash = tokenHash := by simpa using List.find?_some found
    obtain ⟨linked, there⟩ := inv.invites i member
    rw [← Option.some.inj stepped]
    refine inv.set here (.inl rfl) ⟨shape, inv.settled there, ?_⟩
    rintro _ ⟨⟩
    exact token ▸ linked

theorem Invariant.acceptInsert (inv : Invariant s) (here : s.sessions t = some x)
    {id userID inviteID : Str} {role : Role} (at_ : x.pc = .acceptInsert id userID inviteID role)
    (stepped : advance users s t x = some s') : Invariant s' := by
  have shape := (inv.each t x here).shape
  simp only [Shape, at_] at shape
  simp only [advance, at_] at stepped
  refine inv.insertMember here stepped (.inl rfl) (fun s₁ ok₁ => ?_) fun s₁ inv₁ here₁ => ?_
  · have holds := ok₁.stake
    rw [at_] at holds
    exact ⟨⟨shape.1, shape.2.1.append rfl, shape.2.2⟩, holds, by simp [Pc.link]⟩
  · have holds := (inv₁.each t x here₁).stake
    rw [at_] at holds
    exact inv₁.set here₁ (.inl rfl) ⟨shape, holds, by simp [Pc.link]⟩

theorem Invariant.removeIsOwner (inv : Invariant s) (here : s.sessions t = some x) {id userID : Str}
    (at_ : x.pc = .removeIsOwner id userID) (stepped : advance users s t x = some s') : Invariant s' := by
  have ok := inv.each t x here
  have shape := ok.shape
  have stake := ok.stake
  simp only [Shape, at_] at shape
  rw [at_] at stake
  simp only [advance, at_] at stepped
  split at stepped
  next => exact Option.some.inj stepped ▸ inv.abandon _
  next notOwner =>
    rw [← Option.some.inj stepped]
    refine inv.set here (.inl rfl) ⟨shape, ⟨stake, fun w member same user => ?_⟩, by simp [Pc.link]⟩
    exact notOwner (isOwner_iff.mpr ⟨w, member, same, user⟩)

theorem Invariant.removeDelete (inv : Invariant s) (here : s.sessions t = some x) {id userID : Str}
    (at_ : x.pc = .removeDelete id userID) (stepped : advance users s t x = some s') : Invariant s' := by
  have shape := (inv.each t x here).shape
  simp only [Shape, at_] at shape
  simp only [advance, at_] at stepped
  split at stepped
  next =>
    refine inv.withLocks here stepped fun s₁ inv₁ here₁ _ _ => ?_
    have other := (inv₁.each t x here₁).stake
    rw [at_] at other
    exact inv₁.commit_remove other.2 shape.1 shape.2.2 rfl
  next => exact Option.some.inj stepped ▸ inv.abandon _

theorem Invariant.revokeUpdate (inv : Invariant s) (here : s.sessions t = some x) {id inviteID : Str}
    (at_ : x.pc = .revokeUpdate id inviteID) (stepped : advance users s t x = some s') : Invariant s' := by
  have shape := (inv.each t x here).shape
  simp only [Shape, at_] at shape
  simp only [advance, at_] at stepped
  split at stepped
  next =>
    refine inv.withLocks here stepped fun s₁ inv₁ _ _ _ => ?_
    refine inv₁.commit_adding shape.1 (by simp [shape.2.1]) (by simp) fun rows set member i => ?_
    cases List.mem_singleton.mp member
    exact ⟨rfl, rfl⟩
  next => exact Option.some.inj stepped ▸ inv.abandon _

theorem Invariant.advance (inv : Invariant s) (here : s.sessions t = some x)
    (finds : grantFindsWorkspace s (.advance t) = true)
    (stepped : advance users s t x = some s') : Invariant s' := by
  have ok := inv.each t x here
  have shape := ok.shape
  have stake := ok.stake
  have link := ok.link
  cases at_ : x.pc with
  | createWorkspace w => exact inv.createWorkspace here at_ stepped
  | createOwner w => exact inv.createOwner here at_ stepped
  | deleteWorkspace id userID => exact inv.deleteWorkspace here at_ stepped
  | deleteMembers id => exact inv.deleteMembers here at_ stepped
  | acceptLoad tokenHash userID id => exact inv.acceptLoad here at_ stepped
  | inviteInsert i => exact inv.inviteInsert here at_ stepped
  | grantLock id userID => exact inv.advance_grant here finds stepped at_
  | grantAllow | inviteAllow | acceptAllow | done =>
    simp only [Membership.advance, at_] at stepped
    cases stepped
  | createCommit w =>
    simp only [Membership.advance, at_] at stepped
    exact Option.some.inj stepped ▸ inv.commit_create here at_
  | deleteCommit id =>
    simp only [Membership.advance, at_] at stepped
    exact Option.some.inj stepped ▸ inv.commit_delete here at_
  | grantCheckOwner caller id userID | removeCheckOwner caller id userID
  | revokeCheckOwner caller id userID =>
    simp only [Shape, at_] at shape
    simp only [Membership.advance, at_] at stepped
    rw [← Option.some.inj stepped]
    exact inv.requireOwner here rfl fun settled => ⟨shape, by first | exact settled | trivial, by simp [Pc.link]⟩
  | inviteCheckOwner caller i =>
    simp only [Shape, at_] at shape
    simp only [Membership.advance, at_] at stepped
    rw [← Option.some.inj stepped]
    exact inv.requireOwner here rfl fun settled => ⟨shape, settled, fun l h => link l (by rw [at_]; exact h)⟩
  | grantBegin | acceptBegin | inviteBegin =>
    simp only [Shape, at_] at shape
    rw [at_] at stake
    simp only [Membership.advance, at_] at stepped
    rw [← Option.some.inj stepped]
    exact inv.set here (.inl rfl) ⟨shape, stake, fun l h => link l (by rw [at_]; exact h)⟩
  | grantCheck id userID =>
    simp only [Shape, at_] at shape
    rw [at_] at stake
    simp only [Membership.advance, at_] at stepped
    split at stepped
    · exact Option.some.inj stepped ▸ inv.abandon _
    · rw [← Option.some.inj stepped]
      exact inv.set here (.inl rfl) ⟨shape, stake, by simp [Pc.link]⟩
  | grantInsert id userID => exact inv.grantInsert here at_ stepped
  | grantClose id userID | acceptClose id userID _ _ =>
    simp only [Shape, at_] at shape
    simp only [Membership.advance, at_] at stepped
    refine inv.updateInvites here stepped rfl fun s₁ rows ok₁ => ?_
    have holds := ok₁.stake
    rw [at_] at holds
    exact ⟨⟨shape.1, shape.2.1, shape.2.2.append rows fun _ => ⟨rfl, rfl⟩⟩, holds, by simp [Pc.link]⟩
  | grantCommit id _ | acceptCommit id =>
    simp only [Shape, at_] at shape
    rw [at_] at stake
    obtain ⟨workspaces, joining, closing⟩ := shape
    simp only [Membership.advance, at_] at stepped
    rw [← Option.some.inj stepped]
    refine inv.commit_adding workspaces (fun c member => ?_) (fun i member => ?_) closing.updates
    · obtain ⟨m, rfl, rfl⟩ := joining c member
      exact ⟨m, rfl, stake⟩
    · exact absurd member (closing.insert_not_mem i)
  | inviteLock i =>
    simp only [Shape, at_] at shape
    rw [at_] at stake
    simp only [Membership.advance, at_] at stepped
    refine inv.lockWorkspace here shape.1 stake stepped rfl fun s₁ ok₁ _ settled found => ?_
    exact ⟨shape, ⟨settled, found⟩, fun l h => ok₁.link l (by rw [at_]; exact h)⟩
  | inviteCheck i => exact inv.inviteCheck here at_ stepped
  | inviteReplace i => exact inv.inviteReplace here at_ stepped
  | inviteCommit i => exact inv.inviteCommit here at_ stepped
  | acceptFind tokenHash userID => exact inv.acceptFind here at_ stepped
  | acceptLock tokenHash userID id =>
    simp only [Shape, at_] at shape
    rw [at_] at stake
    simp only [Membership.advance, at_] at stepped
    refine inv.lockWorkspace here shape.1 stake stepped rfl fun s₁ ok₁ _ settled found => ?_
    exact ⟨shape, ⟨settled, found⟩, fun l h => ok₁.link l (by rw [at_]; exact h)⟩
  | acceptInsert id userID _ role => exact inv.acceptInsert here at_ stepped
  | removeIsOwner id userID => exact inv.removeIsOwner here at_ stepped
  | removeDelete id userID => exact inv.removeDelete here at_ stepped
  | revokeUpdate id inviteID => exact inv.revokeUpdate here at_ stepped

theorem Invariant.allow (inv : Invariant s) (here : s.sessions t = some x) {granted : Bool}
    (stepped : allow s t x granted = some s') : Invariant s' := by
  have ok := inv.each t x here
  have shape := ok.shape
  have stake := ok.stake
  unfold Membership.allow at stepped
  split at stepped
  case h_4 => cases stepped
  all_goals
    rename_i at_
    simp only [Shape, at_] at shape
    rw [at_] at stake
    rw [← Option.some.inj stepped]
    split
    · exact inv.set here (.inl rfl) ⟨shape, stake, fun l h => ok.link l (by rw [at_]; exact h)⟩
    · exact inv.abandon _

/-- A new session draws its id or link and has changed nothing. -/
theorem Invariant.enter (inv : Invariant s) {ids : List Str}
    {links : List (Str × Str)} {pc : Pc} (idsGrow : ∀ id ∈ s.ids, id ∈ ids)
    (linksGrow : ∀ l ∈ s.links, l ∈ links)
    (functional : ∀ tokenHash a b, (tokenHash, a) ∈ links → (tokenHash, b) ∈ links → a = b)
    (new : ∀ id, pc.creates = some id → id ∉ s.ids)
    (own : SessionOk ({ s with ids := ids, links := links }.set t ⟨pc, s.now, [], [], []⟩) t
      ⟨pc, s.now, [], [], []⟩) :
    Invariant ({ s with ids := ids, links := links }.set t ⟨pc, s.now, [], [], []⟩) := by
  have respects : ∀ u, Respects u s
      ({ s with ids := ids, links := links }.set t ⟨pc, s.now, [], [], []⟩) := by
    intro u
    refine ⟨idsGrow, linksGrow, fun v y known id drawn creating => ?_, fun _ h => h,
      fun _ holds => holds.there, fun _ _ _ member _ => member, fun _ member => .inl member⟩
    rcases Steps.update_eq_some known with ⟨-, ⟨⟩⟩ | ⟨-, old⟩
    exacts [absurd drawn (new id creating), ⟨y, old, creating⟩]
  refine ⟨inv.intact, fun w member => idsGrow _ (inv.drawn w member),
    fun i member => ⟨linksGrow _ (inv.invites i member).1, (inv.invites i member).2⟩, functional, ?_⟩
  intro u y known
  rcases Steps.update_eq_some known with ⟨rfl, ⟨⟩⟩ | ⟨-, old⟩
  exacts [own, (inv.each u y old).keep (respects u)]

/-- Requests that draw nothing. -/
theorem Invariant.enter_plain (inv : Invariant s) {pc : Pc}
    (creates : pc.creates = none) (shape : Shape ⟨pc, s.now, [], [], []⟩)
    (stake : pc.stake = .nothing) (link : pc.link = none) :
    Invariant (s.set t ⟨pc, s.now, [], [], []⟩) := by
  refine inv.enter (fun _ h => h) (fun _ h => h) inv.links ?_ ⟨shape, ?_, ?_⟩
  · intro id creating
    rw [creates] at creating
    cases creating
  · rw [stake]
    trivial
  · intro l linked
    rw [link] at linked
    cases linked

theorem Invariant.start (inv : Invariant s) {request : Request} {s₁ : State} {pc : Pc}
    (started : request.start s = some (s₁, pc)) : Invariant (s₁.set t ⟨pc, s₁.now, [], [], []⟩) := by
  cases request with
  | delete | addMember | acceptInvite | removeMember | revokeInvite =>
    cases Option.some.inj started
    exact inv.enter_plain rfl ⟨rfl, rfl, rfl⟩ rfl rfl
  | create w =>
    obtain ⟨new, rfl, rfl⟩ := Request.start_create started
    refine inv.enter (fun _ h => List.mem_cons_of_mem _ h) (fun _ h => h) inv.links ?_
      ⟨⟨rfl, rfl, rfl⟩, ⟨List.mem_cons_self, ?_, ?_⟩, by simp [Pc.link]⟩
    · rintro _ ⟨⟩
      exact new
    · rintro ⟨v, member, same⟩
      exact new (same ▸ inv.drawn v member)
    · intro u y other known creating
      have old : s.sessions u = some y := (Function.update_of_ne other ..).symm.trans known
      exact new (inv.fresh old creating).drawn
  | createInvite caller i =>
    obtain ⟨new, rfl, rfl⟩ := Request.start_createInvite started
    refine inv.enter (fun _ h => h) (fun _ h => List.mem_cons_of_mem _ h) (links_cons inv.links new)
      (by simp [Pc.creates]) ⟨⟨rfl, rfl, rfl⟩, trivial, ?_⟩
    rintro _ ⟨⟩
    exact List.mem_cons_self

/-- A statement that commits locks no workspace. -/
theorem finds_of_committing (here : s.sessions t = some x) (last : x.pc.committing = true) :
    grantFindsWorkspace s (.advance t) = true := by
  obtain ⟨pc, startedAt, ws, ms, is⟩ := x
  simp only [grantFindsWorkspace, here]
  cases pc <;> first | rfl | cases last

theorem Invariant.step (action : Action) (inv : Invariant s)
    (finds : grantFindsWorkspace s action = true) (stepped : step users s action = some s') :
    Invariant s' := by
  cases action with
  | start t request =>
    simp only [Membership.step] at stepped
    split at stepped
    next started => exact Option.some.inj stepped ▸ inv.start started
    next => cases stepped
  | tick elapsed =>
    rw [← Option.some.inj stepped]
    exact ⟨inv.intact, inv.drawn, inv.invites, inv.links, fun u y known =>
      (inv.each u y known).keep ⟨fun _ h => h, fun _ h => h, fun _ z h _ _ c => ⟨z, h, c⟩,
        fun _ h => h, fun _ holds => holds.there, fun _ _ _ member _ => member,
        fun _ member => .inl member⟩⟩
  | advance t =>
    obtain ⟨x, here, stepped⟩ := Option.bind_eq_some_iff.mp stepped
    exact inv.advance here finds stepped
  | allow t granted =>
    obtain ⟨x, here, stepped⟩ := Option.bind_eq_some_iff.mp stepped
    exact inv.allow here stepped
  | interrupt t =>
    obtain ⟨x, here, stepped⟩ := Option.bind_eq_some_iff.mp stepped
    split at stepped
    · cases stepped
    · exact Option.some.inj stepped ▸ inv.abandon _
  | lose t =>
    obtain ⟨x, here, stepped⟩ := Option.bind_eq_some_iff.mp stepped
    obtain ⟨last, stepped⟩ := Option.ite_none_right_eq_some.mp stepped
    obtain ⟨s₁, advanced, rfl⟩ := Option.map_eq_some_iff.mp stepped
    exact (inv.advance here (finds_of_committing here last) advanced).abandon _

theorem invariant_newStore (now : Int) : Invariant (newStore now) := by
  refine ⟨⟨?_, ?_⟩, ?_, ?_, ?_, ?_⟩ <;> simp [newStore]

/-- In every run in which each GrantMember finds the workspace it locks, every committed
member row refers to a workspace, so AllowedIDs grants no deleted one, and every workspace
has its creator's owner row. -/
theorem membership_intact (users : Users) (now : Int) (actions : List Action) (s : State)
    (finds : Steps.Along (step users) (fun s a => grantFindsWorkspace s a = true) (newStore now) actions)
    (ran : Steps.run (step users) (newStore now) actions = some s) :
    (∀ m ∈ s.db.members, ∃ w ∈ s.db.workspaces, w.id = m.workspaceID) ∧
    (∀ userID, ∀ id ∈ s.db.allowedIDs userID, ∃ w ∈ s.db.workspaces, w.id = id) ∧
    ∀ w ∈ s.db.workspaces, ⟨w.id, w.userID, .owner⟩ ∈ s.db.members := by
  have inv := Steps.run_invariant_along (fun _ a _ inv finds stepped => inv.step a finds stepped)
    finds ran (invariant_newStore now)
  refine ⟨inv.intact.members, fun userID id allowed => ?_, inv.intact.owners⟩
  obtain ⟨m, member, rfl⟩ := List.mem_map.mp allowed
  exact inv.intact.members m (List.mem_filter.mp member).1

def aliceAndBob : Users := ⟨fun id => some (id ++ lit "@example.com"), id⟩

def createTeam : List Action :=
  .start 0 (.create ⟨lit "team", lit "alice"⟩) :: List.replicate 3 (Action.advance 0)

/-- A member is added and the workspace deleted right after; Delete waits for the lock. -/
def grantThenDelete : List Action :=
  createTeam ++ .start 1 (.addMember (lit "alice") (lit "team") (lit "bob")) ::
  List.replicate 4 (Action.advance 1) ++ .start 2 (.delete (lit "team") (lit "alice")) ::
  .allow 1 true ::
  List.replicate 3 (Action.advance 1) ++ List.replicate 3 (Action.advance 2)

theorem membership_intact_grantThenDelete : ∃ s : State,
    Steps.run (step aliceAndBob) (newStore 0) grantThenDelete = some s ∧
    (∀ m ∈ s.db.members, ∃ w ∈ s.db.workspaces, w.id = m.workspaceID) := by
  have ends : (Steps.run (step aliceAndBob) (newStore 0) grantThenDelete).isSome = true := by
    decide +kernel
  obtain ⟨s, ran⟩ := Option.isSome_iff_exists.mp ends
  exact ⟨s, ran, (membership_intact aliceAndBob 0 grantThenDelete s (by decide +kernel) ran).1⟩

/-- The owner check passes, the workspace is deleted, and the member is added after all. -/
def deleteThenGrant : List Action :=
  createTeam ++ .start 1 (.addMember (lit "alice") (lit "team") (lit "bob")) :: .advance 1 ::
  .start 2 (.delete (lit "team") (lit "alice")) :: List.replicate 3 (Action.advance 2) ++
  List.replicate 3 (Action.advance 1) ++ .allow 1 true :: List.replicate 3 (Action.advance 1)

theorem grant_after_delete_orphans : ∃ s : State,
    Steps.run (step aliceAndBob) (newStore 0) deleteThenGrant = some s ∧
    s.db.workspaces = [] ∧ s.db.members = [⟨lit "team", lit "bob", .member⟩] ∧
    s.db.allowedIDs (lit "bob") = [lit "team"] := by
  have ends : (Steps.run (step aliceAndBob) (newStore 0) deleteThenGrant).map
      (fun s => (s.db.workspaces, s.db.members)) =
      some ([], [⟨lit "team", lit "bob", .member⟩]) := by decide +kernel
  obtain ⟨s, ran, tables⟩ := Option.map_eq_some_iff.mp ends
  obtain ⟨workspaces, members⟩ := Prod.mk.inj tables
  refine ⟨s, ran, workspaces, members, ?_⟩
  rw [Tables.allowedIDs, members]
  decide +kernel

end Tracium.Membership
