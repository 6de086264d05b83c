import Mathlib.Data.List.Pairwise
import Tracium.ApiKeys.Store
import Tracium.History

/-! The life of a key row while requests run in any order: its columns are fixed, a
revocation is for good and has one winner, and the row goes only with its workspace. -/
namespace Tracium.ApiKeys

open Go

/-- The key a handler has drawn and not inserted yet. -/
def Pc.pending : Pc → Option ApiKey
  | .createScope _ _ key _ | .createInsert key _ => some key
  | _ => none

/-- The check in front of a store call: the caller, the workspace asked for and the call. -/
def Pc.scope : Pc → Option (Str × Str × Pc)
  | .createScope workspaceID userID key token => some (userID, workspaceID, .createInsert key token)
  | .revokeScope workspaceID userID keyID => some (userID, workspaceID, .revokeFind workspaceID keyID)
  | _ => none

/-- The reply of a write, or the one a handler gives that did not hear of it. -/
def Answers (told reply : Reply) : Prop := reply = told ∨ ∃ status code message, reply = .refused status code message

/-- The handler an action moves on. -/
def Action.moves : Action → Option Nat
  | .advance r | .lose r => some r
  | _ => none

/-- What one piece of a handler does: the new rows, the handler's NOW() and its next piece. -/
inductive Moves (hash : Str → Str) (s : State) (x : Handler) : List ApiKey → Int → Pc → Prop
  | enter {userID requested : Str} {next : Pc} (at_ : x.pc.scope = some (userID, requested, next))
      (member : requested = [] ∨ (requested, userID) ∈ s.db.members) : Moves hash s x s.db.keys s.now next
  | refuse (status : Nat) (code message : Str) :
      Moves hash s x s.db.keys x.startedAt (.done (.refused status code message))
  | insert {key : ApiKey} {token : Str} {reply : Reply} (at_ : x.pc = .createInsert key token)
      (admits : s.db.admits key = true)
      (answers : Answers (.created { key with createdAt := x.startedAt } token) reply) :
      Moves hash s x (s.db.keys ++ [{ key with createdAt := x.startedAt }]) x.startedAt (.done reply)
  | find {workspaceID keyID : Str} (at_ : x.pc = .revokeFind workspaceID keyID) :
      Moves hash s x s.db.keys x.startedAt (.revokeWrite workspaceID keyID)
  | revoke {workspaceID keyID : Str} {reply : Reply} (at_ : x.pc = .revokeWrite workspaceID keyID)
      (found : s.db.keys.any (revocable workspaceID keyID) = true) (answers : Answers .noContent reply) :
      Moves hash s x (s.db.keys.map (revoking workspaceID keyID x.startedAt)) x.startedAt (.done reply)
  | check {key : Str} (at_ : x.pc = .verify key) (shape : valid (trimSpace key) = true) :
      Moves hash s x s.db.keys s.now (.verifyFind (hash (trimSpace key)))
  | look {keyHash : Str} {found : ApiKey} (at_ : x.pc = .verifyFind keyHash) (row : found ∈ s.db.keys)
      (same : found.keyHash = keyHash) (active : found.active = true) :
      Moves hash s x s.db.keys x.startedAt (.verifyBump found)
  | bump {found : ApiKey} {reply : Reply} (at_ : x.pc = .verifyBump found)
      (answers : Answers (.granted found.workspaceID) reply) :
      Moves hash s x (s.db.keys.map (bumping found x.startedAt)) x.startedAt (.done reply)

variable {hash : Str → Str} {s s' : State} {r : Nat} {x : Handler}

variable (hash s r) in
theorem resolveWorkspaceScope_moves {userID requested : Str} {next : Pc}
    (at_ : x.pc.scope = some (userID, requested, next)) :
    ∃ startedAt pc, Moves hash s x s.db.keys startedAt pc ∧
      s.resolveWorkspaceScope r x userID requested next = s.set r { x with startedAt, pc } := by
  unfold State.resolveWorkspaceScope
  split
  next => exact ⟨_, _, .refuse .., rfl⟩
  next =>
    split
    next member => exact ⟨_, _, .enter at_ (member.imp_right (s.db.hasMember_iff requested userID).mp), rfl⟩
    next => exact ⟨_, _, .refuse .., rfl⟩

theorem advance_moves (stepped : advance hash s r x = some s') :
    ∃ keys startedAt pc, Moves hash s x keys startedAt pc ∧
      s' = (s.setKeys keys).set r { x with startedAt, pc } := by
  unfold advance at stepped
  split at stepped
  next workspaceID userID key token at_ =>
    obtain ⟨startedAt, pc, moves, same⟩ := resolveWorkspaceScope_moves hash s r
      (show x.pc.scope = some (userID, workspaceID, .createInsert key token) by rw [at_]; rfl)
    exact ⟨_, _, _, moves, (Option.some.inj stepped).symm.trans same⟩
  next key token at_ =>
    split at stepped
    next admits => exact ⟨_, _, _, .insert at_ admits (.inl rfl), (Option.some.inj stepped).symm⟩
    next => exact ⟨_, _, _, .refuse .., (Option.some.inj stepped).symm⟩
  next workspaceID userID keyID at_ =>
    obtain ⟨startedAt, pc, moves, same⟩ := resolveWorkspaceScope_moves hash s r
      (show x.pc.scope = some (userID, workspaceID, .revokeFind workspaceID keyID) by rw [at_]; rfl)
    exact ⟨_, _, _, moves, (Option.some.inj stepped).symm.trans same⟩
  next at_ =>
    split at stepped
    next => exact ⟨_, _, _, .find at_, (Option.some.inj stepped).symm⟩
    next => exact ⟨_, _, _, .refuse .., (Option.some.inj stepped).symm⟩
  next at_ =>
    split at stepped
    next found => exact ⟨_, _, _, .revoke at_ found (.inl rfl), (Option.some.inj stepped).symm⟩
    next => exact ⟨_, _, _, .refuse .., (Option.some.inj stepped).symm⟩
  next key at_ =>
    split at stepped
    next => exact ⟨_, _, _, .refuse .., (Option.some.inj stepped).symm⟩
    next shaped =>
      have shape : valid (trimSpace key) = true := by simp at shaped; exact shaped.2
      exact ⟨_, _, _, .check at_ shape, (Option.some.inj stepped).symm⟩
  next at_ =>
    split at stepped
    next => exact ⟨_, _, _, .refuse .., (Option.some.inj stepped).symm⟩
    next found look =>
      have same := List.find?_some look
      simp only [Bool.and_eq_true, beq_iff_eq] at same
      exact ⟨_, _, _, .look at_ (List.mem_of_find?_eq_some look) same.1 same.2,
        (Option.some.inj stepped).symm⟩
  next at_ => exact ⟨_, _, _, .bump at_ (.inl rfl), (Option.some.inj stepped).symm⟩
  next => cases stepped

theorem failure_refuses (pc : Pc) : ∃ status code message, pc.failure = .refused status code message := by
  cases pc <;> exact ⟨_, _, _, rfl⟩

/-- A write whose reply is lost is the write with another answer. -/
theorem lose_moves {s₁ : State} (writes : x.pc.writes = true) (stepped : advance hash s r x = some s₁) :
    ∃ keys startedAt pc, Moves hash s x keys startedAt pc ∧
      s₁.goto r x (.done x.pc.failure) = (s.setKeys keys).set r { x with startedAt, pc } := by
  obtain ⟨keys, startedAt, pc, moves, rfl⟩ := advance_moves stepped
  have unheard (told : Reply) : Answers told x.pc.failure := .inr (failure_refuses x.pc)
  refine ⟨keys, x.startedAt, .done x.pc.failure, ?_, ?_⟩
  · cases moves with
    | insert at_ admits => exact .insert at_ admits (unheard _)
    | revoke at_ found => exact .revoke at_ found (unheard _)
    | bump at_ => exact .bump at_ (unheard _)
    | refuse =>
      obtain ⟨status, code, message, same⟩ := failure_refuses x.pc
      exact same ▸ .refuse status code message
    | enter at_ =>
      unfold Pc.scope at at_
      split at at_
      next before => simp [before, Pc.writes] at writes
      next before => simp [before, Pc.writes] at writes
      next => cases at_
    | find at_ | check at_ | look at_ => simp [at_, Pc.writes] at writes
  · simp only [State.goto, State.set, State.setKeys, Function.update_idem]

/-- What one action does: a request arrives, a handler goes on or fails, or the accounts and
workspaces change around them. -/
inductive Does (hash : Str → Str) (s : State) : Action → State → Prop
  | start {r : Nat} {call : Call} {s₁ : State} (free : s.handlers r = none)
      (drawn : call.draw hash s = some s₁) (now : Int) :
      Does hash s (.start r call) (s₁.set r ⟨call, now, call.begin_ hash⟩)
  | move {a : Action} {r : Nat} {x : Handler} {keys : List ApiKey} {startedAt : Int} {pc : Pc}
      (mine : a.moves = some r) (here : s.handlers r = some x) (moves : Moves hash s x keys startedAt pc) :
      Does hash s a ((s.setKeys keys).set r { x with startedAt, pc })
  | fail {r : Nat} {x : Handler} (here : s.handlers r = some x) (status : Nat) (code message : Str) :
      Does hash s (.interrupt r) (s.set r { x with pc := .done (.refused status code message) })
  | world {a : Action} (db : Tables) (now : Int)
      (rows : db.keys = s.db.keys ∨ ∃ id, a = .deleteWorkspace id ∧
        db.keys = s.db.keys.filter (·.workspaceID ≠ id))
      (named : [] ∉ s.db.workspaces → [] ∉ db.workspaces) :
      Does hash s a { s with db := db, now := now }

theorem step_does {a : Action} (stepped : step hash s a = some s') : Does hash s a s' := by
  cases a with
  | start r call =>
    simp only [step] at stepped
    split at stepped
    next s₁ free drawn => exact Option.some.inj stepped ▸ .start free drawn _
    next => cases stepped
  | tick elapsed => exact Option.some.inj stepped ▸ .world _ _ (.inl rfl) id
  | advance r =>
    obtain ⟨x, here, stepped⟩ := Option.bind_eq_some_iff.mp stepped
    obtain ⟨keys, startedAt, pc, moves, rfl⟩ := advance_moves stepped
    exact .move rfl here moves
  | lose r =>
    obtain ⟨x, here, stepped⟩ := Option.bind_eq_some_iff.mp stepped
    split at stepped
    next writes =>
      obtain ⟨s₁, inner, rfl⟩ := Option.map_eq_some_iff.mp stepped
      obtain ⟨keys, startedAt, pc, moves, same⟩ := lose_moves writes inner
      exact same ▸ .move rfl here moves
    next => cases stepped
  | interrupt r =>
    obtain ⟨x, here, stepped⟩ := Option.bind_eq_some_iff.mp stepped
    split at stepped
    next => cases stepped
    next => cases stepped
    next =>
      rw [← Option.some.inj stepped]
      cases x.pc <;> exact .fail here ..
  | addWorkspace id userID =>
    simp only [step] at stepped
    split at stepped
    next => cases stepped
    next new =>
      rw [← Option.some.inj stepped]
      refine .world _ _ (.inl rfl) fun named => ?_
      simp only [List.mem_cons, not_or]
      exact ⟨fun same => new (.inl same.symm), named⟩
  | deleteWorkspace id =>
    rw [← Option.some.inj stepped]
    exact .world _ _ (.inr ⟨id, rfl, rfl⟩) fun named member => named (List.mem_filter.mp member).1
  | join workspaceID userID => exact Option.some.inj stepped ▸ .world _ _ (.inl rfl) id
  | leave workspaceID userID => exact Option.some.inj stepped ▸ .world _ _ (.inl rfl) id

/-- How a row may change: a revocation is for good and ends its uses, and a use is stamped
at the first or more than a minute after the last. -/
structure Advances (key key' : ApiKey) : Prop where
  frozen : { key' with lastUsedAt := key.lastUsedAt, revokedAt := key.revokedAt } = key
  revoked : key.active = false → key' = key
  used : ∀ at_, key.lastUsedAt = some at_ →
    ∃ at', key'.lastUsedAt = some at' ∧ (at' = at_ ∨ at_ + minute < at')

theorem Advances.refl (key : ApiKey) : Advances key key :=
  ⟨rfl, fun _ => rfl, fun at_ used => ⟨at_, used, .inl rfl⟩⟩

theorem Advances.columns {key key' : ApiKey} (advances : Advances key key') :
    key'.id = key.id ∧ key'.keyHash = key.keyHash ∧ key'.workspaceID = key.workspaceID ∧
      key'.createdBy = key.createdBy := by
  have column {α : Type} (f : ApiKey → α) := congrArg f advances.frozen
  exact ⟨column (·.id), column (·.keyHash), column (·.workspaceID), column (·.createdBy)⟩

theorem Advances.trans {a b c : ApiKey} (first : Advances a b) (second : Advances b c) :
    Advances a c := by
  refine ⟨?_, fun revoked => ?_, fun at_ used => ?_⟩
  · have ab := first.frozen
    have bc := second.frozen
    cases a; cases b; cases c
    simp_all
  · have same := first.revoked revoked
    subst same
    exact second.revoked revoked
  · obtain ⟨at', used', step⟩ := first.used at_ used
    obtain ⟨at'', used'', step'⟩ := second.used at' used'
    exact ⟨at'', used'', by unfold minute at *; omega⟩

theorem advances_revoking (workspaceID keyID : Str) (now : Int) (key : ApiKey) :
    Advances key (revoking workspaceID keyID now key) := by
  unfold revoking
  split
  next found =>
    simp only [revocable, Bool.and_eq_true] at found
    exact ⟨rfl, fun revoked => by simp [found.2] at revoked, fun at_ used => ⟨at_, used, .inl rfl⟩⟩
  next => exact .refl key

theorem advances_bumping (found : ApiKey) (now : Int) (key : ApiKey) :
    Advances key (bumping found now key) := by
  unfold bumping
  split
  next due =>
    simp only [bumpable, Bool.and_eq_true] at due
    obtain ⟨-, ⟨-, active⟩, due⟩ := due
    refine ⟨rfl, fun revoked => by simp [active] at revoked, fun at_ used => ⟨now, rfl, .inr ?_⟩⟩
    simp only [used, decide_eq_true_eq] at due
    omega
  next => exact .refl key

/-- Nobody will insert a key with this id or this hash any more. -/
structure Spent (s : State) (key : ApiKey) : Prop where
  id : key.id ∈ s.ids
  keyHash : key.keyHash ∈ s.hashes
  idle : ∀ r x other, s.handlers r = some x → x.pc.pending = some other →
    other.id ≠ key.id ∧ other.keyHash ≠ key.keyHash

structure Invariant (s : State) : Prop where
  drawn : ∀ r x key, s.handlers r = some x → x.pc.pending = some key →
    key.id ∈ s.ids ∧ key.keyHash ∈ s.hashes ∧ key.active = true
  alone : ∀ r x key r' x' key', s.handlers r = some x → x.pc.pending = some key →
    s.handlers r' = some x' → x'.pc.pending = some key' → r ≠ r' →
    key.id ≠ key'.id ∧ key.keyHash ≠ key'.keyHash
  rows : ∀ key ∈ s.db.keys, Spent s key
  distinct : s.db.keys.Pairwise fun key key' => key.id ≠ key'.id ∧ key.keyHash ≠ key'.keyHash

/-- Two rows that share an id or a hash are one row. -/
theorem Invariant.same_row (inv : Invariant s) {key key' : ApiKey} (row : key ∈ s.db.keys)
    (row' : key' ∈ s.db.keys) (same : key.id = key'.id ∨ key.keyHash = key'.keyHash) : key = key' := by
  have : Std.Symm fun key key' : ApiKey => key.id ≠ key'.id ∧ key.keyHash ≠ key'.keyHash :=
    ⟨fun _ _ apart => apart.imp Ne.symm Ne.symm⟩
  by_contra different
  obtain ⟨id, keyHash⟩ := inv.distinct.forall row row' different
  exact same.elim id keyHash

/-- A step that draws nothing and inserts nothing. -/
theorem Invariant.keep (inv : Invariant s) (ids : s'.ids = s.ids) (hashes : s'.hashes = s.hashes)
    (pending : ∀ r x' key, s'.handlers r = some x' → x'.pc.pending = some key →
      ∃ x, s.handlers r = some x ∧ x.pc.pending = some key)
    {f : ApiKey → ApiKey} (columns : ∀ key, (f key).id = key.id ∧ (f key).keyHash = key.keyHash)
    (rows : s'.db.keys.Sublist (s.db.keys.map f)) : Invariant s' := by
  refine ⟨?_, ?_, ?_, ?_⟩
  · intro r x' key here draft
    obtain ⟨x, old, draft⟩ := pending r x' key here draft
    rw [ids, hashes]
    exact inv.drawn r x key old draft
  · intro r x key r' x' key' here draft here' draft' other
    obtain ⟨y, old, draft⟩ := pending r x key here draft
    obtain ⟨y', old', draft'⟩ := pending r' x' key' here' draft'
    exact inv.alone r y key r' y' key' old draft old' draft' other
  · intro key' member
    obtain ⟨key, row, rfl⟩ := List.mem_map.mp (rows.subset member)
    have spent := inv.rows key row
    refine ⟨by rw [ids, (columns key).1]; exact spent.id,
      by rw [hashes, (columns key).2]; exact spent.keyHash, fun r x' other here draft => ?_⟩
    obtain ⟨x, old, draft⟩ := pending r x' other here draft
    rw [(columns key).1, (columns key).2]
    exact spent.idle r x other old draft
  · refine List.Pairwise.sublist rows (List.pairwise_map.mpr (inv.distinct.imp fun apart => ?_))
    simpa only [columns] using apart

theorem Invariant.set (inv : Invariant s) (here : s.handlers r = some x) {x' : Handler}
    (pending : ∀ key, x'.pc.pending = some key → x.pc.pending = some key) :
    Invariant (s.set r x') := by
  refine inv.keep (f := id) rfl rfl ?_ (fun key => ⟨rfl, rfl⟩) (by simp [State.set])
  intro i y key found draft
  rcases Steps.update_eq_some found with ⟨rfl, ⟨⟩⟩ | ⟨-, old⟩
  exacts [⟨x, here, pending key draft⟩, ⟨y, old, draft⟩]

theorem Invariant.insert (inv : Invariant s) (here : s.handlers r = some x) {key : ApiKey}
    (draft : x.pc.pending = some key) {row : ApiKey} (id : row.id = key.id)
    (keyHash : row.keyHash = key.keyHash) {x' : Handler} (spent : x'.pc.pending = none) :
    Invariant ((s.setKeys (s.db.keys ++ [row])).set r x') := by
  have pending : ∀ i y other, ((s.setKeys (s.db.keys ++ [row])).set r x').handlers i = some y →
      y.pc.pending = some other → i ≠ r ∧ s.handlers i = some y := by
    intro i y other found draft
    rcases Steps.update_eq_some found with ⟨rfl, ⟨⟩⟩ | ⟨different, old⟩
    · rw [spent] at draft
      cases draft
    · exact ⟨different, old⟩
  obtain ⟨drawn, hashed, -⟩ := inv.drawn r x key here draft
  refine ⟨?_, ?_, ?_, ?_⟩
  · intro i y other found draft
    exact inv.drawn i y other (pending i y other found draft).2 draft
  · intro i y other i' y' other' found draft found' draft' apart
    exact inv.alone i y other i' y' other' (pending i y other found draft).2 draft
      (pending i' y' other' found' draft').2 draft' apart
  · intro old member
    rcases List.mem_append.mp member with member | member
    · obtain ⟨drawn, hashed, idle⟩ := inv.rows old member
      exact ⟨drawn, hashed, fun i y other found draft =>
        idle i y other (pending i y other found draft).2 draft⟩
    · cases List.mem_singleton.mp member
      refine ⟨id ▸ drawn, keyHash ▸ hashed, fun i y other found draft' => ?_⟩
      obtain ⟨apart, old⟩ := pending i y other found draft'
      rw [id, keyHash]
      exact inv.alone i y other r x key old draft' here draft apart
  · refine List.pairwise_append.mpr ⟨inv.distinct, List.pairwise_singleton _ _, ?_⟩
    intro old member new isNew
    cases List.mem_singleton.mp isNew
    have fresh := (inv.rows old member).idle r x key here draft
    rw [id, keyHash]
    exact ⟨fresh.1.symm, fresh.2.symm⟩

theorem draw_spec {call : Call} (drawn : call.draw hash s = some s') :
    (s' = s ∧ (call.begin_ hash).pending = none) ∨
    ∃ key, (call.begin_ hash).pending = some key ∧ key.active = true ∧ key.id ∉ s.ids ∧
      key.keyHash ∉ s.hashes ∧
      s' = { s with ids := key.id :: s.ids, hashes := key.keyHash :: s.hashes } := by
  cases call with
  | create workspaceID userID name id secret =>
    simp only [Call.draw] at drawn
    split at drawn
    next => cases drawn
    next fresh =>
      simp only [Bool.or_eq_true, List.any_eq_true, beq_iff_eq, exists_eq_right, not_or] at fresh
      exact .inr ⟨draft hash workspaceID userID name id secret, rfl, rfl, fresh.1, fresh.2,
        (Option.some.inj drawn).symm⟩
  | revoke => exact .inl ⟨(Option.some.inj drawn).symm, rfl⟩
  | verify => exact .inl ⟨(Option.some.inj drawn).symm, rfl⟩

theorem draw_handlers {call : Call} (drawn : call.draw hash s = some s') : s'.handlers = s.handlers := by
  rcases draw_spec drawn with ⟨rfl, -⟩ | ⟨_, -, -, -, -, rfl⟩ <;> rfl

theorem Moves.pending_kept {keys : List ApiKey} {startedAt : Int} {pc : Pc}
    (moves : Moves hash s x keys startedAt pc) (key : ApiKey) (draft : pc.pending = some key) :
    x.pc.pending = some key := by
  cases moves with
  | enter at_ =>
    unfold Pc.scope at at_
    split at at_
    next before =>
      cases at_
      rw [before]
      exact draft
    next => cases at_; cases draft
    next => cases at_
  | _ => cases draft

/-- The rows one piece of a handler leaves: the old ones as they advance, or one more. -/
theorem Moves.rows {keys : List ApiKey} {startedAt : Int} {pc : Pc}
    (moves : Moves hash s x keys startedAt pc) :
    (∃ f : ApiKey → ApiKey, keys = s.db.keys.map f ∧ ∀ key, Advances key (f key)) ∨
    ∃ key token, x.pc = .createInsert key token ∧ pc.pending = none ∧
      s.db.admits key = true ∧ keys = s.db.keys ++ [{ key with createdAt := x.startedAt }] := by
  have same : ∃ f : ApiKey → ApiKey, s.db.keys = s.db.keys.map f ∧ ∀ key, Advances key (f key) :=
    ⟨id, (List.map_id _).symm, Advances.refl⟩
  cases moves with
  | insert at_ admits => exact .inr ⟨_, _, at_, rfl, admits, rfl⟩
  | revoke => exact .inl ⟨_, rfl, advances_revoking _ _ _⟩
  | bump => exact .inl ⟨_, rfl, advances_bumping _ _⟩
  | enter | refuse | find | check | look => exact .inl same

theorem Invariant.start (inv : Invariant s) {call : Call} (free : s.handlers r = none) {s₁ : State}
    (drawn : call.draw hash s = some s₁) (now : Int) :
    Invariant (s₁.set r ⟨call, now, call.begin_ hash⟩) := by
  rcases draw_spec drawn with ⟨rfl, none_⟩ | ⟨key, draft, live, newId, newHash, rfl⟩
  · refine inv.keep (f := id) rfl rfl ?_ (fun key => ⟨rfl, rfl⟩) (by simp [State.set])
    intro i y key found draft
    rcases Steps.update_eq_some found with ⟨rfl, ⟨⟩⟩ | ⟨-, old⟩
    · rw [none_] at draft
      cases draft
    · exact ⟨y, old, draft⟩
  · refine ⟨?_, ?_, ?_, inv.distinct⟩
    · intro i y other found draft'
      rcases Steps.update_eq_some found with ⟨rfl, ⟨⟩⟩ | ⟨-, old⟩
      · cases Option.some.inj (draft.symm.trans draft')
        exact ⟨List.mem_cons_self, List.mem_cons_self, live⟩
      · obtain ⟨id, keyHash, live⟩ := inv.drawn i y other old draft'
        exact ⟨List.mem_cons_of_mem _ id, List.mem_cons_of_mem _ keyHash, live⟩
    · have apart : ∀ i y other, s.handlers i = some y → y.pc.pending = some other →
          key.id ≠ other.id ∧ key.keyHash ≠ other.keyHash := by
        intro i y other found draft
        obtain ⟨id, keyHash, -⟩ := inv.drawn i y other found draft
        exact ⟨fun same => newId (same ▸ id), fun same => newHash (same ▸ keyHash)⟩
      intro i y other i' y' other' found draft' found' draft'' different
      rcases Steps.update_eq_some found with ⟨rfl, ⟨⟩⟩ | ⟨-, old⟩ <;>
        rcases Steps.update_eq_some found' with ⟨rfl, ⟨⟩⟩ | ⟨-, old'⟩
      · exact absurd rfl different
      · cases Option.some.inj (draft.symm.trans draft')
        exact apart i' y' other' old' draft''
      · cases Option.some.inj (draft.symm.trans draft'')
        exact (apart i y other old draft').imp Ne.symm Ne.symm
      · exact inv.alone i y other i' y' other' old draft' old' draft'' different
    · intro row member
      obtain ⟨id, keyHash, idle⟩ := inv.rows row member
      refine ⟨List.mem_cons_of_mem _ id, List.mem_cons_of_mem _ keyHash, fun i y other found draft' => ?_⟩
      rcases Steps.update_eq_some found with ⟨rfl, ⟨⟩⟩ | ⟨-, old⟩
      · cases Option.some.inj (draft.symm.trans draft')
        exact ⟨fun same => newId (same ▸ id), fun same => newHash (same ▸ keyHash)⟩
      · exact idle i y other old draft'

theorem Invariant.move (inv : Invariant s) (here : s.handlers r = some x) {keys : List ApiKey}
    {startedAt : Int} {pc : Pc} (moves : Moves hash s x keys startedAt pc) :
    Invariant ((s.setKeys keys).set r { x with startedAt, pc }) := by
  rcases moves.rows with ⟨f, rfl, advances⟩ | ⟨key, token, at_, spent, -, rfl⟩
  · refine inv.keep rfl rfl ?_ (fun key => ⟨(advances key).columns.1, (advances key).columns.2.1⟩)
      (.refl _)
    intro i y key found draft
    rcases Steps.update_eq_some found with ⟨rfl, ⟨⟩⟩ | ⟨-, old⟩
    exacts [⟨x, here, moves.pending_kept key draft⟩, ⟨y, old, draft⟩]
  · have mine : x.pc.pending = some key := by rw [at_]; rfl
    refine inv.insert here mine ?_ ?_ ?_
    exacts [rfl, rfl, spent]

theorem Invariant.step (inv : Invariant s) {a : Action} (stepped : ApiKeys.step hash s a = some s') :
    Invariant s' := by
  cases step_does stepped with
  | start free drawn now => exact inv.start free drawn now
  | move mine here moves => exact inv.move here moves
  | fail here => exact inv.set here fun key draft => by cases draft
  | world db now rows =>
    refine inv.keep (f := id) rfl rfl (fun i y key found draft => ⟨y, found, draft⟩)
      (fun key => ⟨rfl, rfl⟩) ?_
    rcases rows with same | ⟨id, -, same⟩ <;> simp [same]

/-- What a step does to the rows: each stays and advances, or goes with its workspace; the
others are the one a handler had drawn. -/
structure Effect (s : State) (a : Action) (s' : State) : Prop where
  onward : ∀ key ∈ s.db.keys, (∃ key' ∈ s'.db.keys, Advances key key') ∨
    a = .deleteWorkspace key.workspaceID ∧
      ∀ key' ∈ s'.db.keys, key'.id ≠ key.id ∧ key'.keyHash ≠ key.keyHash
  origin : ∀ key' ∈ s'.db.keys, (∃ key ∈ s.db.keys, Advances key key') ∨
    ∃ r x key token, a.moves = some r ∧ s.handlers r = some x ∧ x.pc = .createInsert key token ∧
      s.db.admits key = true ∧ key' = { key with createdAt := x.startedAt }
  spent : ∀ key, Spent s key → Spent s' key

theorem Effect.of_same {a : Action} (keys : s'.db.keys = s.db.keys)
    (spent : ∀ key, Spent s key → Spent s' key) : Effect s a s' :=
  ⟨fun key member => .inl ⟨key, keys ▸ member, .refl key⟩,
    fun key member => .inl ⟨key, keys ▸ member, .refl key⟩, spent⟩

theorem Spent.keep {key : ApiKey} (spent : Spent s key) (ids : s'.ids = s.ids)
    (hashes : s'.hashes = s.hashes)
    (pending : ∀ r x' other, s'.handlers r = some x' → x'.pc.pending = some other →
      ∃ x, s.handlers r = some x ∧ x.pc.pending = some other) : Spent s' key := by
  refine ⟨ids ▸ spent.id, hashes ▸ spent.keyHash, fun r x' other here draft => ?_⟩
  obtain ⟨x, old, draft⟩ := pending r x' other here draft
  exact spent.idle r x other old draft

theorem Spent.set {key : ApiKey} (spent : Spent s key) (here : s.handlers r = some x) {x' : Handler}
    (pending : ∀ key, x'.pc.pending = some key → x.pc.pending = some key) :
    Spent (s.set r x') key := by
  refine spent.keep rfl rfl fun i y other found draft => ?_
  rcases Steps.update_eq_some found with ⟨rfl, ⟨⟩⟩ | ⟨-, old⟩
  exacts [⟨x, here, pending other draft⟩, ⟨y, old, draft⟩]

theorem Spent.draw {call : Call} {key : ApiKey} (spent : Spent s key) {s₁ : State}
    (drawn : call.draw hash s = some s₁) (now : Int) :
    Spent (s₁.set r ⟨call, now, call.begin_ hash⟩) key := by
  obtain ⟨id, keyHash, idle⟩ := spent
  rcases draw_spec drawn with ⟨rfl, none_⟩ | ⟨new, draft, -, newId, newHash, rfl⟩
  · refine ⟨id, keyHash, fun i y other found draft => ?_⟩
    rcases Steps.update_eq_some found with ⟨rfl, ⟨⟩⟩ | ⟨-, old⟩
    · rw [none_] at draft
      cases draft
    · exact idle i y other old draft
  · refine ⟨List.mem_cons_of_mem _ id, List.mem_cons_of_mem _ keyHash, fun i y other found draft' => ?_⟩
    rcases Steps.update_eq_some found with ⟨rfl, ⟨⟩⟩ | ⟨-, old⟩
    · cases Option.some.inj (draft.symm.trans draft')
      exact ⟨fun same => newId (same ▸ id), fun same => newHash (same ▸ keyHash)⟩
    · exact idle i y other old draft'

theorem Moves.effect {keys : List ApiKey} {startedAt : Int} {pc : Pc}
    (moves : Moves hash s x keys startedAt pc) {a : Action} (mine : a.moves = some r)
    (here : s.handlers r = some x) : Effect s a ((s.setKeys keys).set r { x with startedAt, pc }) := by
  have spent : ∀ key, Spent s key → Spent ((s.setKeys keys).set r { x with startedAt, pc }) key :=
    fun key old => Spent.set (s := s.setKeys keys) ⟨old.id, old.keyHash, old.idle⟩ here
      (fun other draft => moves.pending_kept other draft)
  rcases moves.rows with ⟨f, rfl, advances⟩ | ⟨key, token, at_, -, admits, rfl⟩
  · refine ⟨fun key member => .inl ⟨f key, List.mem_map_of_mem member, advances key⟩, ?_, spent⟩
    intro key' member
    obtain ⟨key, old, rfl⟩ := List.mem_map.mp member
    exact .inl ⟨key, old, advances key⟩
  · refine ⟨fun old member => .inl ⟨old, List.mem_append_left _ member, .refl old⟩, ?_, spent⟩
    intro key' member
    rcases List.mem_append.mp member with old | new
    · exact .inl ⟨key', old, .refl key'⟩
    · exact .inr ⟨r, x, key, token, mine, here, at_, admits, List.mem_singleton.mp new⟩

theorem Invariant.effect (inv : Invariant s) {a : Action} (stepped : ApiKeys.step hash s a = some s') :
    Effect s a s' := by
  cases step_does stepped with
  | start free drawn now =>
    refine .of_same ?_ fun key spent => spent.draw drawn now
    rcases draw_spec drawn with ⟨rfl, -⟩ | ⟨_, -, -, -, -, rfl⟩ <;> rfl
  | move mine here moves => exact moves.effect mine here
  | fail here => exact .of_same rfl fun key spent => spent.set here fun other draft => by cases draft
  | world db now rows =>
    have idle : ∀ key, Spent s key → Spent { s with db := db, now := now } key :=
      fun key old => old.keep rfl rfl fun i y other found draft => ⟨y, found, draft⟩
    rcases rows with same | ⟨id, rfl, same⟩
    · exact .of_same same idle
    · refine ⟨fun key member => ?_, fun key' member => ?_, idle⟩
      · by_cases mine : key.workspaceID = id
        · refine .inr ⟨by rw [mine], fun key' member' => not_or.mp fun twin => ?_⟩
          obtain ⟨old, other⟩ := List.mem_filter.mp (same ▸ member')
          cases inv.same_row old member twin
          simp [mine] at other
        · exact .inl ⟨key, same ▸ List.mem_filter.mpr ⟨member, by simpa using mine⟩, .refl key⟩
      · exact .inl ⟨key', (List.mem_filter.mp (same ▸ member)).1, .refl key'⟩

/-- No row has the key's id or hash, or will ever have, without `P`. -/
structure Hereafter (s : State) (key : ApiKey) (P : ApiKey → Prop) : Prop where
  spent : Spent s key
  rows : ∀ row ∈ s.db.keys, row.id = key.id ∨ row.keyHash = key.keyHash → P row

theorem Hereafter.step {key : ApiKey} {P : ApiKey → Prop} (stable : ∀ a b, P a → Advances a b → P b)
    (hereafter : Hereafter s key P) {a : Action} (effect : Effect s a s') : Hereafter s' key P := by
  refine ⟨effect.spent key hereafter.spent, fun row' member same => ?_⟩
  rcases effect.origin row' member with ⟨row, old, advances⟩ |
    ⟨r, x, new, token, -, here, at_, -, rfl⟩
  · obtain ⟨id, keyHash, -⟩ := advances.columns
    rw [id, keyHash] at same
    exact stable row row' (hereafter.rows row old same) advances
  · obtain ⟨id, keyHash⟩ := hereafter.spent.idle r x new here (by rw [at_]; rfl)
    exact (same.elim id keyHash).elim

theorem inactive_stable (a b : ApiKey) (revoked : a.active = false) (advances : Advances a b) :
    b.active = false := by
  rw [advances.revoked revoked]
  exact revoked

theorem Invariant.hereafter (inv : Invariant s) {key : ApiKey} {P : ApiKey → Prop}
    (row : key ∈ s.db.keys) (holds : P key) : Hereafter s key P :=
  ⟨inv.rows key row, fun _ other same => inv.same_row row other (same.imp Eq.symm Eq.symm) ▸ holds⟩

theorem invariant_newStore (now : Int) : Invariant (newStore now) := by
  refine ⟨?_, ?_, ?_, .nil⟩ <;> simp [newStore]

end Tracium.ApiKeys
