import Tracium.ApiKeys.Lifecycle

/-! Who minted a key, and how a handler gets from its call to its answer. The account a row
names was a member of the row's workspace when the request was let in. -/
namespace Tracium.ApiKeys

open Go

variable {hash : Str → Str} {s s' : State} {r : Nat} {x : Handler}

/-- Where a step leaves a handler that was there: as it was, a piece further, or failed. -/
theorem step_handler {a : Action} (stepped : step hash s a = some s') (here : s.handlers r = some x) :
    s'.handlers r = some x ∨
    (∃ keys startedAt pc, Moves hash s x keys startedAt pc ∧
      s'.handlers r = some { x with startedAt, pc }) ∨
    ∃ status code message, s'.handlers r = some { x with pc := .done (.refused status code message) } := by
  have other : ∀ {base : State} {i : Nat} {y : Handler}, base.handlers = s.handlers → r ≠ i →
      (base.set i y).handlers r = some x := by
    intro base i y same different
    exact (Function.update_of_ne different ..).trans (same ▸ here)
  cases step_does stepped with
  | start free drawn =>
    refine .inl (other (draw_handlers drawn) ?_)
    rintro rfl
    cases free.symm.trans here
  | @move _ i y keys startedAt pc mine there moves =>
    by_cases same : r = i
    · subst same
      cases Option.some.inj (here.symm.trans there)
      exact .inr (.inl ⟨keys, startedAt, pc, moves, Function.update_self ..⟩)
    · exact .inl (other rfl same)
  | @fail i y there status code message =>
    by_cases same : r = i
    · subst same
      cases Option.some.inj (here.symm.trans there)
      exact .inr (.inr ⟨status, code, message, Function.update_self ..⟩)
    · exact .inl (other rfl same)
  | world => exact .inl here

theorem step_new {a : Action} (stepped : step hash s a = some s') {x' : Handler}
    (here : s'.handlers r = some x') :
    (∃ call : Call, x'.pc = call.begin_ hash) ∨ ∃ x, s.handlers r = some x := by
  cases step_does stepped with
  | @start i call s₁ free drawn =>
    rcases Steps.update_eq_some here with ⟨-, ⟨⟩⟩ | ⟨-, before⟩
    exacts [.inl ⟨call, rfl⟩, .inr ⟨x', draw_handlers drawn ▸ before⟩]
  | move mine there =>
    rcases Steps.update_eq_some here with ⟨rfl, -⟩ | ⟨-, before⟩
    exacts [.inr ⟨_, there⟩, .inr ⟨x', before⟩]
  | fail there =>
    rcases Steps.update_eq_some here with ⟨rfl, -⟩ | ⟨-, before⟩
    exacts [.inr ⟨_, there⟩, .inr ⟨x', before⟩]
  | world => exact .inr ⟨x', here⟩

theorem step_workspaces {a : Action} (stepped : step hash s a = some s') (named : [] ∉ s.db.workspaces) :
    [] ∉ s'.db.workspaces := by
  cases step_does stepped with
  | start free drawn => rcases draw_spec drawn with ⟨rfl, -⟩ | ⟨_, -, -, -, -, rfl⟩ <;> exact named
  | world db now rows keeps => exact keeps named
  | move | fail => exact named

/-- The key a handler may insert, with the account and workspace it was checked for. -/
def Pc.minting (was : Str × Str → Prop) : Pc → Prop
  | .createScope workspaceID userID key _ => key.workspaceID = workspaceID ∧ key.createdBy = userID
  | .createInsert key _ => key.workspaceID = [] ∨ was (key.workspaceID, key.createdBy)
  | _ => True

/-- `was` holds of every account and workspace that were member and workspace once. -/
structure Minted (was : Str × Str → Prop) (s : State) : Prop where
  members : ∀ p ∈ s.db.members, was p
  workspaces : [] ∉ s.db.workspaces
  handlers : ∀ r x, s.handlers r = some x → x.pc.minting was
  rows : ∀ key ∈ s.db.keys, was (key.workspaceID, key.createdBy)

theorem Pc.minting_mono {was was' : Str × Str → Prop} (more : ∀ p, was p → was' p) {pc : Pc}
    (minting : pc.minting was) : pc.minting was' := by
  cases pc <;> first | exact minting | exact minting.imp_right (more _)

theorem Minted.mono {was was' : Str × Str → Prop} (more : ∀ p, was p → was' p)
    (minted : Minted was s) : Minted was' s :=
  ⟨fun p member => more p (minted.members p member), minted.workspaces,
    fun r x here => Pc.minting_mono more (minted.handlers r x here),
    fun key row => more _ (minted.rows key row)⟩

theorem Moves.minting {was : Str × Str → Prop} {keys : List ApiKey} {startedAt : Int} {pc : Pc}
    (moves : Moves hash s x keys startedAt pc) (members : ∀ p ∈ s.db.members, was p)
    (minting : x.pc.minting was) : pc.minting was := by
  cases moves with
  | enter at_ member =>
    unfold Pc.scope at at_
    split at at_
    next before =>
      cases at_
      rw [before] at minting
      obtain ⟨workspaceID, createdBy⟩ := minting
      rw [← workspaceID, ← createdBy] at member
      exact member.imp_right (members _)
    next => cases at_; trivial
    next => cases at_
  | _ => trivial

theorem begin_minting {was : Str × Str → Prop} (call : Call) : (call.begin_ hash).minting was := by
  cases call
  exacts [⟨rfl, rfl⟩, trivial, trivial]

/-- A step keeps who minted what, once the members it leaves are known to `was`. -/
theorem Minted.step {was : Str × Str → Prop} (inv : Invariant s) (minted : Minted was s) {a : Action}
    (stepped : ApiKeys.step hash s a = some s') (members : ∀ p ∈ s'.db.members, was p) :
    Minted was s' := by
  refine ⟨members, step_workspaces stepped minted.workspaces, fun r x' here => ?_, fun key' member => ?_⟩
  · rcases step_new stepped here with ⟨call, begun⟩ | ⟨x, old⟩
    · exact begun ▸ begin_minting call
    · have before := minted.handlers r x old
      rcases step_handler stepped old with same | ⟨keys, startedAt, pc, moves, same⟩ | ⟨_, _, _, same⟩
      all_goals cases Option.some.inj (here.symm.trans same)
      exacts [before, moves.minting minted.members before, trivial]
  · rcases (inv.effect stepped).origin key' member with ⟨key, row, advances⟩ |
      ⟨r, x, key, token, -, here, at_, admits, rfl⟩
    · obtain ⟨-, -, workspaceID, createdBy⟩ := advances.columns
      rw [workspaceID, createdBy]
      exact minted.rows key row
    · have checked := minted.handlers r x here
      rw [at_] at checked
      simp only [Tables.admits, Bool.and_eq_true, Tables.hasWorkspace_iff] at admits
      exact checked.resolve_left fun empty => minted.workspaces (empty ▸ admits.1)

end Tracium.ApiKeys
