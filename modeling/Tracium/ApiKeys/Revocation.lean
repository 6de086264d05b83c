import Tracium.ApiKeys.Lifecycle

/-! Concurrent revocations. Of the requests that revoke one key at most one succeeds,
whatever the order of their snapshots and commits, and after it the key stays revoked. -/
namespace Tracium.ApiKeys

open Go

variable {hash : Str → Str} {s s' mid : State} {r r' : Nat} {x : Handler}

/-- The workspace and key a revocation is about, as its call and its pieces name them. -/
def Call.revokes : Call → Option (Str × Str)
  | .revoke workspaceID _ keyID => some (workspaceID, keyID)
  | _ => none

def Pc.revokes : Pc → Option (Str × Str)
  | .revokeScope workspaceID _ keyID | .revokeFind workspaceID keyID
  | .revokeWrite workspaceID keyID => some (workspaceID, keyID)
  | _ => none

/-- The request answered 204 to the revocation of the key. -/
def Won (s : State) (r : Nat) (keyID : Str) : Prop :=
  ∃ x workspaceID, s.handlers r = some x ∧ x.call.revokes = some (workspaceID, keyID) ∧
    x.pc = .done .noContent

structure Revocations (s : State) : Prop extends Invariant s where
  told : ∀ r x about, s.handlers r = some x → x.pc.revokes = some about → x.call.revokes = some about
  shut : ∀ r keyID, Won s r keyID →
    ∃ key : ApiKey, key.id = keyID ∧ Hereafter s key (·.active = false)
  once : ∀ r r' keyID, Won s r keyID → Won s r' keyID → r = r'

theorem Moves.revokes {keys : List ApiKey} {startedAt : Int} {pc : Pc}
    (moves : Moves hash s x keys startedAt pc) {about : Str × Str} (later : pc.revokes = some about) :
    x.pc.revokes = some about := by
  cases moves with
  | enter at_ =>
    unfold Pc.scope at at_
    split at at_
    next => cases at_; cases later
    next before =>
      cases at_
      rw [before]
      exact later
    next => cases at_
  | find at_ =>
    rw [at_]
    exact later
  | _ => cases later

theorem begin_revokes (call : Call) : (call.begin_ hash).revokes = call.revokes := by
  cases call <;> rfl

/-- A handler that stays as it was, or is not done with a revocation, has not won one. -/
theorem won_set {y : Handler} {keyID : Str} (unfinished : y.pc ≠ .done .noContent)
    (won : Won (s.set r y) r' keyID) : Won s r' keyID := by
  obtain ⟨x', workspaceID, found, call, done⟩ := won
  rcases Steps.update_eq_some found with ⟨-, ⟨⟩⟩ | ⟨-, old⟩
  · exact absurd done unfinished
  · exact ⟨x', workspaceID, old, call, done⟩

/-- A step in which nobody wins. -/
theorem Revocations.keep (inv : Revocations s) {a : Action} (stepped : step hash s a = some s')
    (told : ∀ r x about, s'.handlers r = some x → x.pc.revokes = some about →
      x.call.revokes = some about)
    (won : ∀ r keyID, Won s' r keyID → Won s r keyID) : Revocations s' := by
  refine ⟨inv.step stepped, told, fun r keyID later => ?_, fun r r' keyID later later' => ?_⟩
  · obtain ⟨key, same, hereafter⟩ := inv.shut r keyID (won r keyID later)
    exact ⟨key, same, hereafter.step inactive_stable (inv.effect stepped)⟩
  · exact inv.once r r' keyID (won r keyID later) (won r' keyID later')

theorem told_set (told : ∀ r x about, s.handlers r = some x → x.pc.revokes = some about →
      x.call.revokes = some about) {y : Handler}
    (own : ∀ about, y.pc.revokes = some about → y.call.revokes = some about) :
    ∀ i x about, (s.set r y).handlers i = some x → x.pc.revokes = some about →
      x.call.revokes = some about := by
  intro i x about found revokes
  rcases Steps.update_eq_some found with ⟨-, ⟨⟩⟩ | ⟨-, old⟩
  exacts [own about revokes, told i x about old revokes]

/-- The commit of a revocation: nobody revoked the key before, and it is revoked now. -/
theorem Revocations.win (inv : Revocations s) (here : s.handlers r = some x)
    {workspaceID keyID : Str} (at_ : x.pc = .revokeWrite workspaceID keyID)
    (found : s.db.keys.any (revocable workspaceID keyID) = true)
    {a : Action} (stepped : step hash s a = some s')
    (result : s' = (s.setKeys (s.db.keys.map (revoking workspaceID keyID x.startedAt))).set r
      { x with pc := .done .noContent }) : Revocations s' := by
  obtain ⟨key, row, picked⟩ := List.any_eq_true.mp found
  have fits := picked
  simp only [revocable, Bool.and_eq_true, beq_iff_eq] at fits
  obtain ⟨⟨id, -⟩, active⟩ := fits
  have mine : x.call.revokes = some (workspaceID, keyID) := inv.told r x _ here (by rw [at_]; rfl)
  have nobody : ∀ i, ¬ Won s i keyID := by
    intro i won
    obtain ⟨other, same, hereafter⟩ := inv.shut i keyID won
    have revoked := hereafter.rows key row (.inl (id.trans same.symm))
    rw [active] at revoked
    cases revoked
  have winners : ∀ i k, Won s' i k → Won s i k ∨ i = r ∧ k = keyID := by
    rintro i k ⟨y, w, started, call, done⟩
    rw [result] at started
    rcases Steps.update_eq_some started with ⟨rfl, ⟨⟩⟩ | ⟨-, old⟩
    · have same := mine.symm.trans call
      cases same
      exact .inr ⟨rfl, rfl⟩
    · exact .inl ⟨y, w, old, call, done⟩
  have effect := inv.effect stepped
  refine ⟨inv.step stepped, ?_, ?_, ?_⟩
  · rw [result]
    exact told_set (s := s.setKeys _) inv.told fun about revokes => by cases revokes
  · intro i k won
    rcases winners i k won with old | ⟨rfl, rfl⟩
    · obtain ⟨other, same, hereafter⟩ := inv.shut i k old
      exact ⟨other, same, hereafter.step inactive_stable effect⟩
    · refine ⟨key, id, effect.spent key (inv.rows key row), fun new member same => ?_⟩
      rw [result] at member
      obtain ⟨old, was, rfl⟩ := List.mem_map.mp member
      obtain ⟨sameId, sameHash, -⟩ := (advances_revoking workspaceID k x.startedAt old).columns
      rw [sameId, sameHash] at same
      cases inv.same_row was row same
      simp [revoking, picked, ApiKey.active]
  · intro i i' k won won'
    rcases winners i k won with old | ⟨rfl, rfl⟩ <;> rcases winners i' k won' with old' | ⟨rfl, same⟩
    · exact inv.once i i' k old old'
    · exact absurd (same ▸ old) (nobody i)
    · exact absurd old' (nobody i')
    · rfl

theorem Revocations.step (inv : Revocations s) {a : Action} (stepped : ApiKeys.step hash s a = some s') :
    Revocations s' := by
  have whole := stepped
  cases step_does stepped with
  | @start i call s₁ free drawn now =>
    have handlers := draw_handlers drawn
    have begun : call.begin_ hash ≠ .done .noContent := by cases call <;> simp [Call.begin_]
    refine inv.keep whole (told_set (s := s₁) (handlers ▸ inv.told) ?_) fun i keyID won => ?_
    · intro about revokes
      rw [begin_revokes] at revokes
      exact revokes
    · obtain ⟨y, w, found, call, done⟩ := won_set (s := s₁) begun won
      exact ⟨y, w, handlers ▸ found, call, done⟩
  | @move _ r x keys startedAt pc mine here moves =>
    by_cases done : pc = .done .noContent
    · cases moves with
      | revoke at_ found =>
        cases done
        exact inv.win here at_ found whole rfl
      | enter at_ =>
        unfold Pc.scope at at_
        split at at_ <;> cases at_ <;> cases done
      | insert at_ admits answers | bump at_ answers =>
        cases done
        rcases answers with told | ⟨_, _, _, told⟩ <;> cases told
      | _ => cases done
    · refine inv.keep whole ?_ fun i keyID won => ?_
      · refine told_set (s := s.setKeys keys) inv.told fun about revokes => ?_
        exact inv.told r x about here (moves.revokes revokes)
      · obtain ⟨y, w, found, call, finished⟩ := won_set (s := s.setKeys keys) done won
        exact ⟨y, w, found, call, finished⟩
  | fail here =>
    refine inv.keep whole (told_set inv.told fun about revokes => by cases revokes) ?_
    exact fun i keyID won => won_set (by simp) won
  | world db now => exact inv.keep whole inv.told fun r keyID won => won

theorem revocations_newStore (now : Int) : Revocations (newStore now) := by
  refine ⟨invariant_newStore now, ?_, ?_, ?_⟩ <;> simp [newStore, Won]

theorem revocations_run {now : Int} {actions : List Action}
    (ran : Steps.run (step hash) (newStore now) actions = some s) : Revocations s :=
  Steps.run_invariant_along (fun _ _ _ inv _ stepped => inv.step stepped)
    (Steps.along_always _ _) ran (revocations_newStore now)

theorem Hereafter.run {key : ApiKey} {P : ApiKey → Prop} (stable : ∀ a b, P a → Advances a b → P b)
    (inv : Invariant mid) (hereafter : Hereafter mid key P) {actions : List Action}
    (ran : Steps.run (ApiKeys.step hash) mid actions = some s) : Hereafter s key P := by
  induction actions generalizing mid with
  | nil => exact Option.some.inj ran ▸ hereafter
  | cons a rest ih =>
    obtain ⟨middle, first, later⟩ := Steps.run_cons ran
    exact ih (inv.step first) (hereafter.step stable (inv.effect first)) later

/-- Each row advances through the rest of the run, or goes with its workspace for good. -/
theorem lasts_run (inv : Invariant mid) {actions : List Action}
    (ran : Steps.run (step hash) mid actions = some s) : ∀ key ∈ mid.db.keys,
    (∃ key' ∈ s.db.keys, Advances key key') ∨ .deleteWorkspace key.workspaceID ∈ actions ∧
      ∀ key' ∈ s.db.keys, key'.id ≠ key.id ∧ key'.keyHash ≠ key.keyHash := by
  induction actions generalizing mid with
  | nil => exact fun key row => .inl ⟨key, Option.some.inj ran ▸ row, .refl key⟩
  | cons a rest ih =>
    obtain ⟨middle, first, later⟩ := Steps.run_cons ran
    have effect := inv.effect first
    intro key row
    rcases effect.onward key row with ⟨next, row', advances⟩ | ⟨rfl, gone⟩
    · obtain ⟨-, -, workspaceID, -⟩ := advances.columns
      rcases ih (inv.step first) later next row' with ⟨last, row'', advances'⟩ | ⟨deleted, gone⟩
      · exact .inl ⟨last, row'', advances.trans advances'⟩
      · obtain ⟨id, keyHash, -⟩ := advances.columns
        rw [id, keyHash] at gone
        exact .inr ⟨List.mem_cons_of_mem _ (workspaceID ▸ deleted), gone⟩
    · have none_ : Hereafter middle key fun _ => False :=
        ⟨effect.spent key (inv.rows key row), fun row' member same =>
          same.elim (gone row' member).1 (gone row' member).2⟩
      have ended := none_.run (fun _ _ h _ => h) (inv.step first) later
      exact .inr ⟨List.mem_cons_self, fun key' member => not_or.mp (ended.rows key' member)⟩

/-- Over any run: a key row keeps its columns and goes only with its workspace, its uses
are a minute apart, a revocation is for good, and one of its revocations succeeds. -/
theorem key_lifecycle (hash : Str → Str) (now : Int) (before after : List Action) (mid s : State)
    (reached : Steps.run (step hash) (newStore now) before = some mid)
    (ran : Steps.run (step hash) mid after = some s) :
    (∀ key ∈ mid.db.keys,
      (∃ key' ∈ s.db.keys, Advances key key') ∨ .deleteWorkspace key.workspaceID ∈ after ∧
        ∀ key' ∈ s.db.keys, key'.id ≠ key.id ∧ key'.keyHash ≠ key.keyHash) ∧
    (∀ key ∈ mid.db.keys, key.active = false →
      ∀ key' ∈ s.db.keys, key'.id = key.id ∨ key'.keyHash = key.keyHash → key' = key) ∧
    (∀ r keyID, Won mid r keyID → ∀ key ∈ s.db.keys, key.id = keyID → key.active = false) ∧
    ∀ r r' keyID, Won s r keyID → Won s r' keyID → r = r' := by
  have inv := revocations_run reached
  have last : Revocations s := Steps.run_invariant_along (fun _ _ _ inv _ stepped => inv.step stepped)
    (Steps.along_always _ _) ran inv
  refine ⟨lasts_run inv.toInvariant ran, fun key row revoked key' row' same => ?_,
    fun r keyID won key row id => ?_, last.once⟩
  · have stays : ∀ a b : ApiKey, a = key → Advances a b → b = key := by
      rintro a b rfl advances
      exact advances.revoked revoked
    exact ((inv.hereafter (P := (· = key)) row rfl).run stays inv.toInvariant ran).rows key' row' same
  · obtain ⟨other, same, hereafter⟩ := inv.shut r keyID won
    exact (hereafter.run inactive_stable inv.toInvariant ran).rows key row (.inl (id.trans same.symm))

/-- The secret of the runs below, and its token. -/
def sampleSecret : Secret := ⟨(List.range 32).map UInt8.ofNat, by decide⟩

def sampleToken : Str := newToken sampleSecret

/-- SHA-256 on the token of the runs, in hex. -/
def sampleHash (token : Str) : Str :=
  if token = sampleToken then lit "5cf1e4e80335d3cec36e0c5da142407c77b49fe32b35baaad2ced8596381f9c2"
  else token

/-- Alice mints a key for the team. -/
def mintKey : List Action :=
  [.addWorkspace (lit "team") (lit "alice"),
    .start 0 (.create (lit "team") (lit "alice") (lit " ci ") (lit "k1") sampleSecret),
    .advance 0, .advance 0]

/-- Bob joins; both revoke the key at once, and both see it active first. -/
def revokeTwice : List Action :=
  [.join (lit "team") (lit "bob"), .start 1 (.revoke (lit "team") (lit "alice") (lit "k1")),
    .start 2 (.revoke (lit "team") (lit "bob") (lit "k1")), .advance 1, .advance 2, .tick 5,
    .advance 1, .advance 2, .advance 2, .advance 1]

theorem key_lifecycle_revokeTwice : ∃ mid s : State,
    Steps.run (step sampleHash) (newStore 0) mintKey = some mid ∧
    Steps.run (step sampleHash) mid revokeTwice = some s ∧
    mid.db.keys.map (·.active) = [true] ∧ s.db.keys.map (·.active) = [false] ∧ Won s 2 (lit "k1") ∧ ¬ Won s 1 (lit "k1") := by
  have ends : (Steps.run (step sampleHash) (newStore 0) mintKey).bind (fun mid =>
      (Steps.run (step sampleHash) mid revokeTwice).map fun s =>
        (mid.db.keys.map (·.active), s.db.keys.map (·.active),
          (s.handlers 2).map fun x =>
            decide (x.call.revokes = some (lit "team", lit "k1") ∧ x.pc = .done .noContent))) =
      some ([true], [false], some true) := by
    decide +kernel
  obtain ⟨mid, reached, ends⟩ := Option.bind_eq_some_iff.mp ends
  obtain ⟨s, ran, shown⟩ := Option.map_eq_some_iff.mp ends
  obtain ⟨minted, shown⟩ := Prod.mk.inj shown
  obtain ⟨revoked, ended⟩ := Prod.mk.inj shown
  obtain ⟨x, found, done⟩ := Option.map_eq_some_iff.mp ended
  obtain ⟨asked, answered⟩ := of_decide_eq_true done
  have won : Won s 2 (lit "k1") := ⟨x, lit "team", found, asked, answered⟩
  obtain ⟨-, -, -, once⟩ := key_lifecycle sampleHash 0 mintKey revokeTwice mid s reached ran
  exact ⟨mid, s, reached, ran, minted, revoked, won, fun other => absurd (once 1 2 _ other won) (by decide)⟩

end Tracium.ApiKeys
