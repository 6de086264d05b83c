import Tracium.CappedCounts
import Tracium.Enrich
import Tracium.Steps
import Mathlib.Data.Nat.ModEq

/-! The rejection tally of the dead-letter sink. Put counts a rejected span under the
mutex; one goroutine swaps the map out, writes it and, when the write fails, merges it
back into whatever Put has counted meanwhile. Each critical section is one action, so a
run is an arbitrary interleaving of them. -/
namespace Tracium.DeadLetter

open Go OrderedMap CappedCounts

variable {F : Type}

/-- Rejection is the key rejected spans are counted by. -/
structure Rejection where
  workspaceID : Str
  code : Str
deriving DecidableEq

def maxPendingRejections : Nat := 10000

/-- A count is a uint64. -/
def word : Nat := 2 ^ 64

/-- Record with the pointer Put tests. -/
structure Record (F : Type) where
  code : Str
  reason : Str
  span : Option (Span F)

/-- Keyless spans have no workspace and are not charged to any. -/
def Record.rejection (rec : Record F) : Option Rejection :=
  match rec.span with
  | none => none
  | some span => if span.workspaceID ≠ [] then some ⟨span.workspaceID, rec.code⟩ else none

/-- Where the goroutine of `run` stands. `last` marks the flush made after stop. -/
inductive FlushLoop where
  | waiting
  | writing (tally : List (Rejection × Nat)) (last : Bool)
  | failed (tally : List (Rejection × Nat)) (last : Bool)
  | returned

/-- TallyStore with what the writer has persisted. The counts the cap refused are kept
beside the map. -/
structure TallyStore where
  tally : Held Rejection
  loop : FlushLoop
  stopped : Bool
  written : Rejection → Nat

def newTallyStore : TallyStore := ⟨⟨[], fun _ => 0⟩, .waiting, false, fun _ => 0⟩

inductive Action (F : Type) where
  | put (rec : Record F)
  | close
  | flush (last : Bool)
  | wrote
  | writeFailed
  | mergeBack (order : List (Rejection × Nat))

/-- add, called with the mutex held. -/
def TallyStore.add (s : TallyStore) (r : Rejection) (n : Nat) : TallyStore :=
  { s with tally := s.tally.add maxPendingRejections word r n }

/-- The part of Put under the mutex; forwarding to the next store reads nothing of it. -/
def TallyStore.put (s : TallyStore) (rec : Record F) : TallyStore :=
  match rec.rejection with
  | none => s
  | some r => s.add r 1

/-- The loop after a flush: back to the select, or out of it when stop was chosen. -/
def FlushLoop.next (last : Bool) : FlushLoop := if last then .returned else .waiting

/-- flush up to WriteRejected: nothing to do, or the map swapped for an empty one. -/
def TallyStore.swap (s : TallyStore) (last : Bool) : TallyStore :=
  if s.tally.counts.length = 0 then { s with loop := .next last }
  else { s with
    tally := { s.tally with counts := [] }
    loop := .writing s.tally.counts last }

/-- One action. `order` is the order the range over the batch takes, any order at all. -/
def step (s : TallyStore) : Action F → Option TallyStore
  | .put rec => some (s.put rec)
  | .close => if s.stopped then none else some { s with stopped := true }
  | .flush last =>
    match s.loop with
    | .waiting => if last && !s.stopped then none else some (s.swap last)
    | _ => none
  | .wrote =>
    match s.loop with
    | .writing tally last =>
      some { s with loop := .next last, written := fun r => s.written r + count tally r }
    | _ => none
  | .writeFailed =>
    match s.loop with
    | .writing tally last => some { s with loop := .failed tally last }
    | _ => none
  | .mergeBack order =>
    match s.loop with
    | .failed tally last =>
      if order.isPerm tally then
        some { s with
          tally := s.tally.addAll maxPendingRejections word order
          loop := .next last }
      else none
    | _ => none

/-- The batch the goroutine holds. -/
def FlushLoop.batch : FlushLoop → List (Rejection × Nat)
  | .writing tally _ => tally
  | .failed tally _ => tally
  | _ => []

def Action.rejection : Action F → Option Rejection
  | .put rec => rec.rejection
  | _ => none

/-- The keys charged in a run, one entry a Put. -/
def charged (actions : List (Action F)) : List Rejection := actions.filterMap Action.rejection

/-- After the Puts of `keys`: what was charged is written, pending, in the batch or
refused, up to whole words; and the cap refuses nothing while the keys fit under it. -/
structure Invariant (keys : List Rejection) (s : TallyStore) : Prop where
  bounded : s.tally.Bounded maxPendingRejections
  batch : DistinctKeys s.loop.batch
  pendingKeys : s.tally.keys ⊆ keys
  batchKeys : s.loop.batch.map Prod.fst ⊆ keys
  conserved : ∀ r, ∃ wraps,
    keys.count r = s.written r + count s.loop.batch r + s.tally.sum r + word * wraps
  kept : keys.toFinset.card ≤ maxPendingRejections → ∀ r, s.tally.refused r = 0

theorem newTallyStore_invariant : Invariant [] newTallyStore where
  bounded := ⟨List.nodup_nil, Nat.zero_le _⟩
  batch := List.nodup_nil
  pendingKeys := List.nil_subset _
  batchKeys := List.nil_subset _
  conserved := fun _ => ⟨0, rfl⟩
  kept := fun _ _ => rfl

variable {keys : List Rejection} {s s' : TallyStore}

@[simp] theorem batch_next (last : Bool) : (FlushLoop.next last).batch = [] := by
  cases last <;> rfl

theorem fewer_keys {r : Rejection}
    (few : (keys ++ [r]).toFinset.card ≤ maxPendingRejections) :
    keys.toFinset.card ≤ maxPendingRejections := by
  have wider : keys.toFinset ⊆ (keys ++ [r]).toFinset := by
    intro x member
    rw [List.mem_toFinset] at member ⊢
    exact List.mem_append_left _ member
  exact (Finset.card_le_card wider).trans few

theorem Invariant.add (inv : Invariant keys s) (r : Rejection) :
    Invariant (keys ++ [r]) (s.add r 1) where
  bounded := Held.add_bounded inv.bounded r 1
  batch := inv.batch
  pendingKeys := by
    have inside : s.tally.keys ⊆ keys ++ [r] := fun k member =>
      List.mem_append_left _ (inv.pendingKeys member)
    exact Held.add_keys_subset inside r 1 (List.mem_append_right _ List.mem_cons_self)
  batchKeys := fun k member => List.mem_append_left _ (inv.batchKeys member)
  conserved := by
    intro other
    obtain ⟨before, balance⟩ := inv.conserved other
    obtain ⟨wraps, added⟩ : ∃ wraps, s.tally.sum other + (if r = other then 1 else 0) =
        (s.tally.add maxPendingRejections word r 1).sum other + word * wraps :=
      s.tally.add_sum r 1 other
    have counted : (keys ++ [r]).count other = keys.count other + if r = other then 1 else 0 := by
      rw [List.count_append, List.count_singleton]
      simp
    refine ⟨before + wraps, ?_⟩
    rw [Nat.mul_add]
    show _ = s.written other + count s.loop.batch other +
      (s.tally.add maxPendingRejections word r 1).sum other + _
    omega
  kept := by
    intro few other
    have inside : s.tally.keys ⊆ keys ++ [r] := fun k member =>
      List.mem_append_left _ (inv.pendingKeys member)
    have same : (s.tally.add maxPendingRejections word r 1).refused = s.tally.refused :=
      Held.add_refused inv.bounded inside r 1 (List.mem_append_right _ List.mem_cons_self) few
    show (s.tally.add maxPendingRejections word r 1).refused other = 0
    rw [same]
    exact inv.kept (fewer_keys few) other

theorem Invariant.put (inv : Invariant keys s) (rec : Record F) :
    Invariant (keys ++ rec.rejection.toList) (s.put rec) := by
  unfold TallyStore.put
  cases charge : rec.rejection with
  | none => simpa using inv
  | some r => exact inv.add r

theorem Invariant.swap (inv : Invariant keys s) (free : s.loop = .waiting) (last : Bool) :
    Invariant keys (s.swap last) := by
  have idle : s.loop.batch = [] := by rw [free]; rfl
  unfold TallyStore.swap
  split
  · exact {
      bounded := inv.bounded
      batch := by simp [DistinctKeys]
      pendingKeys := inv.pendingKeys
      batchKeys := by simp
      conserved := by simpa [idle] using inv.conserved
      kept := inv.kept }
  · exact {
      bounded := ⟨List.nodup_nil, Nat.zero_le _⟩
      batch := inv.bounded.distinct
      pendingKeys := List.nil_subset _
      batchKeys := inv.pendingKeys
      conserved := by
        intro r
        obtain ⟨wraps, balance⟩ := inv.conserved r
        refine ⟨wraps, ?_⟩
        simp only [idle, Held.sum, count_nil] at balance ⊢
        simp only [FlushLoop.batch]
        omega
      kept := inv.kept }

theorem Invariant.wrote (inv : Invariant keys s) {tally : List (Rejection × Nat)} {last : Bool}
    (writing : s.loop = .writing tally last) :
    Invariant keys
      { s with loop := .next last, written := fun r => s.written r + count tally r } where
  bounded := inv.bounded
  batch := by simp [DistinctKeys]
  pendingKeys := inv.pendingKeys
  batchKeys := by simp
  conserved := by
    intro r
    obtain ⟨wraps, balance⟩ := inv.conserved r
    refine ⟨wraps, ?_⟩
    rw [writing] at balance
    simp only [FlushLoop.batch] at balance
    simpa using balance
  kept := inv.kept

theorem Invariant.writeFailed (inv : Invariant keys s) {tally : List (Rejection × Nat)}
    {last : Bool} (writing : s.loop = .writing tally last) :
    Invariant keys { s with loop := .failed tally last } where
  bounded := inv.bounded
  batch := by simpa [writing, FlushLoop.batch] using inv.batch
  pendingKeys := inv.pendingKeys
  batchKeys := by simpa [writing, FlushLoop.batch] using inv.batchKeys
  conserved := by simpa [writing, FlushLoop.batch] using inv.conserved
  kept := inv.kept

/-- Merging back moves the batch into the tally, whatever Put has counted meanwhile. -/
theorem Invariant.mergeBack (inv : Invariant keys s) {tally order : List (Rejection × Nat)}
    {last : Bool} (failed : s.loop = .failed tally last) (perm : order.Perm tally) :
    Invariant keys { s with
      tally := s.tally.addAll maxPendingRejections word order
      loop := .next last } := by
  have distinct : DistinctKeys tally := by simpa [failed, FlushLoop.batch] using inv.batch
  have known : ∀ e ∈ order, e.1 ∈ keys := by
    intro e member
    apply inv.batchKeys
    rw [failed]
    exact List.mem_map_of_mem (perm.mem_iff.mp member)
  exact {
    bounded := Held.addAll_bounded inv.bounded order
    batch := by simp [DistinctKeys]
    pendingKeys := Held.addAll_keys_subset inv.pendingKeys known
    batchKeys := by simp
    conserved := by
      intro r
      obtain ⟨before, balance⟩ := inv.conserved r
      obtain ⟨wraps, merged⟩ : ∃ wraps, s.tally.sum r +
          (order.map fun e => if e.1 = r then e.2 else 0).sum =
          (s.tally.addAll maxPendingRejections word order).sum r + word * wraps :=
        s.tally.addAll_sum order r
      rw [(perm.map _).sum_eq, sum_entries tally distinct] at merged
      rw [failed] at balance
      refine ⟨before + wraps, ?_⟩
      rw [Nat.mul_add, batch_next]
      simp only [FlushLoop.batch, count_nil] at balance ⊢
      omega
    kept := by
      intro few
      rw [Held.addAll_refused inv.bounded inv.pendingKeys known few]
      exact inv.kept few }

theorem Invariant.step (inv : Invariant keys s) (a : Action F)
    (stepped : DeadLetter.step s a = some s') :
    Invariant (keys ++ a.rejection.toList) s' := by
  cases a with
  | put rec =>
    obtain rfl : s.put rec = s' := Option.some.inj stepped
    exact inv.put rec
  | close =>
    simp only [DeadLetter.step] at stepped
    split at stepped
    · cases stepped
    · cases stepped
      simpa [Action.rejection] using
        { inv with : Invariant keys { s with stopped := true } }
  | flush last =>
    simp only [DeadLetter.step] at stepped
    split at stepped
    · rename_i waiting
      split at stepped
      · cases stepped
      · cases stepped
        simpa [Action.rejection] using inv.swap waiting last
    · cases stepped
  | wrote =>
    simp only [DeadLetter.step] at stepped
    split at stepped
    · rename_i tally last writing
      cases stepped
      simpa [Action.rejection] using inv.wrote writing
    · cases stepped
  | writeFailed =>
    simp only [DeadLetter.step] at stepped
    split at stepped
    · rename_i tally last writing
      cases stepped
      simpa [Action.rejection] using inv.writeFailed writing
    · cases stepped
  | mergeBack order =>
    simp only [DeadLetter.step] at stepped
    split at stepped
    · rename_i tally last failed
      split at stepped
      · rename_i perm
        cases stepped
        simpa [Action.rejection] using inv.mergeBack failed (List.isPerm_iff.mp perm)
      · cases stepped
    · cases stepped

theorem Invariant.run (inv : Invariant keys s) {actions : List (Action F)}
    (ran : Steps.run DeadLetter.step s actions = some s') :
    Invariant (keys ++ charged actions) s' := by
  induction actions generalizing keys s with
  | nil =>
    obtain rfl : s = s' := Option.some.inj ran
    simpa [charged] using inv
  | cons a rest ih =>
    obtain ⟨middle, first, later⟩ := Steps.run_cons ran
    have after := ih (inv.step a first) later
    have split : charged (a :: rest) = a.rejection.toList ++ charged rest := by
      unfold charged
      cases charge : a.rejection with
      | none => rw [List.filterMap_cons_none charge, Option.toList_none, List.nil_append]
      | some r => rw [List.filterMap_cons_some charge, Option.toList_some, List.singleton_append]
    rwa [split, ← List.append_assoc]

/-- A span of workspace `w` rejected with code "c". -/
def rejected (w : Str) : Record Nat := ⟨[99], [], some { workspaceID := w, costUSD := 0 }⟩

/-- Conservation of the tally over every interleaving. Counts are uint64, so the exact
equation is stated for keys charged fewer than 2^64 times and the rest modulo 2^64. -/
theorem tally_conserved (actions : List (Action F)) (s : TallyStore)
    (ran : Steps.run DeadLetter.step newTallyStore actions = some s) :
    (∀ r, (charged actions).count r ≡
        s.written r + count s.tally.counts r + count s.loop.batch r + s.tally.refused r
          [MOD 2 ^ 64] ∧
      ((charged actions).count r < 2 ^ 64 → (charged actions).count r =
        s.written r + count s.tally.counts r + count s.loop.batch r + s.tally.refused r)) ∧
    (DistinctKeys s.tally.counts ∧ s.tally.counts.length ≤ maxPendingRejections) ∧
    ((charged actions).toFinset.card ≤ maxPendingRejections → ∀ r, s.tally.refused r = 0) := by
  have inv : Invariant (charged actions) s := newTallyStore_invariant.run ran
  refine ⟨fun r => ?_, ⟨inv.bounded.distinct, inv.bounded.length⟩, inv.kept⟩
  obtain ⟨wraps, balance⟩ := inv.conserved r
  unfold Held.sum word at balance
  constructor
  · unfold Nat.ModEq
    omega
  · intro below
    omega

/-- A write that fails while another Put lands, then the flush made on Close. -/
def failedWriteRun : List (Action Nat) :=
  [.put (rejected [119]), .flush false, .put (rejected [119]), .put (rejected []), .writeFailed,
    .mergeBack [(⟨[119], [99]⟩, 1)], .close, .flush true, .wrote]

theorem tally_conserved_failed_write : ∃ s,
    Steps.run DeadLetter.step newTallyStore failedWriteRun = some s ∧
    s.written ⟨[119], [99]⟩ = 2 ∧
    (charged failedWriteRun).count ⟨[119], [99]⟩ =
      s.written ⟨[119], [99]⟩ + count s.tally.counts ⟨[119], [99]⟩ +
      count s.loop.batch ⟨[119], [99]⟩ + s.tally.refused ⟨[119], [99]⟩ := by
  refine ⟨_, rfl, rfl, ?_⟩
  exact ((tally_conserved failedWriteRun _ rfl).1 ⟨[119], [99]⟩).2 (by decide)

end Tracium.DeadLetter
