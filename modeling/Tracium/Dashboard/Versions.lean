import Mathlib.Algebra.Order.Ring.Int
import Mathlib.Data.List.MinMax
import Tracium.Succession

/-! workflows: which version of a workflow replaced which. -/
namespace Tracium.Dashboard

open Succession

structure WorkflowVersion where
  version : String
  firstSeenMs : Int
  lastSeenMs : Int
  deriving DecidableEq

def dayMs : Int := 86400000

def comparable (v : WorkflowVersion) : Bool := v.version ≠ ""

/-- The reduce of both selections: the first of the versions that were first seen last. -/
def newest (versions : List WorkflowVersion) : Option WorkflowVersion :=
  versions.foldl (fun best o =>
    match best with
    | none => some o
    | some b => if o.firstSeenMs > b.firstSeenMs then some o else some b) none

def previousVersion (versions : List WorkflowVersion) (v : WorkflowVersion) : Option WorkflowVersion :=
  newest (versions.filter fun o =>
    comparable o && o.version ≠ v.version && o.firstSeenMs ≤ v.firstSeenMs)

/-- Without any live version `latest` is -∞, which every version is after. -/
def currentVersion (versions : List WorkflowVersion) : Option WorkflowVersion :=
  let live := versions.filter comparable
  let latest := (live.map WorkflowVersion.lastSeenMs).max?
  newest (live.filter fun v => latest.all fun ms => v.lastSeenMs ≥ ms - dayMs)

/-- The base and the candidate. -/
def defaultPair (versions : List WorkflowVersion) : Option (String × String) :=
  (currentVersion versions).bind fun current =>
    (previousVersion versions current).map fun prev => (prev.version, current.version)

/-- Following previousVersion from `v` never returns to a version already visited. -/
def NeverReturns (versions : List WorkflowVersion) (v : WorkflowVersion) : Prop :=
  ∀ m n u w, m < n → follow (previousVersion versions) v m = some u →
    follow (previousVersion versions) v n = some w → w.version ≠ u.version

/-- What is promised of the release chain of a list. -/
structure ReleaseChain (versions : List WorkflowVersion) : Prop where
  acyclic : ∀ v ∈ versions, comparable v → NeverReturns versions v
  oneWay : ∀ a b, previousVersion versions a = some b → previousVersion versions b ≠ some a
  pair : ∀ base candidate, base ∈ versions → candidate ∈ versions →
    defaultPair versions = some (base.version, candidate.version) →
      ∀ n, follow (previousVersion versions) base n ≠ some candidate

/-- No two comparable versions first seen by `ms` were first seen together. -/
def ApartUntil (versions : List WorkflowVersion) (ms : Int) : Prop :=
  ∀ a ∈ versions, ∀ b ∈ versions, comparable a → comparable b → a.firstSeenMs ≤ ms →
    a.firstSeenMs = b.firstSeenMs → a = b

def Apart (versions : List WorkflowVersion) : Prop :=
  ∀ a ∈ versions, ∀ b ∈ versions, comparable a → comparable b →
    a.firstSeenMs = b.firstSeenMs → a = b

variable {versions : List WorkflowVersion} {v p : WorkflowVersion}

/-- The reduce is List.argmax. -/
theorem newest_spec (versions : List WorkflowVersion) :
    (newest versions = none → versions = []) ∧
    ∀ p, newest versions = some p →
      p ∈ versions ∧ ∀ o ∈ versions, o.firstSeenMs ≤ p.firstSeenMs := by
  have same : newest versions = versions.argmax WorkflowVersion.firstSeenMs := by
    unfold newest List.argmax
    congr 1
    funext best o
    cases best <;> rfl
  rw [same]
  refine ⟨List.argmax_eq_none.mp, ?_⟩
  intro p found
  exact ⟨List.argmax_mem found, fun o member => List.le_of_mem_argmax member found⟩

/-- A version that previousVersion may answer with. -/
def Precedes (versions : List WorkflowVersion) (o v : WorkflowVersion) : Prop :=
  o ∈ versions ∧ comparable o = true ∧ o.version ≠ v.version ∧ o.firstSeenMs ≤ v.firstSeenMs

theorem mem_candidates {o : WorkflowVersion} : (o ∈ versions.filter fun o =>
    comparable o && o.version ≠ v.version && o.firstSeenMs ≤ v.firstSeenMs) ↔
      Precedes versions o v := by
  simp [Precedes, and_assoc]

theorem previousVersion_some (found : previousVersion versions v = some p) :
    Precedes versions p v ∧ ∀ o, Precedes versions o v → o.firstSeenMs ≤ p.firstSeenMs := by
  obtain ⟨member, greatest⟩ := (newest_spec _).2 p found
  refine ⟨mem_candidates.mp member, ?_⟩
  intro o precedes
  exact greatest o (mem_candidates.mpr precedes)

theorem previousVersion_of_precedes {o : WorkflowVersion} (precedes : Precedes versions o v) :
    ∃ p, previousVersion versions v = some p := by
  rw [← Option.isSome_iff_exists, Option.isSome_iff_ne_none]
  intro nothing
  have member := mem_candidates.mpr precedes
  rw [(newest_spec _).1 nothing] at member
  cases member

theorem currentVersion_some (found : currentVersion versions = some v) :
    v ∈ versions ∧ comparable v = true := by
  obtain ⟨member, _⟩ := (newest_spec _).2 v found
  exact List.mem_filter.mp (List.mem_of_mem_filter member)

theorem eq_of_version (distinct : (versions.map WorkflowVersion.version).Nodup)
    {a b : WorkflowVersion} (inside : a ∈ versions) (inside' : b ∈ versions)
    (same : a.version = b.version) : a = b := List.inj_on_of_nodup_map distinct inside inside' same

/-- Before the first tie the chain goes back in time with every step. -/
theorem neverReturns_of_apart (distinct : (versions.map WorkflowVersion.version).Nodup)
    (member : v ∈ versions) (named : comparable v = true)
    (apart : ApartUntil versions v.firstSeenMs) : NeverReturns versions v := by
  let P := fun u : WorkflowVersion =>
    u ∈ versions ∧ comparable u = true ∧ u.firstSeenMs ≤ v.firstSeenMs
  have keeps : ∀ u p, P u → previousVersion versions u = some p → P p := by
    rintro u p ⟨_, _, bound⟩ step
    obtain ⟨⟨inside, named', _, before⟩, _⟩ := previousVersion_some step
    exact ⟨inside, named', before.trans bound⟩
  have falls : ∀ u p, P u → previousVersion versions u = some p →
      p.firstSeenMs < u.firstSeenMs := by
    rintro u p ⟨inside, named', bound⟩ step
    obtain ⟨⟨inside', named'', other, before⟩, _⟩ := previousVersion_some step
    rcases before.lt_or_eq with earlier | tie
    · exact earlier
    · have same := apart p inside' u inside named'' named' (by omega) tie
      exact absurd (congrArg WorkflowVersion.version same) other
  intro m n u w order reached later sameName
  have start : P v := ⟨member, named, le_refl _⟩
  have fallen := follow_lt keeps falls start reached later order
  obtain ⟨inside, _⟩ := follow_keeps keeps start reached
  obtain ⟨inside', _⟩ := follow_keeps keeps start later
  rw [eq_of_version distinct inside' inside sameName] at fallen
  exact lt_irrefl _ fallen

/-- A chain that comes down to a tie never ends: one of the two still precedes. -/
theorem apart_of_neverReturns (distinct : (versions.map WorkflowVersion.version).Nodup)
    (member : v ∈ versions) (never : NeverReturns versions v) :
    ApartUntil versions v.firstSeenMs := by
  intro a insideA b insideB namedA namedB bound tie
  by_contra apart
  have names : a.version ≠ b.version := fun same => apart (eq_of_version distinct insideA insideB same)
  have goesOn : ∀ u, (u ∈ versions ∧ a.firstSeenMs ≤ u.firstSeenMs) →
      ∃ p, previousVersion versions u = some p ∧ p ∈ versions ∧ a.firstSeenMs ≤ p.firstSeenMs := by
    rintro u ⟨_, above⟩
    obtain ⟨o, precedes, level⟩ : ∃ o, Precedes versions o u ∧ o.firstSeenMs = a.firstSeenMs := by
      by_cases isA : a.version = u.version
      · exact ⟨b, ⟨insideB, namedB, fun isB => names (isA.trans isB.symm), by omega⟩, tie.symm⟩
      · exact ⟨a, ⟨insideA, namedA, isA, above⟩, rfl⟩
    obtain ⟨p, step⟩ := previousVersion_of_precedes precedes
    obtain ⟨⟨inside, _⟩, greatest⟩ := previousVersion_some step
    have atLeast := greatest o precedes
    exact ⟨p, step, inside, by omega⟩
  obtain ⟨m, n, u, order, reached, again⟩ :=
    follow_returns (fun _ held => held.1) goesOn ⟨member, bound⟩
  exact never m n u u order reached again rfl

theorem neverReturns_iff (distinct : (versions.map WorkflowVersion.version).Nodup)
    (member : v ∈ versions) (named : comparable v = true) :
    NeverReturns versions v ↔ ApartUntil versions v.firstSeenMs :=
  ⟨apart_of_neverReturns distinct member, neverReturns_of_apart distinct member named⟩

theorem oneWay_of_acyclic
    (acyclic : ∀ v ∈ versions, comparable v → NeverReturns versions v) {a b : WorkflowVersion}
    (forth : previousVersion versions a = some b) : previousVersion versions b ≠ some a := by
  intro back
  obtain ⟨⟨inside, named, _⟩, _⟩ := previousVersion_some back
  have twice : follow (previousVersion versions) a 2 = some a := by
    simp [follow, forth, back]
  exact acyclic a inside named 0 2 a a (by omega) rfl twice rfl

theorem pair_of_acyclic (distinct : (versions.map WorkflowVersion.version).Nodup)
    (acyclic : ∀ v ∈ versions, comparable v → NeverReturns versions v)
    {base candidate : WorkflowVersion} (insideBase : base ∈ versions)
    (insideCandidate : candidate ∈ versions)
    (pair : defaultPair versions = some (base.version, candidate.version)) (n : Nat) :
    follow (previousVersion versions) base n ≠ some candidate := by
  intro reached
  obtain ⟨current, isCurrent, rest⟩ := Option.bind_eq_some_iff.mp pair
  obtain ⟨prev, step, names⟩ := Option.map_eq_some_iff.mp rest
  obtain ⟨inside, named⟩ := currentVersion_some isCurrent
  obtain ⟨⟨inside', _⟩, _⟩ := previousVersion_some step
  obtain rfl := eq_of_version distinct inside insideCandidate (Prod.mk.inj names).2
  obtain rfl := eq_of_version distinct inside' insideBase (Prod.mk.inj names).1
  have again : follow (previousVersion versions) current (1 + n) = some current := by
    rw [follow_add]
    simpa [follow, step] using reached
  exact acyclic current inside named 0 (1 + n) current current (by omega) rfl again rfl

/-- The release chain is sound exactly when no two comparable versions share a first day;
from one version, when none first seen until then do. -/
theorem releaseChain_iff (distinct : (versions.map WorkflowVersion.version).Nodup) :
    (ReleaseChain versions ↔ Apart versions) ∧
    ∀ v ∈ versions, comparable v →
      (NeverReturns versions v ↔ ApartUntil versions v.firstSeenMs) := by
  refine ⟨⟨?_, ?_⟩, fun v member named => neverReturns_iff distinct member named⟩
  · intro chain a insideA b insideB namedA namedB tie
    have apart := apart_of_neverReturns distinct insideA (chain.acyclic a insideA namedA)
    exact apart a insideA b insideB namedA namedB (le_refl _) tie
  · intro apart
    have acyclic : ∀ v ∈ versions, comparable v → NeverReturns versions v := by
      intro v member named
      apply neverReturns_of_apart distinct member named
      exact fun a insideA b insideB namedA namedB _ tie => apart a insideA b insideB namedA namedB tie
    exact ⟨acyclic, fun a b forth => oneWay_of_acyclic acyclic forth,
      fun base candidate insideBase insideCandidate pair =>
        pair_of_acyclic distinct acyclic insideBase insideCandidate pair⟩

/-- Most recently seen first, as the API lists them. -/
def threeReleases : List WorkflowVersion :=
  [⟨"v3", 5 * dayMs, 7 * dayMs⟩, ⟨"", 0, 6 * dayMs⟩, ⟨"v2", 2 * dayMs, 6 * dayMs⟩,
    ⟨"v1", 0, 3 * dayMs⟩]

theorem releaseChain_iff_threeReleases :
    defaultPair threeReleases = some ("v2", "v3") ∧ ReleaseChain threeReleases := by
  have apart : Apart threeReleases := by
    unfold Apart
    decide
  exact ⟨by decide, (releaseChain_iff (by decide)).1.mpr apart⟩

/-- Two releases of one day, in the daily rollup's midnights. -/
def sameDay : List WorkflowVersion := [⟨"v2", 0, dayMs⟩, ⟨"v1", 0, 0⟩]

theorem sameDay_returns :
    (sameDay.map WorkflowVersion.version).Nodup ∧
    defaultPair sameDay = some ("v1", "v2") ∧
    previousVersion sameDay ⟨"v2", 0, dayMs⟩ = some ⟨"v1", 0, 0⟩ ∧
    previousVersion sameDay ⟨"v1", 0, 0⟩ = some ⟨"v2", 0, dayMs⟩ ∧
    ¬NeverReturns sameDay ⟨"v2", 0, dayMs⟩ ∧ ¬ReleaseChain sameDay := by
  have forth : previousVersion sameDay ⟨"v2", 0, dayMs⟩ = some ⟨"v1", 0, 0⟩ := by decide
  have back : previousVersion sameDay ⟨"v1", 0, 0⟩ = some ⟨"v2", 0, dayMs⟩ := by decide
  have twice : follow (previousVersion sameDay) ⟨"v2", 0, dayMs⟩ 2 = some ⟨"v2", 0, dayMs⟩ := by
    simp [follow, forth, back]
  refine ⟨by decide, by decide, forth, back, ?_, ?_⟩
  · intro never
    exact never 0 2 _ _ (by omega) rfl twice rfl
  · intro chain
    exact chain.oneWay _ _ forth back

end Tracium.Dashboard
