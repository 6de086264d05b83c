import Mathlib.Order.Lattice
import Tracium.Go.Bytes
import Tracium.Lru

/-! The verification cache of the ingest-auth extension. Times and durations are
nanoseconds; a zero `time.Time` is `none`. -/
namespace Tracium.Auth

open Go

/-- The settings verify reads, as Config.Validate admits them. -/
structure Config where
  cacheTTL : Int
  maxStaleAge : Int
  cacheMaxEntries : Int
  senderVerifyLimit : Int
  senderVerifyWindow : Int
  cacheTTL_nonneg : 0 ≤ cacheTTL
  maxStaleAge_nonneg : 0 ≤ maxStaleAge
  window_pos : 0 < senderVerifyLimit → 0 < senderVerifyWindow

def second : Int := 1000000000

def defaultCacheMaxEntries : Nat := 10000

def shortCacheTTL : Int := 5 * second

def Config.capacity (cfg : Config) : Nat :=
  if cfg.cacheMaxEntries ≤ 0 then defaultCacheMaxEntries else cfg.cacheMaxEntries.toNat

def Config.shortTTL (cfg : Config) : Int :=
  if shortCacheTTL < cfg.cacheTTL then shortCacheTTL else cfg.cacheTTL

structure CacheEntry where
  workspace : Str
  ok : Bool
  expires : Int
  verifiedAt : Option Int
  deriving DecidableEq

abbrev Cache := Lru Str CacheEntry

/-- The entry lookup answers with. -/
def live (cfg : Config) (now : Int) (c : Cache) (cacheKey : Str) : Option CacheEntry :=
  if cfg.cacheTTL ≤ 0 then none
  else (c.peek cacheKey).filter fun entry => ¬ now > entry.expires

/-- A hit is moved to the front; a miss keeps the expired entry where it is. -/
def lookup (cfg : Config) (now : Int) (c : Cache) (cacheKey : Str) : Option CacheEntry × Cache :=
  match live cfg now c cacheKey with
  | some entry => (some entry, c.touch cacheKey)
  | none => (none, c)

def lookupStale (cfg : Config) (now : Int) (c : Cache) (cacheKey : Str) : Option CacheEntry :=
  if cfg.cacheTTL ≤ 0 ∨ cfg.maxStaleAge ≤ 0 then none
  else (c.peek cacheKey).filter fun entry =>
    entry.ok && match entry.verifiedAt with
      | none => false
      | some at_ => now < at_ + cfg.maxStaleAge

def storeEntry (cfg : Config) (c : Cache) (cacheKey : Str) (entry : CacheEntry) : Cache :=
  c.put cfg.capacity cacheKey entry

/-- The entry store hands to storeEntry, stamped with the time it read. -/
def storeStamp (cfg : Config) (now : Int) (entry : CacheEntry) : Option CacheEntry :=
  if cfg.cacheTTL ≤ 0 then none
  else if entry.ok then
    some { entry with verifiedAt := some now, expires := now + cfg.cacheTTL }
  else some { entry with expires := now + cfg.shortTTL }

/-- The entry storeStale hands to storeEntry, when its deadline has not passed. -/
def storeStaleStamp (cfg : Config) (now : Int) (entry : CacheEntry) : Option CacheEntry :=
  if cfg.cacheTTL ≤ 0 ∨ cfg.maxStaleAge ≤ 0 then none
  else match entry.verifiedAt with
    -- the deadline of a zero time lies in the past
    | none => none
    | some at_ =>
      if now < at_ + cfg.maxStaleAge then
        some { entry with expires := min (now + cfg.shortTTL) (at_ + cfg.maxStaleAge) }
      else none

variable {cfg : Config} {now now' : Int} {c c' : Cache} {cacheKey : Str} {entry stamped : CacheEntry}

theorem live_eq_some_iff : live cfg now c cacheKey = some entry ↔
    0 < cfg.cacheTTL ∧ c.peek cacheKey = some entry ∧ now ≤ entry.expires := by
  unfold live
  split
  next off => simp only [reduceCtorEq, false_iff]; omega
  next on =>
    rw [Option.filter_eq_some_iff, decide_eq_true_eq, not_lt]
    exact ⟨fun hit => ⟨by omega, hit⟩, fun hit => hit.2⟩

theorem lookup_fst : (lookup cfg now c cacheKey).1 = live cfg now c cacheKey := by
  unfold lookup
  split <;> simp_all

theorem lookup_wellFormed (wf : c.WellFormed) : (lookup cfg now c cacheKey).2.WellFormed := by
  unfold lookup
  split
  exacts [wf.touch cacheKey, wf]

theorem peek_lookup (wf : c.WellFormed) (k : Str) :
    (lookup cfg now c cacheKey).2.peek k = c.peek k := by
  unfold lookup
  split
  exacts [wf.peek_touch cacheKey k, rfl]

/-- A missing or expired entry stays so as time passes, while nobody writes the key; an
eviction changes nothing. -/
theorem live_none_mono (later : now ≤ now')
    (kept : ∀ entry, c'.peek cacheKey = some entry → c.peek cacheKey = some entry)
    (missed : live cfg now c cacheKey = none) : live cfg now' c' cacheKey = none := by
  rw [Option.eq_none_iff_forall_ne_some] at missed ⊢
  intro entry hit
  obtain ⟨on, cached, unexpired⟩ := live_eq_some_iff.mp hit
  exact missed entry (live_eq_some_iff.mpr ⟨on, kept entry cached, later.trans unexpired⟩)

theorem lookupStale_eq_some_iff : lookupStale cfg now c cacheKey = some entry ↔
    0 < cfg.cacheTTL ∧ 0 < cfg.maxStaleAge ∧ c.peek cacheKey = some entry ∧ entry.ok = true ∧
      ∃ at_, entry.verifiedAt = some at_ ∧ now < at_ + cfg.maxStaleAge := by
  unfold lookupStale
  split
  next off =>
    constructor
    · intro h
      cases h
    · rintro ⟨ttl, stale, -⟩
      omega
  next on =>
    rw [Option.filter_eq_some_iff, Bool.and_eq_true]
    have ttl : 0 < cfg.cacheTTL := by omega
    have stale : 0 < cfg.maxStaleAge := by omega
    cases entry.verifiedAt <;> simp [ttl, stale]

theorem storeStamp_positive (stored : storeStamp cfg now entry = some stamped) :
    0 < cfg.cacheTTL ∧ stamped.ok = entry.ok ∧ (entry.ok = true →
      stamped.workspace = entry.workspace ∧ stamped.verifiedAt = some now ∧
      stamped.expires = now + cfg.cacheTTL) := by
  unfold storeStamp at stored
  split at stored
  next => cases stored
  next on =>
    split at stored
    next ok =>
      rw [← Option.some.inj stored]
      exact ⟨by omega, rfl, fun _ => ⟨rfl, rfl, rfl⟩⟩
    next notOk =>
      rw [← Option.some.inj stored]
      exact ⟨by omega, rfl, fun ok => absurd ok notOk⟩

/-- A re-cached positive keeps its verification time and ends by its deadline. -/
theorem storeStaleStamp_spec (stored : storeStaleStamp cfg now entry = some stamped) :
    0 < cfg.cacheTTL ∧ 0 < cfg.maxStaleAge ∧ stamped.ok = entry.ok ∧
      stamped.workspace = entry.workspace ∧ stamped.verifiedAt = entry.verifiedAt ∧
      ∃ at_, entry.verifiedAt = some at_ ∧ stamped.expires ≤ at_ + cfg.maxStaleAge := by
  unfold storeStaleStamp at stored
  split at stored
  next => cases stored
  next on =>
    cases verified : entry.verifiedAt with
    | none => simp [verified] at stored
    | some at_ =>
      simp only [verified] at stored
      split at stored
      next =>
        rw [← Option.some.inj stored]
        exact ⟨by omega, by omega, rfl, rfl, rfl, at_, rfl, min_le_right _ _⟩
      next => cases stored

end Tracium.Auth
