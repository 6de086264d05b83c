import Tracium.Auth.Cache
import Tracium.Recency

/-! Runs of the verification cache. A history records the uses of the keys, that is the
stores and the live lookup hits, and the list of the cache stays in its order. -/
namespace Tracium.Auth

open Go

inductive CacheOp
  | lookup (cacheKey : Str)
  | lookupStale (cacheKey : Str)
  | store (cacheKey : Str) (entry : CacheEntry)
  | storeStale (cacheKey : Str) (entry : CacheEntry)

/-- A call of the cache and the time it reads. -/
structure CacheCall where
  now : Int
  op : CacheOp

/-- What a call hands to storeEntry. -/
def CacheCall.stored (cfg : Config) (call : CacheCall) : Option (Str × CacheEntry) :=
  match call.op with
  | .lookup _ => none
  | .lookupStale _ => none
  | .store cacheKey entry => (storeStamp cfg call.now entry).map (cacheKey, ·)
  | .storeStale cacheKey entry => (storeStaleStamp cfg call.now entry).map (cacheKey, ·)

/-- The cache after a call. lookupStale writes nothing. -/
def CacheCall.apply (cfg : Config) (c : Cache) (call : CacheCall) : Cache :=
  match call.op with
  | .lookup cacheKey => (lookup cfg call.now c cacheKey).2
  | .lookupStale _ => c
  | .store _ _ | .storeStale _ _ =>
    match call.stored cfg with
    | some (cacheKey, stamped) => storeEntry cfg c cacheKey stamped
    | none => c

/-- The key a call uses: the one it stores, or the one it found live. -/
def CacheCall.used (cfg : Config) (c : Cache) (call : CacheCall) : Option Str :=
  match call.op with
  | .lookup cacheKey => (live cfg call.now c cacheKey).map fun _ => cacheKey
  | .lookupStale _ => none
  | .store _ _ | .storeStale _ _ => (call.stored cfg).map Prod.fst

/-- A cache and the uses so far, the latest first. -/
structure CacheRun where
  cache : Cache
  history : List Str

def CacheRun.step (cfg : Config) (s : CacheRun) (call : CacheCall) : CacheRun :=
  ⟨call.apply cfg s.cache, (call.used cfg s.cache).toList ++ s.history⟩

/-- Any sequence of calls on a new cache. -/
def cacheRun (cfg : Config) (calls : List CacheCall) : CacheRun :=
  calls.foldl (CacheRun.step cfg) ⟨Lru.empty, []⟩

variable {cfg : Config} {c : Cache} {s : CacheRun}

theorem capacity_pos (cfg : Config) : 0 < cfg.capacity := by
  unfold Config.capacity
  split
  · decide
  · omega

/-- What a call that stores does to the cache and the history. -/
theorem CacheCall.of_stored {call : CacheCall} {k : Str} {entry : CacheEntry}
    (stored : call.stored cfg = some (k, entry)) :
    call.apply cfg c = c.put cfg.capacity k entry ∧ call.used cfg c = some k := by
  obtain ⟨now, op⟩ := call
  cases op with
  | lookup cacheKey => cases stored
  | lookupStale cacheKey => cases stored
  | store cacheKey entry => simp [CacheCall.apply, CacheCall.used, stored, Auth.storeEntry]
  | storeStale cacheKey entry => simp [CacheCall.apply, CacheCall.used, stored, Auth.storeEntry]

/-- A call that stores nothing touches the key it found live, or nothing. -/
theorem CacheCall.of_not_stored {call : CacheCall} (stored : call.stored cfg = none) :
    (∃ k, call.used cfg c = some k ∧ c.peek k ≠ none ∧ call.apply cfg c = c.touch k) ∨
      call.used cfg c = none ∧ call.apply cfg c = c := by
  obtain ⟨now, op⟩ := call
  cases op with
  | lookup cacheKey =>
    cases hit : live cfg now c cacheKey with
    | none => exact .inr ⟨by simp [CacheCall.used, hit], by simp [CacheCall.apply, Auth.lookup, hit]⟩
    | some entry =>
      refine .inl ⟨cacheKey, by simp [CacheCall.used, hit], ?_, by simp [CacheCall.apply, Auth.lookup, hit]⟩
      rw [(live_eq_some_iff.mp hit).2.1]
      simp
  | lookupStale cacheKey => exact .inr ⟨rfl, rfl⟩
  | store cacheKey entry => exact .inr ⟨by simp [CacheCall.used, stored], by simp [CacheCall.apply, stored]⟩
  | storeStale cacheKey entry =>
    exact .inr ⟨by simp [CacheCall.used, stored], by simp [CacheCall.apply, stored]⟩

/-- Index and list agree, the capacity is kept and the list stands in the order of the
last uses. -/
structure CacheRun.Ordered (cfg : Config) (s : CacheRun) : Prop where
  wf : s.cache.WellFormed
  bounded : s.cache.ll.length ≤ cfg.capacity
  last : LastUsed s.history s.cache.recency

theorem CacheRun.Ordered.step (ordered : s.Ordered cfg) (call : CacheCall) :
    (s.step cfg call).Ordered cfg := by
  have pos := capacity_pos cfg
  cases stored : call.stored cfg with
  | some pair =>
    obtain ⟨k, entry⟩ := pair
    obtain ⟨after, used⟩ := CacheCall.of_stored (c := s.cache) stored
    simp only [CacheRun.step, after, used, Option.toList_some, List.singleton_append]
    exact {
      wf := ordered.wf.put _ k entry
      bounded := ordered.wf.length_put_le pos ordered.bounded k entry
      last := ordered.last.put ordered.wf pos ordered.bounded k entry }
  | none =>
    rcases CacheCall.of_not_stored (c := s.cache) stored with ⟨k, used, present, after⟩ | ⟨used, after⟩
    · have held : k ∈ s.cache.recency := by
        by_contra absent
        exact present (ordered.wf.peek_none_iff.mpr absent)
      simp only [CacheRun.step, after, used, Option.toList_some, List.singleton_append]
      exact {
        wf := ordered.wf.touch k
        bounded := (ordered.wf.length_touch held).symm ▸ ordered.bounded
        last := ordered.last.touch ordered.wf held }
    · simp only [CacheRun.step, after, used, Option.toList_none, List.nil_append]
      exact ordered

theorem cacheRun_ordered (cfg : Config) (calls : List CacheCall) :
    (cacheRun cfg calls).Ordered cfg := by
  have kept : ∀ (calls : List CacheCall) (s : CacheRun), s.Ordered cfg →
      (calls.foldl (CacheRun.step cfg) s).Ordered cfg := by
    intro calls
    induction calls with
    | nil => exact fun s ordered => ordered
    | cons call rest ih => exact fun s ordered => ih _ (ordered.step call)
  exact kept calls ⟨Lru.empty, []⟩ ⟨Lru.empty_wellFormed, Nat.zero_le _, LastUsed.nil []⟩

/-- After a store every other key reads as before, but for the one it pushed out. -/
theorem CacheRun.Ordered.peek_stored (ordered : s.Ordered cfg) {call : CacheCall} {k : Str}
    {entry : CacheEntry} (stored : call.stored cfg = some (k, entry)) (k' : Str) :
    (call.apply cfg s.cache).peek k' =
      if k' = k then some entry
      else if s.cache.victim cfg.capacity k = some k' then none else s.cache.peek k' := by
  rw [(CacheCall.of_stored stored).1]
  exact ordered.wf.peek_put_eq (capacity_pos cfg) ordered.bounded k k' entry

/-- A call that stores nothing changes no entry. -/
theorem CacheRun.Ordered.peek_read (ordered : s.Ordered cfg) {call : CacheCall}
    (stored : call.stored cfg = none) (k' : Str) :
    (call.apply cfg s.cache).peek k' = s.cache.peek k' := by
  rcases CacheCall.of_not_stored (c := s.cache) stored with ⟨k, _, _, after⟩ | ⟨_, after⟩
  · rw [after]
    exact ordered.wf.peek_touch k k'
  · rw [after]

/-- What the next call does to the cache: a key stored when there is no room pushes out
exactly the one whose last use is the oldest, any other store and every read push out
none, and neither a missed nor a stale lookup changes anything. -/
structure CacheRun.EvictsOldest (cfg : Config) (s : CacheRun) : Prop where
  full : ∀ (call : CacheCall) (k : Str) (entry : CacheEntry), call.stored cfg = some (k, entry) →
    k ∉ s.cache.recency → s.cache.ll.length = cfg.capacity →
      ∃ gone ∈ s.cache.recency, gone ≠ k ∧
        (∀ k' ∈ s.cache.recency, k' ≠ gone → UsedLater s.history k' gone) ∧
        ∀ k', (call.apply cfg s.cache).peek k' =
          if k' = k then some entry else if k' = gone then none else s.cache.peek k'
  room : ∀ (call : CacheCall) (k : Str) (entry : CacheEntry), call.stored cfg = some (k, entry) →
    k ∈ s.cache.recency ∨ s.cache.ll.length < cfg.capacity →
      ∀ k', (call.apply cfg s.cache).peek k' = if k' = k then some entry else s.cache.peek k'
  read : ∀ (call : CacheCall), call.stored cfg = none →
    ∀ k', (call.apply cfg s.cache).peek k' = s.cache.peek k'
  missed : ∀ now k, live cfg now s.cache k = none →
    CacheCall.apply cfg s.cache ⟨now, .lookup k⟩ = s.cache
  stale : ∀ now k, CacheCall.apply cfg s.cache ⟨now, .lookupStale k⟩ = s.cache

theorem CacheRun.Ordered.evictsOldest (ordered : s.Ordered cfg) : s.EvictsOldest cfg := by
  have pos := capacity_pos cfg
  constructor
  · intro call k entry stored absent full
    have out : s.cache.victim cfg.capacity k ≠ none := by
      rw [Ne, Lru.WellFormed.victim_eq_none pos]
      rintro (held | room)
      · exact absent held
      · omega
    obtain ⟨gone, found⟩ := Option.ne_none_iff_exists'.mp out
    obtain ⟨_, _, final⟩ := Lru.WellFormed.victim_eq_some found
    have held : gone ∈ s.cache.recency := List.mem_of_getLast? final
    refine ⟨gone, held, ?_, ordered.last.oldest final, ?_⟩
    · rintro rfl
      exact absent held
    · intro k'
      rw [ordered.peek_stored stored, found]
      simp only [Option.some.injEq, eq_comm]
  · intro call k entry stored kept k'
    have none : s.cache.victim cfg.capacity k = none := (Lru.WellFormed.victim_eq_none pos).mpr kept
    rw [ordered.peek_stored stored, none]
    simp
  · intro call stored k'
    exact ordered.peek_read stored k'
  · intro now k missed
    simp [CacheCall.apply, Auth.lookup, missed]
  · intro now k
    rfl

/-- In every run the index and the list hold the same keys, each once, the list keeps the
capacity and stands in the order of the last stores and live hits, and the cache evicts
by that order alone. -/
theorem cacheRun_lru (cfg : Config) (calls : List CacheCall) :
    1 ≤ cfg.capacity ∧ (cacheRun cfg calls).Ordered cfg ∧ (cacheRun cfg calls).EvictsOldest cfg :=
  ⟨capacity_pos cfg, cacheRun_ordered cfg calls, (cacheRun_ordered cfg calls).evictsOldest⟩

/-- Room for two tokens. -/
def twoEntries : Config where
  cacheTTL := 60
  maxStaleAge := 600
  cacheMaxEntries := 2
  senderVerifyLimit := 0
  senderVerifyWindow := 0
  cacheTTL_nonneg := by decide
  maxStaleAge_nonneg := by decide
  window_pos := by decide

/-- The hit on the older token saves it from the third one. -/
example : (cacheRun twoEntries [⟨0, .store (lit "a") ⟨[], true, 0, none⟩⟩,
    ⟨1, .store (lit "b") ⟨[], true, 0, none⟩⟩, ⟨2, .lookup (lit "a")⟩,
    ⟨3, .store (lit "c") ⟨[], true, 0, none⟩⟩]).cache.recency = [lit "c", lit "a"] := by decide

end Tracium.Auth
