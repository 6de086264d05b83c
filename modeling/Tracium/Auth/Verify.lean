import Tracium.Auth.Cache
import Tracium.Auth.Limiter
import Tracium.Steps

/-! verify as a system of goroutines. One action is one atomic piece of the source: a
critical section, a clock read, a context check or a channel operation. The clock only
moves forward; the API answers, cancellations and the schedule are free. -/
namespace Tracium.Auth

open Go

inductive Error
  | unauthenticated
  | canceled
  | unreachable
  deriving DecidableEq

/-- What the verify endpoint answers; `body` is the decoded workspace_id. -/
inductive Response
  | transport (canceled : Bool)
  | http (status : Nat) (body : Option Str)

def callVerify : Response → Except Error Str
  | .transport canceled => .error (if canceled then .canceled else .unreachable)
  | .http 200 (some workspace) => if workspace = [] then .error .unreachable else .ok workspace
  | .http 200 none => .error .unreachable
  | .http 401 _ => .error .unauthenticated
  | .http _ _ => .error .unreachable

/-- What verify returns. A workspace carries the index of the decision it repeats in the
history, which the code does not keep. -/
inductive Outcome
  | verified (workspace : Str) (decision : Nat)
  | failed (err : Error)
  deriving DecidableEq

/-- Where a goroutine is in verify and doVerify; each names the next piece it runs. -/
inductive Pc
  | enter
  | lookup
  | join
  | wait (call : Nat)
  | recheck
  | limit
  | charge (now : Int)
  | calling
  | answered (answer : Except Error Str)
  | fallback (onMiss : Error)
  | store (entry : CacheEntry)
  | storeStale (entry : CacheEntry) (result : Outcome)
  | storeEntry (entry : CacheEntry) (result : Outcome)
  | result (result : Outcome)
  | mark (result : Outcome)
  | unregister (result : Outcome)
  | close (result : Outcome)
  | done (result : Outcome)

structure Goroutine where
  token : Str
  sender : Str
  canceled : Bool
  pc : Pc

/-- verifyCall. A goroutine leads at most one call, so a call is named by its leader. -/
structure VerifyCall where
  result : Option Outcome
  canceled : Bool
  closed : Bool

/-- What the history records: a leader with a live context took a 200 or a 401 answer for
a token, or a workspace was decided for it. -/
inductive Event
  | accepted (token workspace : Str) (at_ : Int)
  | rejected (token : Str) (at_ : Int)
  | decided (token workspace : Str) (at_ : Int)
  deriving DecidableEq

structure State where
  now : Int
  cache : Cache
  limiter : Option SenderLimiter
  inflight : Str → Option Nat
  calls : Nat → Option VerifyCall
  goroutines : Nat → Option Goroutine
  history : List Event

inductive Action
  | start (g : Nat) (token sender : Str)
  | tick (elapsed : Nat)
  | cancel (g : Nat)
  | giveUp (g : Nat)
  | answer (g : Nat) (response : Response)
  | advance (g : Nat)

def newAuth (cfg : Config) (now : Int) : State where
  now := now
  cache := Lru.empty
  limiter := newSenderLimiter cfg.senderVerifyLimit cfg.senderVerifyWindow
  inflight := fun _ => none
  calls := fun _ => none
  goroutines := fun _ => none
  history := []

namespace State

def set (s : State) (g : Nat) (x : Goroutine) : State :=
  { s with goroutines := Function.update s.goroutines g (some x) }

def goto (s : State) (g : Nat) (x : Goroutine) (pc : Pc) : State := s.set g { x with pc := pc }

def record (s : State) (events : List Event) : State := { s with history := s.history ++ events }

/-- A workspace decided now, and the outcome that repeats it. -/
def decide (s : State) (token workspace : Str) : State × Outcome :=
  (s.record [.decided token workspace s.now], .verified workspace s.history.length)

/-- cachedResult at its critical section: a hit decides, a miss goes on. -/
def cachedResult (cfg : Config) (s : State) (g : Nat) (x : Goroutine) (cacheKey : Str)
    (hit : Outcome → Pc) (miss : Pc) : State :=
  match lookup cfg s.now s.cache cacheKey with
  | (none, _) => s.goto g x miss
  | (some entry, cache) =>
    let s := { s with cache := cache }
    if entry.ok then
      let (s, outcome) := s.decide x.token entry.workspace
      s.goto g x (hit outcome)
    else s.goto g x (hit (.failed .unauthenticated))

def setCall (s : State) (g : Nat) (call : VerifyCall) : State :=
  { s with calls := Function.update s.calls g (some call) }

def updateCall (s : State) (g : Nat) (f : VerifyCall → VerifyCall) : State :=
  { s with calls := Function.update s.calls g ((s.calls g).map f) }

def setInflight (s : State) (cacheKey : Str) (call : Option Nat) : State :=
  { s with inflight := Function.update s.inflight cacheKey call }

def joinInflight (s : State) (g : Nat) (x : Goroutine) (cacheKey : Str) : State :=
  match s.inflight cacheKey with
  | some call => s.goto g x (.wait call)
  | none => ((s.setCall g ⟨none, false, false⟩).setInflight cacheKey (some g)).goto g x .recheck

end State

variable (cfg : Config) (cacheKeyFor : Str → Str)

/-- The next piece of a goroutine that can go on by itself. -/
def advance (s : State) (g : Nat) (x : Goroutine) : Option State :=
  let cacheKey := cacheKeyFor x.token
  match x.pc with
  | .enter => some (s.goto g x (if x.canceled then .done (.failed .canceled) else .lookup))
  | .lookup => some (s.cachedResult cfg g x cacheKey .done .join)
  | .join => some (s.joinInflight g x cacheKey)
  | .wait leader => do
    let call ← s.calls leader
    if call.closed then
      if call.canceled then some (s.goto g x .enter)
      else call.result.map fun outcome => s.goto g x (.done outcome)
    else none
  | .recheck => some (s.cachedResult cfg g x cacheKey .result .limit)
  | .limit => some (s.goto g x (.charge s.now))
  | .charge now =>
    let (allowed, limiter) := allow s.limiter x.sender now
    some ({ s with limiter := limiter }.goto g x
      (if allowed then .calling else .fallback .unauthenticated))
  | .calling => none
  | .answered answer =>
    if x.canceled then some (s.goto g x (.result (.failed .canceled)))
    else match answer with
      | .ok workspace => some (s.goto g x (.store ⟨workspace, true, 0, none⟩))
      | .error .canceled => some (s.goto g x (.result (.failed .canceled)))
      | .error .unauthenticated =>
        some ((s.record [.rejected x.token s.now]).goto g x (.store ⟨[], false, 0, none⟩))
      | .error .unreachable => some (s.goto g x (.fallback .unreachable))
  | .fallback onMiss =>
    match lookupStale cfg s.now s.cache cacheKey with
    | none => some (s.goto g x (.result (.failed onMiss)))
    | some stale =>
      let (s, outcome) := s.decide x.token stale.workspace
      some (s.goto g x (.storeStale stale outcome))
  | .store entry =>
    let (s, outcome) := if entry.ok then
        (s.record [.accepted x.token entry.workspace s.now]).decide x.token entry.workspace
      else (s, .failed .unauthenticated)
    match storeStamp cfg s.now entry with
    | some entry => some (s.goto g x (.storeEntry entry outcome))
    | none => some (s.goto g x (.result outcome))
  | .storeStale stale outcome =>
    match storeStaleStamp cfg s.now stale with
    | some entry => some (s.goto g x (.storeEntry entry outcome))
    | none => some (s.goto g x (.result outcome))
  | .storeEntry entry outcome =>
    some ({ s with cache := storeEntry cfg s.cache cacheKey entry }.goto g x (.result outcome))
  | .result outcome =>
    some ((s.updateCall g fun call => { call with result := some outcome }).goto g x (.mark outcome))
  | .mark outcome =>
    some ((s.updateCall g fun call => { call with canceled := x.canceled }).goto g x
      (.unregister outcome))
  | .unregister outcome => some ((s.setInflight cacheKey none).goto g x (.close outcome))
  | .close outcome =>
    some ((s.updateCall g fun call => { call with closed := true }).goto g x (.done outcome))
  | .done _ => none

def step (s : State) : Action → Option State
  | .start g token sender =>
    match s.goroutines g with
    | none => some (s.set g ⟨token, sender, false, .enter⟩)
    | some _ => none
  | .tick elapsed => some { s with now := s.now + elapsed }
  | .cancel g => (s.goroutines g).map fun x => s.set g { x with canceled := true }
  | .giveUp g => do
    let x ← s.goroutines g
    match x.pc with
    | .wait _ => if x.canceled then some (s.goto g x (.done (.failed .canceled))) else none
    | _ => none
  | .answer g response => do
    let x ← s.goroutines g
    match x.pc with
    | .calling => some (s.goto g x (.answered (callVerify response)))
    | _ => none
  | .advance g => do advance cfg cacheKeyFor s g (← s.goroutines g)

end Tracium.Auth
