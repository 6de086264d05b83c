import Mathlib.Data.List.Basic
import Tracium.Go.Bytes
import Tracium.OrderedMap

/-! The fixed-window limiter of the ingest-auth extension, keyed by sender. -/
namespace Tracium.Auth

open Go OrderedMap

structure SenderWindow where
  count : Int
  start : Int
  deriving DecidableEq

structure SenderLimiter where
  limit : Int
  window : Int
  maxEntries : Nat
  seen : List (Str × SenderWindow)

def senderLimiterMaxEntries : Nat := 100000

/-- A disabled limiter is nil. -/
def newSenderLimiter (limit window : Int) : Option SenderLimiter :=
  if limit ≤ 0 ∨ window ≤ 0 then none else some ⟨limit, window, senderLimiterMaxEntries, []⟩

def SenderLimiter.sweep (s : SenderLimiter) (now : Int) : SenderLimiter :=
  { s with seen := s.seen.filter fun e => ¬ now - e.2.start ≥ s.window }

def SenderLimiter.open (s : SenderLimiter) (sender : Str) (now : Int) : SenderLimiter :=
  { s with seen := put s.seen sender ⟨1, now⟩ }

/-- One call at the time it read before taking the lock. -/
def SenderLimiter.allow (s : SenderLimiter) (sender : Str) (now : Int) : Bool × SenderLimiter :=
  match get s.seen sender with
  | some w =>
    if now - w.start ≥ s.window then (true, s.open sender now)
    else if w.count ≥ s.limit then (false, s)
    else (true, { s with seen := put s.seen sender { w with count := w.count + 1 } })
  | none =>
    if s.seen.length ≥ s.maxEntries then
      let swept := s.sweep now
      if swept.seen.length ≥ swept.maxEntries then (false, swept) else (true, swept.open sender now)
    else (true, s.open sender now)

/-- A nil limiter always allows. -/
def allow (limiter : Option SenderLimiter) (sender : Str) (now : Int) :
    Bool × Option SenderLimiter :=
  match limiter with
  | none => (true, none)
  | some s => (s.allow sender now).map id some

end Tracium.Auth
