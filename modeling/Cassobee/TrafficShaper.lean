import Mathlib.Algebra.Group.Int.Defs
import Mathlib.Algebra.Group.Nat.Defs

/-! `traffic_shaper` of `io/traffic_shaper.h`. -/

namespace Cassobee

/-- The times are milliseconds of a signed 64-bit clock. -/
structure TrafficShaper where
  capacity : UInt64
  tokens : UInt64
  lastFill : Int
  deriving DecidableEq, Repr

namespace TrafficShaper

def new (rateBps : UInt64) (now : Int) : TrafficShaper := ⟨rateBps, rateBps, now⟩

/-- The time that has passed becomes unsigned when it is multiplied. -/
def acquire (shaper : TrafficShaper) (bytes : UInt64) (now : Int) : Bool × TrafficShaper :=
  let elapsed := now - shaper.lastFill
  let newTokens := UInt64.ofInt elapsed * (shaper.capacity / 1000)
  let tokens := min shaper.capacity (shaper.tokens + newTokens)
  if bytes ≤ tokens then (true, { shaper with tokens := tokens - bytes, lastFill := now })
  else (false, { shaper with tokens, lastFill := now })

/-- The calls one after another, each with its time and its size. -/
def acquireAll (shaper : TrafficShaper) (calls : List (Int × UInt64)) : TrafficShaper :=
  calls.foldl (fun shaper call => (shaper.acquire call.2 call.1).2) shaper

end TrafficShaper
end Cassobee
