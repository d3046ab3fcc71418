import Cassobee.HttpProtocol

/-! The influx line of `log/logger.cpp`. -/

namespace Cassobee

/-- A `std::map` of strings, with its keys in the order in which it is gone through. -/
structure OrderedStrings where
  entries : List (List UInt8 × List UInt8)
  ordered : (entries.map Prod.fst).Pairwise (· < ·)

structure InfluxlogEvent where
  measurement : List UInt8
  tags : OrderedStrings
  fields : OrderedStrings
  timestamp : Int

/-- A comma, a blank or an equals sign. -/
def influxSpecial (c : UInt8) : Bool := c == 44 || c == 32 || c == 61

def escapeInflux (input : List UInt8) : List UInt8 :=
  input.flatMap fun c => if influxSpecial c then [92, c] else [c]

def timestampText (timestamp : Int) : List UInt8 :=
  if timestamp < 0 then 45 :: decimal timestamp.natAbs else decimal timestamp.natAbs

/-- A tag, and what is written for a field after the first test. -/
def influxPair (pair : List UInt8 × List UInt8) : List UInt8 :=
  44 :: escapeInflux pair.1 ++ 61 :: escapeInflux pair.2

/-- The loop over the fields. It writes a comma between two fields, and one before each field. -/
def influxFields : (firstField : Bool) → List (List UInt8 × List UInt8) → List UInt8
  | _, [] => []
  | firstField, field :: fields => (if firstField then [] else [44]) ++ influxPair field ++ influxFields false fields

/-- The line that goes to the root appender. -/
def influxlog (event : InfluxlogEvent) : List UInt8 :=
  event.measurement ++ event.tags.entries.flatMap influxPair ++ 32 :: influxFields true event.fields.entries ++
    32 :: timestampText event.timestamp ++ [10]

end Cassobee
