/-! `emplace`, `consume` and `reserve` of `concurrent_double_buffer` of `thread/double_buffer.h`, called one after
another. There is always memory. -/

namespace Cassobee

/-- `capacity` is the one of `data`. -/
structure BufferNode (τ : Type) where
  refCount : UInt64 := 0
  data : List τ := []
  capacity : Nat := 0
  version : UInt64 := 0

/-- No two pointers to one node: the three operations store a new node only into `_back`. -/
structure ConcurrentDoubleBuffer (τ : Type) where
  front : BufferNode τ
  back : BufferNode τ
  globalVersion : UInt64 := 0
  publishedVersion : UInt64 := 0

inductive DeliveryAction (τ : Type) where
  | emplace (value : τ)
  | reserve (newCapacity : Nat)
  | consume
  deriving DecidableEq, Repr

namespace ConcurrentDoubleBuffer
variable {τ : Type}

def new (reserveSize : Nat) : ConcurrentDoubleBuffer τ := { front := { capacity := reserveSize }, back := {} }

/-- `emplace_back`. A full vector gets the capacity that `grown` says. -/
def emplaceBack (grown : Nat → Nat) (node : BufferNode τ) (value : τ) : BufferNode τ :=
  { node with
    data := node.data ++ [value]
    capacity := if node.data.length < node.capacity then node.capacity else grown node.capacity }

def rotateBuffers (db : ConcurrentDoubleBuffer τ) : ConcurrentDoubleBuffer τ :=
  { db with front := db.back, back := { capacity := db.back.capacity }, publishedVersion := db.globalVersion }

def emplace (grown : Nat → Nat) (db : ConcurrentDoubleBuffer τ) (value : τ) : ConcurrentDoubleBuffer τ :=
  let db := if db.back.refCount > 0 then db.rotateBuffers else db
  { db with back := emplaceBack grown db.back value, globalVersion := db.globalVersion + 1 }

/-- What `func` was handed, which takes it out of the vector; nothing where it is not called. -/
def consume (db : ConcurrentDoubleBuffer τ) : List τ × ConcurrentDoubleBuffer τ :=
  let currentVersion := db.globalVersion
  let front := { db.front with refCount := db.front.refCount + 1 }
  let (handed, front) :=
    if front.version < currentVersion then (front.data, { front with data := [], version := currentVersion })
    else ([], front)
  (handed, { db with front := { front with refCount := front.refCount - 1 } })

def reserve (db : ConcurrentDoubleBuffer τ) (newCapacity : Nat) : ConcurrentDoubleBuffer τ :=
  if db.back.capacity < newCapacity then { db with back := { capacity := newCapacity } } else db

def perform (grown : Nat → Nat) (db : ConcurrentDoubleBuffer τ) : DeliveryAction τ → Option (List τ × ConcurrentDoubleBuffer τ)
  | .emplace value => some ([], db.emplace grown value)
  | .reserve newCapacity => some ([], db.reserve newCapacity)
  | .consume => some db.consume

end ConcurrentDoubleBuffer
end Cassobee
