import Mathlib.Algebra.Group.Nat.Defs
import Mathlib.Logic.Function.Basic

/-! `block_list` of `utility/block_list.h`, for an element type that `memset` fills with zeros. A block is the place in
the order of its creation: none is deleted before the list is. There is always memory. -/

namespace Cassobee

/-- `ITEMS_COUNT_PER_BLOCK`. -/
def itemsCountPerBlock : UInt64 := 128

/-- `BLOCK_CAPACITY_DEFAULT`. -/
def blockCapacityDefault : UInt64 := 16

/-- `(double)size`, which is a whole number: 53 bits, rounded to the nearest and to even in the middle. -/
def toDouble (size : Nat) : Nat :=
  let unit := 2 ^ (size.log2 + 1 - 53)
  let quotient := size / unit
  let remainder := size % unit
  let rounded :=
    if 2 * remainder < unit then quotient
    else if 2 * remainder = unit then quotient + quotient % 2
    else quotient + 1
  rounded * unit

structure Block (T : Type) where
  items : Nat → T
  next : Option Nat

/-- `made` counts the blocks so far. -/
structure BlockList (T : Type) where
  blocks : Nat → Block T
  made : Nat := 0
  blockMap : Option Nat := none
  tail : Option Nat := none
  blockSize : UInt64 := 0
  maxSize : UInt64 := 0

inductive BlockAction (T : Type) where
  | insert (pos : UInt64) (value : T)
  | read (pos : UInt64)
  | write (pos : UInt64) (value : T)
  deriving DecidableEq, Repr

namespace BlockList
variable {T : Type}

/-- `new block` and its items, all zero. -/
def createBlock (zero : T) (list : BlockList T) : BlockList T :=
  { list with
    blocks := Function.update list.blocks list.made ⟨fun _ => zero, none⟩
    made := list.made + 1
    blockMap := match list.blockMap with | none => some list.made | some first => some first }

def setNext (list : BlockList T) (block : Nat) (next : Option Nat) : BlockList T :=
  { list with blocks := Function.update list.blocks block { list.blocks block with next } }

/-- One round of the loop in `allocate`. -/
def appendBlock (zero : T) (list : BlockList T) (last : Bool) (prev : Option Nat) : BlockList T :=
  let pblock := list.made
  let list := list.createBlock zero
  let list := if last then setNext { list with tail := some pblock } pblock none else list
  match prev with
  | some prev => list.setNext prev (some pblock)
  | none => list

/-- The loop with so many blocks left. -/
def allocateLoop (zero : T) (list : BlockList T) : (left : Nat) → (prev : Option Nat) → BlockList T
  | 0, _ => list
  | left + 1, prev => allocateLoop zero (list.appendBlock zero (left = 0) prev) left (some list.made)

def allocate (zero : T) (list : BlockList T) (blockSize : UInt64) : BlockList T :=
  let list := list.allocateLoop zero blockSize.toNat list.tail
  { list with blockSize := list.blockSize + blockSize, maxSize := list.maxSize + blockSize * itemsCountPerBlock }

def resize (zero : T) (list : BlockList T) (size : UInt64) : BlockList T :=
  if size ≤ list.maxSize then list
  else
    let which := size / itemsCountPerBlock
    list.allocate zero (which + 1 - list.blockSize)

/-- `ceil((double)size / ITEMS_COUNT_PER_BLOCK)`, and the default where no size is given. -/
def initialBlocks (size : UInt64) : UInt64 :=
  if size = 0 then blockCapacityDefault
  else UInt64.ofNat ((toDouble size.toNat + (itemsCountPerBlock.toNat - 1)) / itemsCountPerBlock.toNat)

def new (zero : T) (size : UInt64) : BlockList T :=
  allocate zero { blocks := fun _ => ⟨fun _ => zero, none⟩ } (initialBlocks size)

/-- `while(which--){ pblock = pblock->_next; }`, or `none` where that is a null pointer's. -/
def follow (list : BlockList T) : Nat → Option Nat → Option (Option Nat)
  | 0, pblock => some pblock
  | _ + 1, none => none
  | which + 1, some block => follow list which (list.blocks block).next

/-- The block and the index in it. Behind the last block there is none. -/
def locate (list : BlockList T) (pos : UInt64) : Option (Nat × Nat) := do
  let pblock ← list.follow (pos / itemsCountPerBlock).toNat list.blockMap
  let block ← pblock
  let idx := (pos % itemsCountPerBlock).toNat
  if idx > itemsCountPerBlock.toNat then none else some (block, idx)

def setItem (list : BlockList T) (place : Nat × Nat) (value : T) : BlockList T :=
  let block := list.blocks place.1
  { list with
    blocks := Function.update list.blocks place.1 { block with items := Function.update block.items place.2 value } }

/-- What is read, and the list after it. `none` is an access behind the last block. -/
def perform (zero : T) (list : BlockList T) : BlockAction T → Option (Option T × BlockList T)
  | .insert pos value => do
    let list := list.resize zero (pos + 1)
    let place ← list.locate pos
    return (none, list.setItem place value)
  | .read pos => do
    let list := list.resize zero pos
    let place ← list.locate pos
    return (some ((list.blocks place.1).items place.2), list)
  | .write pos value => do
    let list := list.resize zero pos
    let place ← list.locate pos
    return (none, list.setItem place value)

end BlockList
end Cassobee
