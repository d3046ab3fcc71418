import Cassobee.ObjectPool

/-! `lockfree_objectpool` of `common/objectpool.h` under any number of threads. Loads, stores and
`compare_exchange_weak` are single steps, in the order that they take effect. A node is its offset
from `_pool`. -/

namespace Cassobee

structure LockfreeNode where
  next : Option Nat := none
  initialized : Bool := false
  deriving DecidableEq, Repr

structure HeadPtr where
  node : Option Nat := none
  counter : Nat := 0
  deriving DecidableEq, Repr

/-- `created` tells whether `_pool` is not null. -/
structure LockfreePool where
  created : Bool := false
  nodes : Nat → LockfreeNode := fun _ => {}
  free : HeadPtr := {}
  cap : Nat := 0

namespace LockfreePool

/-- `memory` is what `aligned_alloc` returns: unless the pool is eager, nothing writes `initialized`.
`none` is a failed assertion. -/
def init (eager : Bool) (memory : Nat → LockfreeNode) (pool : LockfreePool) (capacity : Nat) : Option LockfreePool :=
  if pool.created then
    some pool
  else if 0 < capacity ∧ capacity ≤ objectPoolMax then
    some
      { created := true
        nodes := fun index =>
          { next := if index ≠ capacity - 1 then some (index + 1) else none
            initialized := eager || (memory index).initialized }
        free := ⟨some 0, 0⟩
        cap := capacity }
  else
    none

def storeNext (pool : LockfreePool) (node : Nat) (next : Option Nat) : LockfreePool :=
  { pool with nodes := Function.update pool.nodes node { pool.nodes node with next := next } }

/-- The lazy construction of the object. In an eager pool the node is initialized already. -/
def construct (pool : LockfreePool) (node : Nat) : LockfreePool :=
  { pool with nodes := Function.update pool.nodes node { pool.nodes node with initialized := true } }

/-- `compare_exchange_weak`, which may also fail on equal values. -/
def compareExchange (pool : LockfreePool) (oldHead newHead : HeadPtr) (fails : Bool) : Option LockfreePool :=
  if pool.free = oldHead ∧ !fails then some { pool with free := newHead } else none

end LockfreePool

/-- The local variables of a call, by the atomic step that comes next in it. -/
inductive PoolPlace where
  | outside
  | allocLoad
  | allocNext (oldHead : HeadPtr)
  | allocSwap (node : Nat) (oldHead newHead : HeadPtr)
  | freeLoad (node : Nat)
  | freeStore (node : Nat) (oldHead : HeadPtr)
  | freeSwap (node : Nat) (oldHead newHead : HeadPtr)
  deriving DecidableEq, Repr

/-- A thread, with the nodes it was handed and has not given to `free`, the heads found by the load
steps of its latest `alloc`, and what that call returned. -/
structure PoolThread where
  place : PoolPlace := .outside
  held : List Nat := []
  loads : List HeadPtr := []
  returned : Option (Option Nat) := none

structure PoolSystem (ι : Type) where
  pool : LockfreePool
  threads : ι → PoolThread

inductive PoolAction (ι : Type) where
  | alloc (thread : ι)
  | free (thread holder : ι) (node : Nat)
  | advance (thread : ι) (fails : Bool)
  deriving DecidableEq, Repr

namespace PoolSystem
variable {ι : Type} [DecidableEq ι]

def set (system : PoolSystem ι) (thread : ι) (next : PoolThread) : PoolSystem ι :=
  { system with threads := Function.update system.threads thread next }

/-- The step of `alloc` or `free` that `thread` is at. A `compare_exchange_weak` that fails loads the
head anew. -/
def advance (system : PoolSystem ι) (thread : ι) (fails : Bool) : Option (PoolSystem ι) :=
  let pool := system.pool
  let own := system.threads thread
  match own.place with
  | .outside => none
  | .allocLoad => some (system.set thread { own with place := .allocNext pool.free, loads := own.loads ++ [pool.free] })
  | .allocNext oldHead =>
    match oldHead.node with
    | none => some (system.set thread { own with place := .outside, returned := some none })
    | some node => some (system.set thread
        { own with place := .allocSwap node oldHead ⟨(pool.nodes node).next, (oldHead.counter + 1) % 2 ^ 64⟩ })
  | .allocSwap node oldHead newHead =>
    match pool.compareExchange oldHead newHead fails with
    | none => some (system.set thread
        { own with place := .allocNext pool.free, loads := own.loads ++ [pool.free] })
    | some swapped => some (PoolSystem.set ⟨swapped.construct node, system.threads⟩ thread
        { own with place := .outside, held := node :: own.held, returned := some (some node) })
  | .freeLoad node => some (system.set thread { own with place := .freeStore node pool.free })
  | .freeStore node oldHead => some (PoolSystem.set ⟨pool.storeNext node oldHead.node, system.threads⟩ thread
      { own with place := .freeSwap node oldHead ⟨some node, (oldHead.counter + 1) % 2 ^ 64⟩ })
  | .freeSwap node oldHead newHead =>
    match pool.compareExchange oldHead newHead fails with
    | none => some (system.set thread { own with place := .freeStore node pool.free })
    | some swapped => some (PoolSystem.set ⟨swapped, system.threads⟩ thread { own with place := .outside })

def release (system : PoolSystem ι) (holder : ι) (node : Nat) : PoolSystem ι :=
  system.set holder { system.threads holder with held := (system.threads holder).held.erase node }

/-- `free` takes an object or an index: both name a node, and one outside of the pool is ignored. -/
def step (system : PoolSystem ι) : PoolAction ι → Option (PoolSystem ι)
  | .alloc thread =>
    match (system.threads thread).place with
    | .outside => some (system.set thread { system.threads thread with place := .allocLoad, loads := [], returned := none })
    | _ => none
  | .free thread holder node =>
    match (system.threads thread).place with
    | .outside =>
      if node < system.pool.cap then
        let system := system.release holder node
        some (system.set thread { system.threads thread with place := .freeLoad node })
      else
        some system
    | _ => none
  | .advance thread fails => system.advance thread fails

end PoolSystem
end Cassobee
