import Mathlib.Algebra.Group.Nat.Defs
import Mathlib.Logic.Function.Basic

/-! `objectpool` of `common/objectpool.h`. A node is its offset from `_pool`; an object is the place
in the order of its creation, since no object is deleted before the pool is and so no address comes
twice. -/

namespace Cassobee

def objectPoolMax : Nat := 4194304

structure ObjectNode where
  obj : Option Nat := none
  next : Option Nat := none
  deriving DecidableEq, Repr

/-- `created` tells whether `_pool` is not null, and `made` counts the objects so far. -/
structure ObjectPool where
  created : Bool := false
  nodes : Nat → ObjectNode := fun _ => {}
  free : Option Nat := none
  size : Nat := 0
  cap : Nat := 0
  objMap : Nat → Option Nat := fun _ => none
  made : Nat := 0

namespace ObjectPool

/-- `none` is a failed assertion. -/
def init (pool : ObjectPool) (capacity : Nat) : Option ObjectPool :=
  if pool.created then
    some pool
  else if 0 < capacity ∧ capacity ≤ objectPoolMax then
    some { pool with
      created := true
      nodes := fun index => { next := if index < capacity - 1 then some (index + 1) else none }
      free := some 0
      size := 0
      cap := capacity }
  else
    none

/-- The index and the object handed out, if any. `none` is a read through a null `_free`. -/
def alloc (pool : ObjectPool) : Option (Option (Nat × Nat) × ObjectPool) :=
  if !pool.created then
    some (none, pool)
  else if pool.size = pool.cap then
    some (none, pool)
  else match pool.free with
    | none => none
    | some index =>
      let node := pool.nodes index
      match node.obj with
      | some obj => some (some (index, obj), { pool with free := node.next, size := (pool.size + 1) % 2 ^ 64 })
      | none => some (some (index, pool.made),
          { pool with
            free := node.next
            nodes := Function.update pool.nodes index { node with obj := some pool.made }
            objMap := Function.update pool.objMap pool.made (some index)
            made := pool.made + 1
            size := (pool.size + 1) % 2 ^ 64 })

/-- The last three lines of both `free`s. -/
def putBack (pool : ObjectPool) (index : Nat) : ObjectPool :=
  { pool with
    nodes := Function.update pool.nodes index { pool.nodes index with next := pool.free }
    free := some index
    size := (pool.size + (2 ^ 64 - 1)) % 2 ^ 64 }

def forget (pool : ObjectPool) (obj : Nat) : ObjectPool :=
  { pool with objMap := Function.update pool.objMap obj none }

/-- `free(T* obj)`. -/
def freeObj (pool : ObjectPool) (obj : Nat) : ObjectPool :=
  match pool.objMap obj with
  | none => pool
  | some index => if index < pool.cap then (pool.forget obj).putBack index else pool

/-- `free(size_t objidx)`. -/
def freeIdx (pool : ObjectPool) (index : Nat) : ObjectPool :=
  if index < pool.cap then
    match (pool.nodes index).obj with
    | none => pool.putBack index
    | some obj => (pool.forget obj).putBack index
  else
    pool

/-- The nodes that the loop of `destroy` passes, and the objects that it deletes there. `none` is a read through a null
link. -/
def destroyLoop : Nat → (Nat → ObjectNode) → Option Nat → Option (List Nat × List Nat)
  | 0, _, _ => some ([], [])
  | _ + 1, _, none => none
  | count + 1, nodes, some index => do
    let node := nodes index
    let (passed, deleted) ← destroyLoop count (Function.update nodes index { node with obj := none }) node.next
    return (index :: passed, node.obj.toList ++ deleted)

/-- The same of the whole call, and the pool behind it. -/
def destroy (pool : ObjectPool) : Option ((List Nat × List Nat) × ObjectPool) :=
  if !pool.created then
    some (([], []), pool)
  else do
    let loop ← destroyLoop pool.cap pool.nodes (some 0)
    return (loop, { made := pool.made })

end ObjectPool

/-- The pool with what its clients hold, and every object that was given back before. -/
structure PoolClients where
  pool : ObjectPool
  held : List (Nat × Nat) := []
  returned : List Nat := []

inductive PoolCall where
  | alloc
  | freeObj (obj : Nat)
  | freeIdx (index : Nat)
  deriving DecidableEq, Repr

/-- Clients give back only what they hold. -/
def PoolClients.step (clients : PoolClients) : PoolCall → Option PoolClients
  | .alloc =>
    match clients.pool.alloc with
    | none => none
    | some (none, pool) => some { clients with pool := pool }
    | some (some given, pool) => some { clients with pool := pool, held := given :: clients.held }
  | .freeObj obj =>
    match clients.held.find? (·.2 == obj) with
    | none => none
    | some item => some
        ⟨clients.pool.freeObj obj, clients.held.erase item, obj :: clients.returned⟩
  | .freeIdx index =>
    match clients.held.find? (·.1 == index) with
    | none => none
    | some item => some
        ⟨clients.pool.freeIdx index, clients.held.erase item, item.2 :: clients.returned⟩

end Cassobee
