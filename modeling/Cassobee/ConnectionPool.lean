import Cassobee.ObjectPool

/-! `connection_pool` of `database/mysql/cmysql.cpp`. Whether a connection is up, and whether an
attempt to connect succeeds, comes from the server. -/

namespace Cassobee
namespace ConnectionPool

/-- One round of the loop in `init`. `none` is a failed assertion. -/
def warmUp (connects : Nat → Bool) (pool : ObjectPool) (round : Nat) : Option ObjectPool :=
  match pool.alloc with
  | none => none
  | some (none, pool) => some pool
  | some (some _, pool) => if connects round then some pool else none

def init (connects : Nat → Bool) (minsize maxsize : Nat) : Option ObjectPool := do
  let pool ← ({} : ObjectPool).init maxsize
  (List.range minsize).foldlM (warmUp connects) pool

def getConnection (pool : ObjectPool) (connected connects : Bool) : Option (Option (Nat × Nat) × ObjectPool) :=
  match pool.alloc with
  | none => none
  | some (none, pool) => some (none, pool)
  | some (some given, pool) =>
    if connected || connects then some (some given, pool) else some (none, pool.freeIdx given.1)

def releaseConnection (pool : ObjectPool) (conn : Option Nat) : ObjectPool :=
  match conn with
  | none => pool
  | some conn => pool.freeObj conn

end ConnectionPool

/-- `connected` and `connects` are the answers of `is_connected` and `connect` for the connection at
hand. -/
inductive ConnectionCall where
  | get (connected connects : Bool)
  | release (conn : Nat)
  deriving DecidableEq, Repr

open ConnectionPool in
def PoolClients.connectionStep (clients : PoolClients) : ConnectionCall → Option PoolClients
  | .get connected connects =>
    match getConnection clients.pool connected connects with
    | none => none
    | some (none, pool) => some { clients with pool := pool }
    | some (some given, pool) => some { clients with pool := pool, held := given :: clients.held }
  | .release conn =>
    match clients.held.find? (·.2 == conn) with
    | none => none
    | some item => some
        ⟨releaseConnection clients.pool (some conn), clients.held.erase item, conn :: clients.returned⟩

end Cassobee
