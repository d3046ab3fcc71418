import Mathlib.Algebra.Group.Int.Defs
import Mathlib.Algebra.Group.Nat.Defs

/-! `multicast_delegate` of `utility/delegate.h` with each of its storages. The ids are of type `int`. -/

namespace Cassobee

inductive DelegateStorage where
  | vector | list | map
  deriving DecidableEq, Repr

namespace DelegateStorage
variable {η : Type}

/-- `std::map::insert`, on the elements in the order of their keys. -/
def mapInsert (kv : Int × η) : List (Int × η) → List (Int × η)
  | [] => [kv]
  | item :: data =>
    if kv.1 < item.1 then kv :: item :: data
    else if item.1 < kv.1 then item :: mapInsert kv data
    else item :: data

/-- `std::map::erase`. -/
def mapErase (key : Int) : List (Int × η) → List (Int × η)
  | [] => []
  | item :: data => if item.1 = key then data else item :: mapErase key data

def add (storage : DelegateStorage) (data : List (Int × η)) (kv : Int × η) : List (Int × η) :=
  match storage with
  | .vector => data ++ [kv]
  | .list => data ++ [kv]
  | .map => mapInsert kv data

def del (storage : DelegateStorage) (data : List (Int × η)) (key : Int) : List (Int × η) :=
  match storage with
  | .vector => data.filter fun kv => ¬ kv.1 = key
  | .list => data.filter fun kv => ¬ kv.1 = key
  | .map => mapErase key data

end DelegateStorage

structure MulticastDelegate (η : Type) where
  storage : DelegateStorage
  data : List (Int × η)
  maxid : Int

/-- A call, with the executor or the parameters that are handed to it. -/
inductive DelegateAction (η ρ : Type) where
  | bind (executor : η)
  | unbind (id : Int)
  | isbound
  | broadcast (params : ρ)
  deriving DecidableEq, Repr

/-- What a call returns. A broadcast is seen by the executors that it calls, one after the other, and by how many
errors it logs. -/
inductive DelegateAnswer (η : Type) where
  | id (id : Int)
  | done
  | bound (value : Bool)
  | called (executors : List η) (errors : Nat)
  deriving DecidableEq, Repr

namespace MulticastDelegate
variable {η ρ : Type}

def new (storage : DelegateStorage) : MulticastDelegate η := ⟨storage, [], 0⟩

/-- An overflow of the id is none. -/
def bind (self : MulticastDelegate η) (executor : η) : Option (Int × MulticastDelegate η) :=
  if self.maxid = 2 ^ 31 - 1 then none
  else
    let id := self.maxid
    some (id, { self with data := self.storage.add self.data (id, executor), maxid := self.maxid + 1 })

def unbind (self : MulticastDelegate η) (id : Int) : MulticastDelegate η :=
  { self with data := self.storage.del self.data id }

def isbound (self : MulticastDelegate η) : Bool := self.data.isEmpty

/-- The loop over the copy. An executor that throws is logged, and the next one is called. -/
def broadcastLoop (throws : η → ρ → Bool) (params : ρ) : List (Int × η) → List η × Nat
  | [] => ([], 0)
  | (_, executor) :: data =>
    let (executors, errors) := broadcastLoop throws params data
    (executor :: executors, if throws executor params then errors + 1 else errors)

def broadcast (throws : η → ρ → Bool) (self : MulticastDelegate η) (params : ρ) : List η × Nat :=
  if self.data.isEmpty then ([], 0) else broadcastLoop throws params self.data

def perform (throws : η → ρ → Bool) (self : MulticastDelegate η) :
    DelegateAction η ρ → Option (DelegateAnswer η × MulticastDelegate η)
  | .bind executor => do
    let (id, self) ← self.bind executor
    return (.id id, self)
  | .unbind id => some (.done, self.unbind id)
  | .isbound => some (.bound self.isbound, self)
  | .broadcast params =>
    let (executors, errors) := self.broadcast throws params
    some (.called executors errors, self)

/-- What the calls return, one after another. -/
def results (throws : η → ρ → Bool) : MulticastDelegate η → List (DelegateAction η ρ) → Option (List (DelegateAnswer η))
  | _, [] => some []
  | self, action :: actions => do
    let (answer, self) ← self.perform throws action
    let answers ← results throws self actions
    return answer :: answers

end MulticastDelegate
end Cassobee
