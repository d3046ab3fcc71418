import Mathlib.Data.Finset.Basic

/-! `one_reader_double_buffer` of `thread/double_buffer.h`: one reader and any number of writers. -/

namespace Cassobee

/-- The container of the buffers, which `insert` adds to at its end. -/
structure BufferMethods (γ τ : Type) where
  empty : γ
  insert : γ → τ → γ

/-- `std::list`. -/
def BufferMethods.list (τ : Type) : BufferMethods (List τ) τ := ⟨[], fun list value => list ++ [value]⟩

/-- `std::set`, as the reactor has it. -/
def BufferMethods.set (τ : Type) [DecidableEq τ] : BufferMethods (Finset τ) τ := ⟨∅, fun set value => Insert.insert value set⟩

/-- What a container holds after the values were inserted, one by one. -/
def BufferMethods.ofList {γ τ : Type} (methods : BufferMethods γ τ) (values : List τ) : γ :=
  values.foldl methods.insert methods.empty

/-- How far `read` has come with the buffer that it has taken. -/
inductive ReadPhase where
  | idle
  | swapped (idx : Bool)
  | visited (idx : Bool)
  deriving DecidableEq, Repr

/-- The buffer that is visited or cleared. -/
def ReadPhase.taken : ReadPhase → Option Bool
  | .idle => none
  | .swapped idx | .visited idx => some idx

/-- `written` has all values in the order of their writes, `since` those since the last swap, `batches`
those between the swaps before it, and `visits` what the callback was shown. -/
structure DoubleBuffer (γ τ : Type) where
  writeidx : Bool
  buffer : Bool → γ
  reader : ReadPhase
  written : List τ
  since : List τ
  batches : List (List τ)
  visits : List γ

inductive BufferAction (τ : Type) where
  | write (value : τ)
  | read
  deriving DecidableEq, Repr

def BufferAction.value {τ : Type} : BufferAction τ → Option τ
  | .write value => some value
  | .read => none

namespace DoubleBuffer
variable {γ τ : Type} (methods : BufferMethods γ τ)

def initial : DoubleBuffer γ τ := ⟨false, fun _ => methods.empty, .idle, [], [], [], []⟩

def write (db : DoubleBuffer γ τ) (value : τ) : DoubleBuffer γ τ :=
  { db with
    buffer := Function.update db.buffer db.writeidx (methods.insert (db.buffer db.writeidx) value)
    written := db.written ++ [value]
    since := db.since ++ [value] }

/-- The next step of the reader: the swap, the callback, or the clearing of the buffer. -/
def read (db : DoubleBuffer γ τ) : DoubleBuffer γ τ :=
  match db.reader with
  | .idle => { db with
      writeidx := !db.writeidx, reader := .swapped db.writeidx, batches := db.batches ++ [db.since], since := [] }
  | .swapped idx => { db with reader := .visited idx, visits := db.visits ++ [db.buffer idx] }
  | .visited idx => { db with reader := .idle, buffer := Function.update db.buffer idx methods.empty }

def step (db : DoubleBuffer γ τ) : BufferAction τ → DoubleBuffer γ τ
  | .write value => db.write methods value
  | .read => db.read methods

end DoubleBuffer
end Cassobee
