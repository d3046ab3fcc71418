import Cassobee.HttpProtocol

/-! `database/mysql/cmysql.h`: how the arguments of a statement get their placeholders, and the statement
of `table::insert`. -/

namespace Cassobee

variable {α : Type}

/-- A statement with its calls of `field<T>::bind`: the argument and the index. -/
structure Dbpstmt (α : Type) where
  sql : List UInt8
  bound : List (α × Nat)
  deriving DecidableEq, Repr

namespace Dbpstmt

def prepareStatement (sql : List UInt8) : Dbpstmt α := ⟨sql, []⟩

def bind (stmt : Dbpstmt α) (index : Nat) (value : α) : Dbpstmt α := { stmt with bound := stmt.bound ++ [(value, index)] }

/-- The fold over the arguments. The object `field<Args>(std::to_string(index++))` comes before the arguments
of its `bind`. -/
def bindAll : Nat → List α → Dbpstmt α → Dbpstmt α
  | _, [], stmt => stmt
  | index, value :: args, stmt =>
    let index := index + 1
    bindAll index args (stmt.bind index value)

end Dbpstmt

namespace Connection

/-- `_conn` is null when `connected` is false. -/
def executeUpdate (connected : Bool) (sql : List UInt8) (args : List α) : Option (Dbpstmt α) :=
  if connected then some (Dbpstmt.bindAll 1 args (.prepareStatement sql)) else none

def executeQuery (connected : Bool) (sql : List UInt8) (args : List α) : Option (Dbpstmt α) :=
  if connected then some (Dbpstmt.bindAll 1 args (.prepareStatement sql)) else none

def executeUpdateTuple (connected : Bool) (sql : List UInt8) (args : List α) : Option (Dbpstmt α) :=
  if connected then some (Dbpstmt.bindAll 1 args (.prepareStatement sql)) else none

/-- It names `bind_param`, which no field has: with an argument there is no such function. -/
def executeQueryTuple (connected : Bool) (sql : List UInt8) : List α → Option (Dbpstmt α)
  | [] => if connected then some (.prepareStatement sql) else none
  | _ :: _ => none

end Connection

structure InsertStream (α : Type) where
  stmt : Dbpstmt α
  paramCount : Nat
  deriving DecidableEq, Repr

namespace InsertStream

def create (stmt : Dbpstmt α) : InsertStream α := ⟨stmt, 0⟩

/-- `_bind`. -/
def bind (stream : InsertStream α) (value : α) : InsertStream α :=
  { stmt := stream.stmt.bind (stream.paramCount + 1) value, paramCount := stream.paramCount + 1 }

/-- `operator<<`. As a member it can have one argument only: with more fields there is no such class. -/
def put (stream : InsertStream α) : List α → Option (InsertStream α)
  | [value] => some (stream.bind value)
  | _ => none

end InsertStream

/-- The text of `table::insert` for a table with this many fields. -/
def insertSql (name : List UInt8) (fields : Nat) : List UInt8 :=
  asciiBytes "INSERT INTO `" ++ name ++ asciiBytes "` VALUES (" ++ List.replicate (fields - 1) 63 ++ asciiBytes ".?)"

end Cassobee
