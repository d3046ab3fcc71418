import Cassobee.HttpProtocol
import Cassobee.Octets

/-! `bee::ostringstream` of `format/format.h` over its buffer. -/

namespace Cassobee

/-- A string has fewer than `2 ^ 63` bytes. -/
structure StreamText where
  bytes : List UInt8
  bounded : bytes.length < 2 ^ 63

/-- What `operator<<` takes. All else goes through `bee::to_string`. -/
inductive StreamValue where
  | bool (value : Bool)
  | char (value : UInt8)
  | cstr (value : StreamText)
  | string (value : StreamText)
  | converted (value : StreamText)
  | endl

def StreamValue.text : StreamValue → List UInt8
  | .bool value => asciiBytes (if value then "true" else "false")
  | .char value => [value]
  | .cstr value => cString value.bytes
  | .string value => value.bytes
  | .converted value => value.bytes
  | .endl => [10]

inductive TextAction where
  | put (value : StreamValue)
  | truncate (size : Nat)
  | reserve (cap : Nat)
  | clear | cStr | str

structure Ostringstream where
  buf : Octets
  deriving DecidableEq, Repr

namespace Ostringstream

/-- The default constructor. `reserve` does not fail with this size. -/
def create : Ostringstream := ⟨(Octets.new.reserve 64).toOption.getD Octets.new⟩

/-- The constructors from bytes. -/
def ofText (text : StreamText) : Ostringstream := ⟨Octets.create text.bytes text.bytes.length text.bytes.length⟩

def size (stream : Ostringstream) : Nat := stream.buf.len
def empty (stream : Ostringstream) : Bool := stream.buf.len == 0

/-- The bytes up to `_len` are copied, which have to be there. -/
def toStr (stream : Ostringstream) : Option (List UInt8) :=
  if stream.buf.len ≤ stream.buf.cap then some stream.buf.bytes else none

/-- `append` with the exception of `frob_size` left out. -/
def append (stream : Ostringstream) (text : List UInt8) : Option Ostringstream :=
  (stream.buf.append text).toOption.map Ostringstream.mk

def put (stream : Ostringstream) (value : StreamValue) : Option Ostringstream := stream.append value.text

def truncate (stream : Ostringstream) (size : Nat) : Ostringstream :=
  if size < stream.size then { buf := stream.buf.fastResize size } else stream

def reserve (stream : Ostringstream) (cap : Nat) : Option Ostringstream :=
  (stream.buf.reserve cap).toOption.map Ostringstream.mk

def clear (stream : Ostringstream) : Ostringstream := { buf := stream.buf.clear }

/-- The zero byte at the end becomes a part of the content. -/
def cStr (stream : Ostringstream) : Option Ostringstream :=
  if stream.empty then stream.append [0]
  else
    match stream.buf.buf[stream.buf.len - 1]? with
    | none => none
    | some back => if back ≠ 0 then stream.append [0] else some stream

/-- `none` where an exception leaves the call or memory outside of the block is read. -/
def step (stream : Ostringstream) : TextAction → Option Ostringstream
  | .put value => stream.put value
  | .truncate size => some (stream.truncate size)
  | .reserve cap => stream.reserve cap
  | .clear => some stream.clear
  | .cStr => stream.cStr
  | .str => stream.toStr.map fun _ => stream

end Ostringstream
end Cassobee
