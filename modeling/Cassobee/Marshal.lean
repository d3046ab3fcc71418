import Cassobee.Containers

/-! The stream of `common/marshal.h`. A type that the stream can carry is a code of `Ty`, built by
the same rules by which the overloads of `push` and `pop` find their way, and both are defined by
recursion on it. An exception leaves the stream as the failing call left it. -/

namespace Cassobee

structure Octetsstream where
  data : Octets
  pos : Nat
  transpos : Nat
  deriving DecidableEq, Repr

abbrev StreamM := EStateM Thrown Octetsstream

namespace Octetsstream

def new : Octetsstream := ⟨Octets.new, 0, 0⟩

def size (os : Octetsstream) : Nat := os.data.len

def bytes (os : Octetsstream) : List UInt8 := os.data.bytes

/-- The bytes from the cursor on. -/
def unread (os : Octetsstream) : List UInt8 := os.data.bytes.drop os.pos

def tryShrink (os : Octetsstream) : Octetsstream :=
  if os.pos > 0x100000 then ⟨os.data.erase 0 os.pos, 0, 0⟩ else os

/-- The difference is one of `size_t`. -/
def dataReady (os : Octetsstream) (len : Nat) : Bool :=
  (os.data.len + wordSize - os.pos) % wordSize ≥ len

end Octetsstream

open Octetsstream

/-- `_data.append`. -/
def appendData (bytes : List UInt8) : StreamM Unit := fun os =>
  match os.data.append bytes with
  | .ok data => .ok () { os with data }
  | .error thrown => .error thrown os

/-- The guard and the copy that the pops of raw bytes share. -/
def popRaw (len : Nat) : StreamM (List UInt8) := fun os =>
  if (os.pos + len) % wordSize > os.data.len then
    .error (.exception "no enough data!!!") os
  else
    .ok ((os.data.buf.drop os.pos).take len) { os with pos := (os.pos + len) % wordSize }

/-! ## Transactions -/

inductive Transaction where
  | begin | rollback | commit
  deriving DecidableEq, Repr

def popTransaction : Transaction → StreamM Unit
  | .begin => fun os => .ok () { os with transpos := os.pos }
  | .rollback => fun os =>
    if os.transpos > os.data.len then
      .error (.exception "invalid transaction rollback position") os
    else
      .ok () { os with pos := os.transpos }
  | .commit => fun os => .ok () os.tryShrink

/-! ## Compact integers -/

def pushCompact (value : Nat) : StreamM Unit := appendData (writeVarint value)

def popCompact : StreamM Nat := fun os =>
  match readVarint os.unread with
  | none => .error (.exception "varint decode failed") os
  | some (value, read) => .ok value { os with pos := os.pos + read }

def pushCompactu16 (value : BitVec 16) : StreamM Unit := pushCompact value.toNat

def popCompactu16 : StreamM (BitVec 16) := do return BitVec.ofNat 16 (← popCompact)

def pushCompact16 (value : BitVec 16) : StreamM Unit := pushCompactu16 (encodeZigzag16 value)

def popCompact16 : StreamM (BitVec 16) := do return decodeZigzag16 (← popCompactu16)

def pushCompactu32 (value : BitVec 32) : StreamM Unit := pushCompact value.toNat

def popCompactu32 : StreamM (BitVec 32) := do return BitVec.ofNat 32 (← popCompact)

def pushCompact32 (value : BitVec 32) : StreamM Unit := pushCompactu32 (encodeZigzag32 value)

def popCompact32 : StreamM (BitVec 32) := do return decodeZigzag32 (← popCompactu32)

def pushCompactu64 (value : BitVec 64) : StreamM Unit := pushCompact value.toNat

def popCompactu64 : StreamM (BitVec 64) := do return BitVec.ofNat 64 (← popCompact)

def pushCompact64 (value : BitVec 64) : StreamM Unit := pushCompactu64 (encodeZigzag64 value)

def popCompact64 : StreamM (BitVec 64) := do return decodeZigzag64 (← popCompactu64)

/-- `compact_int<T>::pack` of an integer wider than a byte. -/
def compactIntPack : (signed : Bool) → (w : IntWidth) → BitVec w.bits → StreamM Unit
  | true, .w16, value => pushCompact16 value
  | true, .w32, value => pushCompact32 value
  | true, .w64, value => pushCompact64 value
  | false, .w16, value => pushCompactu16 value
  | false, .w32, value => pushCompactu32 value
  | false, .w64, value => pushCompactu64 value

def compactIntUnpack : (signed : Bool) → (w : IntWidth) → StreamM (BitVec w.bits)
  | true, .w16 => popCompact16
  | true, .w32 => popCompact32
  | true, .w64 => popCompact64
  | false, .w16 => popCompactu16
  | false, .w32 => popCompactu32
  | false, .w64 => popCompactu64

/-- A `size_t` goes through `compact_int<size_t>`. -/
def pushSize (size : Nat) : StreamM Unit := pushCompactu64 (BitVec.ofNat 64 size)

def popSize : StreamM Nat := do return (← popCompactu64).toNat

/-! ## Plain data -/

/-- Both directions swap `data[i]` with `data[size - i - 1]` on a little-endian host. -/
def hostToNetwork (data : List UInt8) : List UInt8 := data.reverse

def networkToHost (data : List UInt8) : List UInt8 := data.reverse

def pushPod {α : Type} (pod : Pod α) (value : α) : StreamM Unit :=
  appendData (hostToNetwork (pod.toBytes value))

def popPod {α : Type} (pod : Pod α) : StreamM α := do
  let bytes ← popRaw pod.size
  return pod.ofBytes (if pod.size > 1 then networkToHost bytes else bytes)

def pushScalar {α : Type} : Scalar α → α → StreamM Unit
  | .int signed w, value => compactIntPack signed w value
  | .raw pod, value => pushPod pod value

def popScalar {α : Type} : Scalar α → StreamM α
  | .int signed w => compactIntUnpack signed w
  | .raw pod => popPod pod

/-! ## Containers -/

def pushEach {α : Type} (push : α → StreamM Unit) : List α → StreamM Unit
  | [] => pure ()
  | element :: rest => do
    push element
    pushEach push rest

def popEach {α γ : Type} (pop : StreamM α) (insert : γ → α → γ) : Nat → γ → StreamM γ
  | 0, content => pure content
  | count + 1, content => do
    let element ← pop
    popEach pop insert count (insert content element)

def pushContainer {α : Type} (kind : Container α) (push : α → StreamM Unit) (content : kind.Content) :
    StreamM Unit := do
  pushSize (kind.elements content).length
  pushEach push (kind.elements content)

/-- `container.reserve(size)`, if there is such a function. -/
def reserve (canReserve : Bool) (maxSize : MaxSize) (size : Nat) : StreamM Unit :=
  if canReserve then
    if size > maxSize.count then throw .lengthError
    else if size > maxSize.room then throw .badAlloc
    else return ()
  else
    return ()

/-- Elements are inserted into what the destination holds already. -/
def popContainer {α : Type} (kind : Container α) (pop : StreamM α) (content : kind.Content) :
    StreamM kind.Content := do
  let size ← popSize
  reserve kind.canReserve kind.maxSize size
  popEach pop kind.insert size content

/-- The object representations of the elements, one after another. -/
def pushContiguous {α : Type} (kind : Contiguous α) (content : List α) : StreamM Unit := do
  pushSize content.length
  appendData (content.flatMap kind.scalar.pod.toBytes)

def splitElements {α : Type} (pod : Pod α) : Nat → List UInt8 → List α
  | 0, _ => []
  | count + 1, bytes => pod.ofBytes (bytes.take pod.size) :: splitElements pod count (bytes.drop pod.size)

/-- The destination is resized and overwritten. -/
def popContiguous {α : Type} (kind : Contiguous α) : StreamM (List α) := do
  let size ← popSize
  reserve true kind.maxSize size
  let bytes ← popRaw (size * kind.scalar.pod.size % wordSize)
  return splitElements kind.scalar.pod size bytes

def pushOctets (value : List UInt8) : StreamM Unit := do
  pushSize value.length
  appendData value

/-- `val.append(_data.begin() + _pos, size)` where the guard's sum has wrapped: no block is that large,
unless the destination's length makes this sum wrap too. -/
def appendBeyond (value : List UInt8) (size : Nat) : Thrown :=
  if value.length + size < wordSize then .overflowError "frob_size: input too large" else .abort

/-- The guard, the append to the destination and the move of the cursor. -/
def popAppend (value : List UInt8) (size : Nat) : StreamM (List UInt8) := fun os =>
  if (os.pos + size) % wordSize > os.data.len then
    .error (.exception "no enough data!!!") os
  else if os.pos + size ≥ wordSize then
    .error (appendBeyond value size) os
  else
    .ok (value ++ (os.data.buf.drop os.pos).take size) { os with pos := os.pos + size }

def popOctets (value : List UInt8) : StreamM (List UInt8) := do
  let size ← popSize
  popAppend value size

/-! ## The overloads -/

/-- The types that `push` and `pop` accept; the index tells whether `bee::pod` holds. A marshal
struct lists its fields in the order of its `pack` and `unpack`, each with the initializer that its
default constructor gives it. -/
inductive Ty : Bool → Type → Type 1 where
  | bool : Ty true Bool
  | scalar {α : Type} (kind : Scalar α) : Ty true α
  | octets : Ty false (List UInt8)
  | pair {b b' : Bool} {α β : Type} (first : Ty b α) (second : Ty b' β) : Ty false (α × β)
  | contiguous {α : Type} (kind : Contiguous α) : Ty false (List α)
  | vector {α : Type} (maxSize : MaxSize) (element : Ty false α) : Ty false (List α)
  | container {b : Bool} {α : Type} (kind : Container α) (element : Ty b α) : Ty false kind.Content
  | struct : Ty false Unit
  | field {b b' : Bool} {α β : Type} (type : Ty b α) (init : α) (rest : Ty b' β) : Ty false (α × β)

namespace Ty

/-- The value of a default-constructed object. A local of plain type is indeterminate in the
source; it is never read before it is written. -/
def default {b : Bool} {α : Type} : Ty b α → α
  | .bool => false
  | .scalar kind => kind.pod.ofBytes (List.replicate kind.pod.size 0)
  | .octets => []
  | .pair first second => (first.default, second.default)
  | .contiguous _ => []
  | .vector _ _ => []
  | .container kind _ => kind.empty
  | .struct => ()
  | .field _ init rest => (init, rest.default)

def push {b : Bool} {α : Type} : Ty b α → α → StreamM Unit
  | .bool, value => pushPod Pod.bool value
  | .scalar kind, value => pushScalar kind value
  | .octets, value => pushOctets value
  | .pair first second, value => do
    first.push value.1
    second.push value.2
  | .contiguous kind, value => pushContiguous kind value
  | .vector maxSize element, value => pushContainer (.vector maxSize) element.push value
  | .container kind element, value => pushContainer kind element.push value
  | .struct, _ => pure ()
  | .field type _ rest, value => do
    type.push value.1
    rest.push value.2

/-- `pop` with the destination's value before the call. -/
def pop {b : Bool} {α : Type} : Ty b α → α → StreamM α
  | .bool, _ => popPod Pod.bool
  | .scalar kind, _ => popScalar kind
  | .octets, value => popOctets value
  | .pair first second, value => do
    let one ← first.pop value.1
    let two ← second.pop value.2
    return (one, two)
  | .contiguous kind, _ => popContiguous kind
  | .vector maxSize element, value => popContainer (.vector maxSize) (element.pop element.default) value
  | .container kind element, value => popContainer kind (element.pop element.default) value
  | .struct, _ => return ()
  | .field type _ rest, value => do
    let one ← type.pop value.1
    let others ← rest.pop value.2
    return (one, others)

end Ty
end Cassobee
