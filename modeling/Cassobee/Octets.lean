import Cassobee.Varint

/-! The byte buffer of `common/octets.h`. The model keeps the whole allocated block, so that a
move of bytes above `_len` is a move inside `buf`; `_cap` is the length of the block. -/

namespace Cassobee

/-- What leaves a call besides its result. A failed `ASSERT` ends the process and is no exception
that a `catch` could see. -/
inductive Thrown where
  | exception (what : String)
  | overflowError (what : String)
  | lengthError
  | badAlloc
  | abort
  deriving DecidableEq, Repr

/-- `memcpy` or `memmove` of `data` to the offset `pos` of a block. -/
def overwrite (block : List UInt8) (pos : Nat) (data : List UInt8) : List UInt8 :=
  block.take pos ++ data ++ block.drop (pos + data.length)

def frobSize (n : Nat) : Except Thrown Nat :=
  if n > 2 ^ 63 then
    .error (.overflowError "frob_size: input too large")
  else if n = 0 then
    .ok 1
  else
    let n := n - 1
    let n := n ||| (n >>> 1)
    let n := n ||| (n >>> 2)
    let n := n ||| (n >>> 4)
    let n := n ||| (n >>> 8)
    let n := n ||| (n >>> 16)
    let n := n ||| (n >>> 32)
    let n := n + 1
    .ok (if n < 16 then 16 else n)

/-- The same in the 64-bit words of the source. -/
def frobSize64 (n : UInt64) : Except Thrown UInt64 :=
  if n > (1 : UInt64) <<< 63 then
    .error (.overflowError "frob_size: input too large")
  else if n = 0 then
    .ok 1
  else
    let n := n - 1
    let n := n ||| (n >>> 1)
    let n := n ||| (n >>> 2)
    let n := n ||| (n >>> 4)
    let n := n ||| (n >>> 8)
    let n := n ||| (n >>> 16)
    let n := n ||| (n >>> 32)
    let n := n + 1
    .ok (if n < 16 then 16 else n)

structure Octets where
  buf : List UInt8
  len : Nat
  deriving DecidableEq, Repr

namespace Octets

/-- The default constructor allocates 16 bytes. -/
def new : Octets := ⟨List.replicate 16 0, 0⟩

def cap (oct : Octets) : Nat := oct.buf.length

/-- The content, which is what the accessors of the class show. -/
def bytes (oct : Octets) : List UInt8 := oct.buf.take oct.len

def freeSpace (oct : Octets) : Nat := oct.cap - oct.len

/-- Bytes of a fresh block beyond the copied ones are indeterminate; they are zero here and no
function reads them. -/
def create (data : List UInt8) (len cap : Nat) : Octets :=
  ⟨data.take len ++ List.replicate (max len cap - len) 0, len⟩

def reserve (oct : Octets) (cap : Nat) : Except Thrown Octets :=
  if oct.cap ≥ cap then
    .ok oct
  else do
    let size ← frobSize cap
    .ok (create oct.buf oct.len size)

def append (oct : Octets) (data : List UInt8) : Except Thrown Octets :=
  if data.length = 0 then
    .ok oct
  else do
    let oct ← oct.reserve ((oct.len + data.length) % wordSize)
    .ok ⟨overwrite oct.buf oct.len data, oct.len + data.length⟩

/-- `append(const char ch)`. -/
def appendByte (oct : Octets) (ch : UInt8) : Except Thrown Octets := do
  let oct ← oct.reserve ((oct.len + 1) % wordSize)
  .ok ⟨overwrite oct.buf oct.len [ch], oct.len + 1⟩

/-- The bytes behind the position are moved up first. -/
def insert (oct : Octets) (pos : Nat) (data : List UInt8) : Except Thrown Octets := do
  let pos := min oct.len pos
  let oct ← oct.reserve ((oct.len + data.length) % wordSize)
  let buf := overwrite oct.buf (pos + data.length) ((oct.buf.drop pos).take (oct.len - pos))
  .ok ⟨overwrite buf pos data, oct.len + data.length⟩

/-- The subtraction under `ASSERT` is that of `size_t`. -/
def replace (oct : Octets) (pos : Nat) (data : List UInt8) : Except Thrown Octets :=
  let rest := (oct.len + wordSize - pos) % wordSize
  if data.length = 0 then
    .ok oct
  else if rest < data.length then
    .error .abort
  else do
    let len := min rest data.length
    let oct ← oct.reserve ((pos + len) % wordSize)
    .ok ⟨overwrite oct.buf pos (data.take len), max oct.len (pos + len)⟩

def erase (oct : Octets) (pos len : Nat) : Octets :=
  let pos := min oct.len pos
  let len := min (oct.len - pos) len
  ⟨overwrite oct.buf pos ((oct.buf.drop (pos + len)).take (oct.len - pos - len)), oct.len - len⟩

/-- `_len += len`, which a negative difference passed as `size_t` makes shorter. -/
def fastResize (oct : Octets) (len : Nat) : Octets := { oct with len := (oct.len + len) % wordSize }

def clear (oct : Octets) : Octets := { oct with len := 0 }

/-- No constructor or method but `fast_resize` lets `_len` pass `_cap`. -/
def Valid (oct : Octets) : Prop := oct.len ≤ oct.cap

end Octets
end Cassobee
