import Cassobee.Support.BoundedQueue

/-! The two byte buffers `ring_buffer<N>` and `fixed_buffer<N>` of `utility/`. The bytes at `src` stand for
the pointer with the length. -/

namespace Cassobee
open Support

variable {N : Nat}

/-- `memcpy(data + offset, src, ..)`, which fails beyond the end of the array. -/
def copyIn (data : Vector UInt8 N) (offset : Nat) (src : List UInt8) : Option (Vector UInt8 N) :=
  if offset + src.length ≤ N then
    some (Vector.ofFn fun i => if offset ≤ i.val then (src[i.val - offset]?).getD data[i] else data[i])
  else none

/-- The `length` bytes from `data + offset` on. -/
def copyOut (data : Vector UInt8 N) (offset length : Nat) : Option (List UInt8) :=
  if offset + length ≤ N then some ((data.toList.drop offset).take length) else none

structure RingBuffer (N : Nat) where
  writeCursor : Nat
  readCursor : Nat
  size : Nat
  data : Vector UInt8 N

namespace RingBuffer

def create : RingBuffer N := ⟨0, 0, 0, Vector.replicate N 0⟩

def freeSpace (buffer : RingBuffer N) : Nat := N - buffer.size
def empty (buffer : RingBuffer N) : Bool := buffer.size == 0
def full (buffer : RingBuffer N) : Bool := buffer.size == N

/-- The loop of `write`, with `fuel` for its rounds. -/
def writeLoop (src : List UInt8) (length : Nat) : (fuel written : Nat) → RingBuffer N → Option (Nat × RingBuffer N)
  | fuel, written, buffer =>
    if written < length then
      match fuel with
      | 0 => none
      | fuel + 1 => do
        let writeLength := min (N - buffer.writeCursor) (length - written)
        let data ← copyIn buffer.data buffer.writeCursor ((src.drop written).take writeLength)
        writeLoop src length fuel (written + writeLength)
          { buffer with data, writeCursor := (buffer.writeCursor + writeLength) % N }
    else some (written, buffer)

/-- Each round writes something, so there are no more of them than bytes. -/
def write (buffer : RingBuffer N) (src : List UInt8) : Option (Nat × RingBuffer N) := do
  let length := min buffer.freeSpace src.length
  let (written, buffer) ← writeLoop src length length 0 buffer
  some (written, { buffer with size := buffer.size + written })

/-- The loop of both functions `read`; `dest` is what the destination has got. -/
def readLoop (length : Nat) : (fuel read : Nat) → (dest : List UInt8) → RingBuffer N →
    Option (Nat × List UInt8 × RingBuffer N)
  | fuel, read, dest, buffer =>
    if read < length then
      match fuel with
      | 0 => none
      | fuel + 1 => do
        let readLength := min (N - buffer.readCursor) (length - read)
        let bytes ← copyOut buffer.data buffer.readCursor readLength
        readLoop length fuel (read + readLength) (dest ++ bytes)
          { buffer with readCursor := (buffer.readCursor + readLength) % N }
    else some (read, dest, buffer)

def readTo (buffer : RingBuffer N) (dest : List UInt8) (length : Nat) : Option (Nat × List UInt8 × RingBuffer N) := do
  let length := min buffer.size length
  let (read, dest, buffer) ← readLoop length length 0 dest buffer
  some (read, dest, { buffer with size := buffer.size - read })

def read (buffer : RingBuffer N) (length : Nat) : Option (Nat × List UInt8 × RingBuffer N) := buffer.readTo [] length

/-- The bytes go behind those the stream has. -/
def readStream (buffer : RingBuffer N) (stream : List UInt8) (length : Nat) : Option (Nat × List UInt8 × RingBuffer N) :=
  buffer.readTo stream length

def reset (buffer : RingBuffer N) : RingBuffer N := { buffer with writeCursor := 0, readCursor := 0, size := 0 }

def perform (buffer : RingBuffer N) : QueueAction UInt8 → Option (QueueAnswer UInt8 × RingBuffer N)
  | .write src => (buffer.write src).map fun (written, buffer) => (.written written, buffer)
  | .read length => (buffer.read length).map fun (read, dest, buffer) => (.read read dest, buffer)
  | .readStream stream length =>
    (buffer.readStream stream length).map fun (read, stream, buffer) => (.read read stream, buffer)
  | .reset => some (.done, buffer.reset)

end RingBuffer

structure FixedBuffer (N : Nat) where
  cursor : Nat
  data : Vector UInt8 N

namespace FixedBuffer

def create : FixedBuffer N := ⟨0, Vector.replicate N 0⟩

def size (buffer : FixedBuffer N) : Nat := buffer.cursor
def freeSpace (buffer : FixedBuffer N) : Nat := N - buffer.cursor
def empty (buffer : FixedBuffer N) : Bool := buffer.cursor == 0

def write (buffer : FixedBuffer N) (src : List UInt8) : Option (Nat × FixedBuffer N) :=
  let writeLength := if src.length > buffer.freeSpace then buffer.freeSpace else src.length
  if writeLength > 0 then do
    let data ← copyIn buffer.data buffer.cursor (src.take writeLength)
    some (writeLength, { data, cursor := buffer.cursor + writeLength })
  else some (writeLength, buffer)

/-- Always from the start of the array, and what was read stays there. -/
def readTo (buffer : FixedBuffer N) (dest : List UInt8) (length : Nat) : Option (Nat × List UInt8 × FixedBuffer N) :=
  let readLength := if length > buffer.cursor then buffer.cursor else length
  if readLength > 0 then do
    let bytes ← copyOut buffer.data 0 readLength
    some (readLength, dest ++ bytes, { buffer with cursor := buffer.cursor - readLength })
  else some (readLength, dest, buffer)

def read (buffer : FixedBuffer N) (length : Nat) : Option (Nat × List UInt8 × FixedBuffer N) := buffer.readTo [] length

def readStream (buffer : FixedBuffer N) (stream : List UInt8) (length : Nat) : Option (Nat × List UInt8 × FixedBuffer N) :=
  buffer.readTo stream length

def reset (buffer : FixedBuffer N) : FixedBuffer N := { buffer with cursor := 0 }

def perform (buffer : FixedBuffer N) : QueueAction UInt8 → Option (QueueAnswer UInt8 × FixedBuffer N)
  | .write src => (buffer.write src).map fun (written, buffer) => (.written written, buffer)
  | .read length => (buffer.read length).map fun (read, dest, buffer) => (.read read dest, buffer)
  | .readStream stream length =>
    (buffer.readStream stream length).map fun (read, stream, buffer) => (.read read stream, buffer)
  | .reset => some (.done, buffer.reset)

end FixedBuffer
end Cassobee
