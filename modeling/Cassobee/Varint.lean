import Mathlib.Data.Nat.Bitwise
import Mathlib.Tactic.Common

/-! The integer codings of `common/varint.h`. A `uint64_t` is a natural number below `2 ^ 64`,
a fixed-width integer is its two's complement word, and a `char` buffer is a list of bytes. -/

namespace Cassobee

def wordSize : Nat := 2 ^ 64

/-- The zigzag coding at a word width, in the arithmetic of that width. -/
def encodeZigzag (w : Nat) (n : BitVec w) : BitVec w := (n <<< 1) ^^^ n.sshiftRight (w - 1)

def decodeZigzag (w : Nat) (n : BitVec w) : BitVec w := (n >>> 1) ^^^ -(n &&& 1#w)

/-- A `int16_t` operand is promoted to `int`, and the result is cut back to 16 bits. -/
def encodeZigzag16 (n : BitVec 16) : BitVec 16 :=
  ((n.signExtend 32 <<< 1) ^^^ (n.signExtend 32).sshiftRight 15).setWidth 16

def decodeZigzag16 (n : BitVec 16) : BitVec 16 :=
  ((n.setWidth 32 >>> 1) ^^^ -((n.setWidth 32 &&& 1#32).setWidth 16).signExtend 32).setWidth 16

def encodeZigzag32 (n : BitVec 32) : BitVec 32 := encodeZigzag 32 n

def decodeZigzag32 (n : BitVec 32) : BitVec 32 := decodeZigzag 32 n

def encodeZigzag64 (n : BitVec 64) : BitVec 64 := encodeZigzag 64 n

def decodeZigzag64 (n : BitVec 64) : BitVec 64 := decodeZigzag 64 n

/-- The bytes that `write_varint` pushes to its buffer. -/
def writeVarint (value : Nat) : List UInt8 :=
  if value ≥ 0x80 then
    UInt8.ofNat ((value &&& 0x7F) ||| 0x80) :: writeVarint (value >>> 7)
  else
    [UInt8.ofNat value]
termination_by value
decreasing_by
  simp only [Nat.shiftRight_eq_div_pow]
  omega

/-- The loop of `read_varint` over the bytes from `ptr` to `end`: the value and the number of
bytes read, or `none` where the source returns `nullptr`. -/
def readVarintLoop (shift value read : Nat) : List UInt8 → Option (Nat × Nat)
  | [] => none
  | byte :: rest =>
    if shift < 64 then
      let value := value ||| ((byte.toNat &&& 0x7F) <<< shift) % wordSize
      if byte.toNat &&& 0x80 = 0 then
        some (value, read + 1)
      else
        readVarintLoop (shift + 7) value (read + 1) rest
    else
      none

def readVarint (bytes : List UInt8) : Option (Nat × Nat) := readVarintLoop 0 0 0 bytes

/-- Bytes that a varint is taken to need, by the bit length of the value. -/
def compactIntSizeTable : List Nat :=
  [1, 1, 1, 1, 1, 1, 1, 1,
   2, 2, 2, 2, 2, 2, 2, 2,
   3, 3, 3, 3, 3, 3, 3, 3,
   4, 4, 4, 4, 4, 4, 4, 4,
   5, 5, 5, 5, 5, 5, 5, 5,
   6, 6, 6, 6, 6, 6, 6, 6,
   7, 7, 7, 7, 7, 7, 7, 7,
   8, 8, 8, 8, 8, 8, 8, 8,
   9]

/-- `sizeof(size_t) * 8 - countl_zero(value)`: one more than the index of the highest set bit. -/
def bitLength (value : Nat) : Nat := if value = 0 then 0 else value.log2 + 1

def getCompactIntSize (value : Nat) : Nat := compactIntSizeTable.getD (bitLength value) 0

end Cassobee
