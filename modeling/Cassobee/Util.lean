import Cassobee.HttpProtocol

/-! `url_encode` and `url_decode` of `utility/util.cpp`. -/

namespace Cassobee

def uriChars : List Nat := [
  -- 0
  0, 0, 0, 0, 0, 0, 0, 0,   0, 0, 0, 0, 0, 0, 0, 0,
  0, 0, 0, 0, 0, 0, 0, 0,   0, 0, 0, 0, 0, 0, 0, 0,
  0, 0, 0, 0, 0, 0, 0, 0,   0, 0, 1, 0, 0, 1, 1, 0,
  1, 1, 1, 1, 1, 1, 1, 1,   1, 1, 0, 0, 0, 0, 0, 0,
  -- 64
  0, 1, 1, 1, 1, 1, 1, 1,   1, 1, 1, 1, 1, 1, 1, 1,
  1, 1, 1, 1, 1, 1, 1, 1,   1, 1, 1, 0, 0, 0, 0, 1,
  0, 1, 1, 1, 1, 1, 1, 1,   1, 1, 1, 1, 1, 1, 1, 1,
  1, 1, 1, 1, 1, 1, 1, 1,   1, 1, 1, 0, 0, 0, 1, 0,
  -- 128
  0, 0, 0, 0, 0, 0, 0, 0,   0, 0, 0, 0, 0, 0, 0, 0,
  0, 0, 0, 0, 0, 0, 0, 0,   0, 0, 0, 0, 0, 0, 0, 0,
  0, 0, 0, 0, 0, 0, 0, 0,   0, 0, 0, 0, 0, 0, 0, 0,
  0, 0, 0, 0, 0, 0, 0, 0,   0, 0, 0, 0, 0, 0, 0, 0,
  -- 192
  0, 0, 0, 0, 0, 0, 0, 0,   0, 0, 0, 0, 0, 0, 0, 0,
  0, 0, 0, 0, 0, 0, 0, 0,   0, 0, 0, 0, 0, 0, 0, 0,
  0, 0, 0, 0, 0, 0, 0, 0,   0, 0, 0, 0, 0, 0, 0, 0,
  0, 0, 0, 0, 0, 0, 0, 0,   0, 0, 0, 0, 0, 0, 0, 0]

def xdigitChars : List UInt8 := [
  0, 0, 0, 0, 0, 0, 0, 0, 0, 0, 0, 0, 0, 0, 0, 0,
  0, 0, 0, 0, 0, 0, 0, 0, 0, 0, 0, 0, 0, 0, 0, 0,
  0, 0, 0, 0, 0, 0, 0, 0, 0, 0, 0, 0, 0, 0, 0, 0,
  0, 1, 2, 3, 4, 5, 6, 7, 8, 9, 0, 0, 0, 0, 0, 0,
  0, 10, 11, 12, 13, 14, 15, 0, 0, 0, 0, 0, 0, 0, 0, 0,
  0, 0, 0, 0, 0, 0, 0, 0, 0, 0, 0, 0, 0, 0, 0, 0,
  0, 10, 11, 12, 13, 14, 15, 0, 0, 0, 0, 0, 0, 0, 0, 0,
  0, 0, 0, 0, 0, 0, 0, 0, 0, 0, 0, 0, 0, 0, 0, 0,
  0, 0, 0, 0, 0, 0, 0, 0, 0, 0, 0, 0, 0, 0, 0, 0,
  0, 0, 0, 0, 0, 0, 0, 0, 0, 0, 0, 0, 0, 0, 0, 0,
  0, 0, 0, 0, 0, 0, 0, 0, 0, 0, 0, 0, 0, 0, 0, 0,
  0, 0, 0, 0, 0, 0, 0, 0, 0, 0, 0, 0, 0, 0, 0, 0,
  0, 0, 0, 0, 0, 0, 0, 0, 0, 0, 0, 0, 0, 0, 0, 0,
  0, 0, 0, 0, 0, 0, 0, 0, 0, 0, 0, 0, 0, 0, 0, 0,
  0, 0, 0, 0, 0, 0, 0, 0, 0, 0, 0, 0, 0, 0, 0, 0,
  0, 0, 0, 0, 0, 0, 0, 0, 0, 0, 0, 0, 0, 0, 0, 0]

def charIsUnreserved (c : UInt8) : Bool := uriChars.getD c.toNat 0 ≠ 0

/-- `hex[digit]`. -/
def hexChar (digit : UInt8) : UInt8 := (asciiBytes "0123456789ABCDEF").getD digit.toNat 0

def xdigit (h : UInt8) : UInt8 := xdigitChars.getD h.toNat 0

/-- The body of the loop of `url_encode`. -/
def urlEncodeByte (spaceAsPlus : Bool) (c : UInt8) : List UInt8 :=
  if charIsUnreserved c then [c]
  else if spaceAsPlus && c = 32 then [43]
  else [37, hexChar (c >>> 4), hexChar (c &&& 0x0F)]

def urlEncode (str : List UInt8) (spaceAsPlus : Bool := true) : List UInt8 := str.flatMap (urlEncodeByte spaceAsPlus)

def isXdigit (h : UInt8) : Bool := xdigit h ≠ 0 || h = 48

def plusToSpace (spaceAsPlus : Bool) (c : UInt8) : UInt8 := if c = 43 && spaceAsPlus then 32 else c

/-- A `%` with fewer than two bytes behind it is a byte like any other. -/
def urlDecodeFrom (spaceAsPlus : Bool) : List UInt8 → List UInt8
  | c :: h1 :: h2 :: rest =>
    if c = 37 then
      if isXdigit h1 && isXdigit h2 then (xdigit h1 <<< 4 ||| xdigit h2) :: urlDecodeFrom spaceAsPlus rest
      else c :: h1 :: h2 :: urlDecodeFrom spaceAsPlus rest
    else
      plusToSpace spaceAsPlus c :: urlDecodeFrom spaceAsPlus (h1 :: h2 :: rest)
  | c :: rest => plusToSpace spaceAsPlus c :: urlDecodeFrom spaceAsPlus rest
  | [] => []

def urlDecode (str : List UInt8) (spaceAsPlus : Bool := true) : List UInt8 := urlDecodeFrom spaceAsPlus str

end Cassobee
