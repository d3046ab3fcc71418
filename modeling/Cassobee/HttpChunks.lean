import Cassobee.HttpLoop

/-! The chunked coding of HTTP/1.1, and a body in this coding that comes in piece by piece. The coding
is not the repository's own: it is what `httpprotocol::unpack` is meant to read. -/

namespace Cassobee

/-- The value of `HEXDIG`. -/
def hexDigit (byte : UInt8) : Option Nat :=
  if 48 ≤ byte ∧ byte ≤ 57 then some (byte.toNat - 48)
  else if 65 ≤ byte ∧ byte ≤ 70 then some (byte.toNat - 55)
  else if 97 ≤ byte ∧ byte ≤ 102 then some (byte.toNat - 87)
  else none

/-- The digits are read from this value on. -/
def hexDigits (value : Nat) : List UInt8 → Option Nat
  | [] => some value
  | byte :: text => (hexDigit byte).bind fun digit => hexDigits (16 * value + digit) text

/-- A chunk that is not the last one, with its size as it is written. -/
structure Chunk where
  size : List UInt8
  data : List UInt8
  written : size ≠ []
  spelled : hexDigits 0 size = some data.length
  nonempty : data ≠ []

def Chunk.encode (chunk : Chunk) : List UInt8 :=
  chunk.size ++ HttpMessage.crlf ++ chunk.data ++ HttpMessage.crlf

def encodeChunks (chunks : List Chunk) : List UInt8 :=
  chunks.flatMap Chunk.encode ++ asciiBytes "0" ++ HttpMessage.crlf ++ HttpMessage.crlf

namespace HttpM

/-- Bytes come in, and a message that is not complete is unpacked further, as `decode` does it. -/
def unpackDeliveries (getline : HttpM (Option (List UInt8))) (fuel : Nat) : List (List UInt8) → HttpM Unit
  | [] => return
  | delivery :: deliveries => do
    ofStream (appendData delivery)
    if (← get).message.parseState ≠ .complete then
      unpackLinesWith getline fuel
    unpackDeliveries getline fuel deliveries

/-- `getline` put right. -/
def splitLine : HttpM (Option (List UInt8)) := do
  ofStream (popTransaction .begin)
  let unread := (← get).os.unread
  let line := unread.takeWhile fun byte => byte ≠ 10
  if line.length < unread.length then
    advance (line.length + 1)
    ofStream (popTransaction .commit)
    return some line
  else
    ofStream (popTransaction .rollback)
    return none

end HttpM

/-- Lines are split correctly: a line goes to its delimiter, which is not part of it, and what is no line
yet is left. -/
structure SplitsLines (getline : HttpM (Option (List UInt8))) : Prop where
  line : ∀ (parse : HttpParse) (line rest : List UInt8), parse.os.data.Valid → parse.os.size ≤ 2 ^ 63 →
    parse.os.pos ≤ parse.os.size → parse.os.unread = line ++ 10 :: rest → 10 ∉ line →
      ∃ os, getline parse = .ok (some line) { parse with os } ∧ os.data.Valid ∧ os.pos ≤ os.size ∧ os.size ≤ parse.os.size ∧
        os.unread = rest
  nothing : ∀ parse : HttpParse, parse.os.data.Valid → parse.os.size ≤ 2 ^ 63 → parse.os.pos ≤ parse.os.size →
    10 ∉ parse.os.unread → ∃ os, getline parse = .ok none { parse with os } ∧ os.data.Valid ∧ os.pos ≤ os.size ∧
      os.size ≤ parse.os.size ∧ os.unread = parse.os.unread

end Cassobee
