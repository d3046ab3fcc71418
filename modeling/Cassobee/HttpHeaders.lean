import Cassobee.HttpProtocol

/-! The header accessors of `http/httpprotocol.h`. -/

namespace Cassobee

/-- The bytes that a short `std::string` has inside the object. -/
def localBuffer : Nat := 16

/-- `std::transform(src.begin(), src.end(), dest.begin(), ::tolower)`: the bytes are written over those of
`dest`, which keeps its size. Beyond its end they fall into the buffer of a short string, and `none` is a
write outside of the object. -/
def transformInto (dest src : List UInt8) : Option (List UInt8) :=
  if src.length ≤ max dest.length localBuffer then
    some ((src.map toLower).take dest.length ++ dest.drop src.length)
  else
    none

namespace HttpMessage

def setHeader (message : HttpMessage) (key value : List UInt8) : Option HttpMessage :=
  if key = [] ∨ value = [] then some message
  else do
    let k ← transformInto [] key
    let v ← transformInto [] value
    return message.putHeader k v

def delHeader (message : HttpMessage) (key : List UInt8) : HttpMessage :=
  { message with headers := message.headers.filter fun header => header.1 ≠ key }

/-- `get_header` for any key. -/
def findHeader (message : HttpMessage) (key : List UInt8) : List UInt8 :=
  match message.headers.find? fun header => header.1 = key with
  | some header => header.2
  | none => []

end HttpMessage

/-- The calls with keys and values that are not empty, and with keys in lower case to be deleted. -/
inductive HeaderCall where
  | set (key value : List UInt8) (named : key ≠ []) (valued : value ≠ [])
  | del (key : List UInt8) (lower : key.map toLower = key)

def HttpMessage.headerCall (message : HttpMessage) : HeaderCall → Option HttpMessage
  | .set key value .. => message.setHeader key value
  | .del key _ => some (message.delHeader key)

end Cassobee
