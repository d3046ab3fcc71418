import Cassobee.HttpProtocol

/-! `http/uri.cpp`. -/

namespace Cassobee

/-- `find_first_of(set, start)`. -/
def findFirstOf (text set : List UInt8) (start : Nat) : Option Nat :=
  ((text.drop start).findIdx? fun byte => byte ∈ set).map (start + ·)

/-- A number that is no `long` becomes the nearest one, which is then cut to an `int`. -/
def atoi (text : List UInt8) : Int :=
  match scanNumber text with
  | none => 0
  | some (minus, n) => (max (-2 ^ 63) (min (2 ^ 63 - 1) (if minus then -(n : Int) else n))).bmod (2 ^ 32)

structure Uri where
  schema : List UInt8 := []
  user : List UInt8 := []
  password : List UInt8 := []
  host : List UInt8 := []
  port : Int := 0
  path : List UInt8 := []
  query : List UInt8 := []
  fragment : List UInt8 := []
  deriving DecidableEq, Repr

namespace Uri

def parseUserinfo (uri : Uri) (userinfo : List UInt8) : Uri :=
  match findByte userinfo 58 0 with
  | some colonPos => { uri with user := userinfo.take colonPos, password := userinfo.drop (colonPos + 1) }
  | none => { uri with user := userinfo }

def parseHostport (uri : Uri) (hostport : List UInt8) : Uri :=
  if hostport.head? = some 91 then
    match findByte hostport 93 1 with
    | some closingBracket =>
      let uri := { uri with host := (hostport.drop 1).take (closingBracket - 1) }
      match findByte hostport 58 closingBracket with
      | some colonPos => { uri with port := atoi (hostport.drop (colonPos + 1)) }
      | none => uri
    | none => uri
  else
    match findByte hostport 58 0 with
    | some colonPos => { uri with host := hostport.take colonPos, port := atoi (hostport.drop (colonPos + 1)) }
    | none => { uri with host := hostport }

def parseAuthority (uri : Uri) (authority : List UInt8) : Uri :=
  match findByte authority 64 0 with
  | some userPos => (uri.parseUserinfo (authority.take userPos)).parseHostport (authority.drop (userPos + 1))
  | none => uri.parseHostport authority

/-- The fragment is cut off, then the query. -/
def parseRemaining (uri : Uri) (remaining : List UInt8) : Uri :=
  let (uri, remaining) := match findByte remaining 35 0 with
    | some fragPos => ({ uri with fragment := remaining.drop (fragPos + 1) }, remaining.take fragPos)
    | none => (uri, remaining)
  match findByte remaining 63 0 with
  | some queryPos => { uri with query := remaining.drop (queryPos + 1), path := remaining.take queryPos }
  | none => { uri with path := remaining }

def parse (uriStr : List UInt8) : Uri :=
  match findByte uriStr 58 0 with
  | some pos =>
    let uri : Uri := { schema := uriStr.take pos }
    let rest := uriStr.drop (pos + 1)
    if rest.take 2 = [47, 47] then
      let authorityEnd := findFirstOf rest [47, 63, 35] 2
      let authority := textUntil (rest.drop 2) (authorityEnd.map (· - 2))
      (uri.parseAuthority authority).parseRemaining (rest.drop (authorityEnd.getD rest.length))
    else
      { uri with path := rest }
  | none => parseRemaining {} uriStr

def isDefaultPort (uri : Uri) : Bool :=
  if uri.port = 0 then true
  else if uri.schema = asciiBytes "http" ∨ uri.schema = asciiBytes "ws" then uri.port = 8080
  else if uri.schema = asciiBytes "https" ∨ uri.schema = asciiBytes "wss" then uri.port = 443
  else false

/-- `std::to_string`. -/
def portText (port : Int) : List UInt8 := if port < 0 then 45 :: decimal port.natAbs else decimal port.natAbs

def toString (uri : Uri) : List UInt8 :=
  let result := if uri.schema = [] then [] else
    uri.schema ++ [58] ++ if uri.host ≠ [] ∨ uri.port > 0 ∨ uri.user ≠ [] then [47, 47] else []
  let result := result ++ if uri.user = [] then [] else
    uri.user ++ (if uri.password = [] then [] else 58 :: uri.password) ++ [64]
  let result := result ++ if uri.host = [] then [] else
    if 58 ∈ uri.host then [91] ++ uri.host ++ [93] else uri.host
  let result := result ++ if uri.isDefaultPort then [] else 58 :: portText uri.port
  let result := result ++ if uri.path = [] then [] else
    (if result ≠ [] ∧ uri.path.head? ≠ some 47 ∧ uri.host ≠ [] then [47] else []) ++ uri.path
  let result := result ++ if uri.query = [] then [] else 63 :: uri.query
  result ++ if uri.fragment = [] then [] else 35 :: uri.fragment

end Uri
end Cassobee
