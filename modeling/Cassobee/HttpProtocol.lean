import Cassobee.Marshal

/-! The messages of `http/httpprotocol.cpp` and their text. A `std::string` is the list of its bytes. -/

namespace Cassobee

def asciiBytes (text : String) : List UInt8 := text.toList.map fun c => UInt8.ofNat c.toNat

/-! ## `http/http.h` -/

inductive HttpMethod where
  | unknown | get | post | put | delete | head | options | patch | trace | connect
  deriving DecidableEq, Repr

inductive HttpVersion where
  | unknown | v1_0 | v1_1 | v2_0
  deriving DecidableEq, Repr

def httpMethodMap : List (HttpMethod × String) :=
  [(.unknown, "Unknown"), (.get, "GET"), (.post, "POST"), (.put, "PUT"), (.delete, "DELETE"), (.head, "HEAD"),
    (.options, "OPTIONS"), (.patch, "PATCH"), (.trace, "TRACE"), (.connect, "CONNECT")]

def httpVersionMap : List (HttpVersion × String) :=
  [(.unknown, "Unknown"), (.v1_0, "HTTP/1.0"), (.v1_1, "HTTP/1.1"), (.v2_0, "HTTP/2.0")]

def httpStatusMap : List (Nat × String) :=
  [(0, "Unknown"), (100, "Continue"), (101, "Switching Protocols"), (102, "Processing"), (200, "OK"), (201, "Created"),
    (202, "Accepted"), (203, "Non-Authoritative Information"), (204, "No Content"), (205, "Reset Content"), (206, "Partial Content"),
    (207, "Multi Status"), (208, "Already Reported"), (226, "Im Used"), (300, "Multiple Choices"), (301, "Moved Permanently"),
    (302, "Found"), (303, "See Other"), (304, "Not Modified"), (307, "Temporary Redirect"), (308, "Permanent Redirect"),
    (400, "Bad Request"), (401, "Unauthorized"), (403, "Forbidden"), (404, "Not Found"), (405, "Method Not Allowed"),
    (408, "Request Timeout"), (409, "Conflict"), (410, "Gone"), (411, "Length Required"), (413, "Payload Too Large"),
    (414, "URI Too Long"), (415, "Unsupported Media Type"), (416, "Range Not Satisfiable"), (417, "Expectation Failed"),
    (426, "Upgrade Required"), (428, "Precondition Required"), (429, "Too Many Requests"), (431, "Request Header Fields Too Large"),
    (500, "Internal Server Error"), (501, "Not Implemented"), (502, "Bad Gateway"), (503, "Service Unavailable"),
    (504, "Gateway Timeout"), (505, "HTTP Version Not Supported"), (511, "Network Authentication Required")]

/-- `#string` of an argument that is a string literal: the quotation marks are part of the text. -/
def stringized (text : String) : List UInt8 := asciiBytes ("\"" ++ text ++ "\"")

/-- `switch` over the rows of a table. -/
def toText {κ : Type} [DecidableEq κ] (table : List (κ × String)) (key : κ) : List UInt8 :=
  match table.find? fun row => row.1 = key with
  | some row => stringized row.2
  | none => asciiBytes "Unknown"

/-- The first row with the text. -/
def ofText {κ : Type} (table : List (κ × String)) (unknown : κ) (text : List UInt8) : κ :=
  match table.find? fun row => stringized row.2 = text with
  | some row => row.1
  | none => unknown

def httpMethodToString (method : HttpMethod) : List UInt8 := toText httpMethodMap method

def stringToHttpMethod (text : List UInt8) : HttpMethod := ofText httpMethodMap .unknown text

def httpVersionToString (version : HttpVersion) : List UInt8 := toText httpVersionMap version

def stringToHttpVersion (text : List UInt8) : HttpVersion := ofText httpVersionMap .unknown text

def httpStatusToString (status : Nat) : List UInt8 := toText httpStatusMap status

/-! ## C strings and `std::string` -/

/-- What a `const char*` shows of the bytes. -/
def cString (text : List UInt8) : List UInt8 := text.takeWhile fun byte => byte ≠ 0

def toLower (byte : UInt8) : UInt8 := if 65 ≤ byte ∧ byte ≤ 90 then byte + 32 else byte

def strcasecmpEq (text : List UInt8) (other : String) : Bool := (cString text).map toLower = (asciiBytes other).map toLower

def decimal (n : Nat) : List UInt8 := asciiBytes (toString n)

/-- `find(ch, from)`; `none` is `npos`. -/
def findByte (text : List UInt8) (ch : UInt8) (start : Nat) : Option Nat :=
  ((text.drop start).findIdx? fun byte => byte = ch).map (start + ·)

/-- `substr(0, end)`. -/
def textUntil (text : List UInt8) : Option Nat → List UInt8
  | none => text
  | some index => text.take index

/-- The index after one that was found; `npos + 1` is 0. -/
def afterByte : Option Nat → Nat
  | none => 0
  | some index => index + 1

inductive HttpThrown where
  | stream (thrown : Thrown)
  | message (what : String)
  | outOfRange
  | lengthError
  | invalidArgument
  /-- The loop has not come to its end. -/
  | noFuel
  deriving DecidableEq, Repr

/-- Blanks, a sign and digits, as `strtol` and `strtoul` take them: whether there is a minus, and the
number. -/
def scanNumber (text : List UInt8) : Option (Bool × Nat) :=
  let text := (cString text).dropWhile fun byte => byte = 32 ∨ (9 ≤ byte ∧ byte ≤ 13)
  let minus := text.head? = some 45
  let text := if minus ∨ text.head? = some 43 then text.tail else text
  let digits := text.takeWhile fun byte => 48 ≤ byte ∧ byte ≤ 57
  if digits = [] then none else some (minus, digits.foldl (fun n digit => 10 * n + (digit.toNat - 48)) 0)

def stoul (text : List UInt8) : Except HttpThrown Nat :=
  match scanNumber text with
  | none => .error .invalidArgument
  | some (minus, n) =>
    if n ≥ wordSize then .error .outOfRange else .ok (if minus then (wordSize - n) % wordSize else n)

/-- The value of `(HTTP_STATUS)(atoi(text))`. -/
def atoiStatus (text : List UInt8) : Nat :=
  match scanNumber text with
  | none => 0
  | some (minus, n) => if minus then (2 ^ 32 - n % 2 ^ 32) % 2 ^ 32 else n % 2 ^ 32

/-- `std::string(first, len)` where `first` is a `char`: that many copies of the character `len`. A
`char` above 127 is negative, and no string is as long as its `size_t`. -/
def stringOf (first : UInt8) (len : Nat) : Except HttpThrown (List UInt8) :=
  if first ≥ 128 then .error .lengthError else .ok (List.replicate first.toNat (UInt8.ofNat len))

/-! ## Messages -/

inductive HttpParseState where
  | none | firstLine | header | body | chunkedSize | chunkedData | chunkedEnd | complete | error
  deriving DecidableEq, Repr

inductive HttpStart where
  | request (method : HttpMethod) (path query fragment : List UInt8)
  | response (status : Nat) (cookies : List (List UInt8))
  deriving DecidableEq, Repr

/-- `headers` is in the order in which the map is iterated over. -/
structure HttpMessage where
  parseState : HttpParseState := .none
  isChunked : Bool := false
  chunkSize : Nat := 0
  isWebsocket : Bool := false
  isKeepalive : Bool := false
  version : HttpVersion := .unknown
  body : List UInt8 := []
  headers : List (List UInt8 × List UInt8) := []
  start : HttpStart
  deriving DecidableEq, Repr

def HttpMessage.getRequest : HttpMessage := { start := .request .unknown [] [] [] }

def HttpMessage.getResponse : HttpMessage := { start := .response 200 [] }

namespace HttpMessage

def crlf : List UInt8 := [13, 10]

def getHeader (message : HttpMessage) (key : String) : List UInt8 :=
  match message.headers.find? fun header => header.1 = asciiBytes key with
  | some header => header.2
  | none => []

/-- `_headers[key] = value`. -/
def putHeader (message : HttpMessage) (key value : List UInt8) : HttpMessage :=
  { message with headers := if message.headers.any fun header => header.1 = key then
        message.headers.map fun header => if header.1 = key then (key, value) else header
      else message.headers ++ [(key, value)] }

/-! ### Writing -/

def dumpHeaders (message : HttpMessage) : List UInt8 :=
  (if message.isWebsocket then [] else
    asciiBytes "connection: " ++ asciiBytes (if message.isKeepalive then "keep-alive" else "close") ++ crlf) ++
  message.headers.flatMap fun header =>
    if !message.isWebsocket && strcasecmpEq header.1 "connection" then [] else header.1 ++ asciiBytes ": " ++ header.2 ++ crlf

/-- A request is written without its body. -/
def dump (message : HttpMessage) : List UInt8 :=
  match message.start with
  | .request method path query fragment =>
    httpMethodToString method ++ asciiBytes " " ++ path ++ (if query = [] then [] else asciiBytes "?") ++ query ++
      (if fragment = [] then [] else asciiBytes "#") ++ fragment ++ asciiBytes " HTTP/" ++ httpVersionToString message.version ++ crlf ++
      message.dumpHeaders ++
      if message.body = [] then crlf else asciiBytes "content-length: " ++ decimal message.body.length ++ crlf ++ crlf
  | .response status cookies =>
    asciiBytes "HTTP/" ++ httpVersionToString message.version ++ asciiBytes " " ++ decimal status ++ asciiBytes " " ++
      httpStatusToString status ++ crlf ++ message.dumpHeaders ++
      (cookies.flatMap fun cookie => asciiBytes "set-cookie: " ++ cookie ++ crlf) ++
      if message.body = [] then crlf else
        asciiBytes "content-length: " ++ decimal message.body.length ++ crlf ++ crlf ++ message.body

/-- `pack` appends a C string. -/
def pack (message : HttpMessage) : StreamM Unit := appendData (cString message.dump)

def encode (message : HttpMessage) : StreamM Unit := fun os =>
  match message.pack os with
  | .ok () os => .ok () os
  | .error _ os => .ok () os

end HttpMessage

/-! ## Reading -/

/-- The stream, and the message that is being read from it. -/
structure HttpParse where
  os : Octetsstream
  message : HttpMessage

abbrev HttpM := EStateM HttpThrown HttpParse

namespace HttpM

def ofStream {α : Type} (action : StreamM α) : HttpM α := fun parse =>
  match action parse.os with
  | .ok value os => .ok value { parse with os }
  | .error thrown os => .error (.stream thrown) { parse with os }

def ofExcept {α : Type} (value : Except HttpThrown α) : HttpM α := fun parse =>
  match value with
  | .ok value => .ok value parse
  | .error thrown => .error thrown parse

/-- `octets::operator[]`. -/
def byteAt (pos : Nat) : HttpM UInt8 := fun parse =>
  match parse.os.bytes[pos]? with
  | some byte => .ok byte parse
  | none => .error .outOfRange parse

def advance (len : Nat) : HttpM Unit := fun parse =>
  .ok () { parse with os := { parse.os with pos := (parse.os.pos + len) % wordSize } }

def throwIf (failed : Bool) (thrown : HttpThrown) : HttpM Unit := if failed then throw thrown else return

def setMessage (change : HttpMessage → HttpMessage) : HttpM Unit := fun parse =>
  .ok () { parse with message := change parse.message }

def getline (declm : UInt8) : HttpM (Option (List UInt8)) := do
  ofStream (popTransaction .begin)
  let os := (← get).os
  let len := (os.unread.takeWhile fun byte => byte ≠ declm).length
  let pos := os.pos + len
  if (← byteAt pos) = declm then
    advance len
    let str ← ofExcept (stringOf (← byteAt (pos - len)) len)
    ofStream (popTransaction .commit)
    return some str
  else
    ofStream (popTransaction .rollback)
    return none

def onParseHeaderFinished : HttpM Unit := do
  let connection := (← get).message.getHeader "connection"
  if connection ≠ [] then
    if strcasecmpEq connection "close" then
      setMessage fun message => { message with isKeepalive := false }
    else if strcasecmpEq connection "keep-alive" then
      setMessage fun message => { message with isKeepalive := true }
    else if strcasecmpEq connection "upgrade" then
      setMessage fun message => { message with isWebsocket := true }
  if strcasecmpEq ((← get).message.getHeader "transfer-encoding") "chunked" then
    setMessage fun message => { message with isChunked := true, isKeepalive := true }

def unpackHeader (line : List UInt8) : HttpM Unit := do
  if line ≠ [13] then
    match findByte line 58 0 with
    | none => return
    | some colon =>
      let key := (line.take colon).map toLower
      throwIf (colon + 2 > line.length) .outOfRange
      let rest := line.drop (colon + 2)
      let value := if line.length ≥ colon + 3 then rest.take (line.length - colon - 3) else rest
      setMessage fun message => message.putHeader key (value.map toLower)
  else
    onParseHeaderFinished
    setMessage fun message =>
      { message with parseState := if message.isChunked then .chunkedSize else .body }

/-- The length is an `int`, and a negative one is a large `size_t`. -/
def unpackBody : HttpM Unit := do
  let contentLength := (← get).message.getHeader "content-length"
  if contentLength ≠ [] then
    ofStream (popTransaction .begin)
    let len := (← ofExcept (stoul contentLength)) % 2 ^ 32
    let len := if len < 2 ^ 31 then len else wordSize - 2 ^ 32 + len
    if !(← get).os.dataReady len then
      ofStream (popTransaction .rollback)
    else
      let body ← ofExcept (stringOf (← byteAt (← get).os.pos) len)
      setMessage fun message => { message with body }
      advance (len + 2)
      ofStream (popTransaction .commit)
      setMessage fun message => { message with parseState := .complete }

def unpackChunkedData : HttpM Unit := do
  let size := (← get).message.chunkSize
  ofStream (popTransaction .begin)
  if !(← get).os.dataReady size then
    ofStream (popTransaction .rollback)
  else
    let chunk ← ofExcept (stringOf (← byteAt (← get).os.pos) size)
    setMessage fun message => { message with body := message.body ++ chunk }
    advance (size + 2)
    ofStream (popTransaction .commit)
    setMessage fun message => { message with chunkSize := 0, parseState := .chunkedSize }

/-- The body of the loop of `httpprotocol::unpack`. -/
def unpackLine (line : List UInt8) : HttpM Unit := do
  match (← get).message.parseState with
  | .header => unpackHeader line
  | .body => unpackBody
  | .chunkedSize =>
    let size ← ofExcept (stoul line)
    setMessage fun message =>
      { message with chunkSize := size, parseState := if size = 0 then .complete else .chunkedData }
  | .chunkedData => unpackChunkedData
  | _ => return

/-- The states in which no line is read. -/
def nextLine : HttpM (Option (List UInt8)) := do
  match (← get).message.parseState with
  | .body | .chunkedData => return some []
  | _ => getline 10

def unpackLines : Nat → HttpM Unit
  | 0 => throw .noFuel
  | fuel + 1 => do
    match ← nextLine with
    | none => return
    | some line =>
      unpackLine line
      unpackLines fuel

def setMethod (method : HttpMethod) : HttpM Unit := setMessage fun message => { message with
  start := match message.start with
    | .request _ path query fragment => .request method path query fragment
    | start => start }

def setPath (path : List UInt8) : HttpM Unit := setMessage fun message => { message with
  start := match message.start with
    | .request method _ query fragment => .request method path query fragment
    | start => start }

def setStatus (status : Nat) : HttpM Unit := setMessage fun message => { message with
  start := match message.start with
    | .response _ cookies => .response status cookies
    | start => start }

def unpackVersion (text : List UInt8) : HttpM Unit := do
  let version := stringToHttpVersion text
  setMessage fun message => { message with version }
  throwIf (version = .unknown) (.message "Unknown HTTP version")

/-- The request line. -/
def unpackRequestLine (line : List UInt8) : HttpM Unit := do
  throwIf (line = []) (.message "Empty request line")
  let methodEnd := findByte line 32 0
  let method := stringToHttpMethod (textUntil line methodEnd)
  setMethod method
  throwIf (method = .unknown) (.message "Unknown HTTP method")
  let pathEnd := findByte line 32 (afterByte methodEnd)
  let path := textUntil (line.drop (afterByte methodEnd)) (pathEnd.map (· - afterByte methodEnd))
  setPath path
  throwIf (path = []) (.message "Empty URL")
  unpackVersion (line.drop (afterByte pathEnd))
  setMessage fun message => { message with parseState := .header }

/-- The status line. -/
def unpackStatusLine (line : List UInt8) : HttpM Unit := do
  throwIf (line = []) (.message "Empty request line")
  let versionEnd := findByte line 32 0
  unpackVersion (textUntil line versionEnd)
  match findByte line 32 (afterByte versionEnd) with
  | none => throw .lengthError
  | some statusEnd =>
    let status := atoiStatus ((line.drop (afterByte versionEnd)).take (statusEnd - afterByte versionEnd))
    setStatus status
    throwIf (status = 0) (.message "Unknown HTTP status")
    setMessage fun message => { message with parseState := .header }

def unpackStartLine (line : List UInt8) : HttpM Unit := do
  match (← get).message.start with
  | .request .. => unpackRequestLine line
  | .response .. => unpackStatusLine line

/-- `httprequest::unpack` and `httpresponse::unpack`. -/
def unpack (fuel : Nat) : HttpM Unit := do
  setMessage fun message => if message.parseState = .none then { message with parseState := .firstLine } else message
  if (← get).message.parseState = .firstLine then
    match ← getline 10 with
    | none => return
    | some line =>
      unpackStartLine line
      unpackLines fuel
  else
    unpackLines fuel

/-- The kind of a new message is told by its first line. -/
def newMessage : HttpM Unit := do
  ofStream (popTransaction .begin)
  let startLine := (← getline 10).getD []
  setMessage fun _ => if asciiBytes "HTTP/" <+: startLine then .getResponse else .getRequest
  ofStream (popTransaction .rollback)

end HttpM

/-- What `decode` uses of an `httpsession`. -/
structure HttpSession where
  unfinishedProtocol : Option HttpMessage := none
  closing : Bool := false
  deriving DecidableEq, Repr

/-- `none` if `decode` does not return: the loop has no end within the fuel, or the last rollback
throws. -/
def httpDecode (fuel : Nat) (os : Octetsstream) (session : HttpSession) :
    Option (Option HttpMessage × HttpSession × Octetsstream) :=
  if !os.dataReady 1 then
    some (none, session, os)
  else
    let parse : HttpM Unit := do
      if session.unfinishedProtocol.isNone then HttpM.newMessage
      HttpM.unpack fuel
    match parse ⟨os, session.unfinishedProtocol.getD .getRequest⟩ with
    | .ok () parse =>
      if parse.message.parseState = .complete then
        some (some parse.message, { session with unfinishedProtocol := none }, parse.os)
      else
        some (none, { session with unfinishedProtocol := some parse.message }, parse.os)
    | .error .noFuel _ => none
    | .error _ parse =>
      match popTransaction .rollback parse.os with
      | .ok () os =>
        some (none, { unfinishedProtocol := session.unfinishedProtocol.map fun _ => parse.message, closing := true }, os)
      | .error _ _ => none

end Cassobee
