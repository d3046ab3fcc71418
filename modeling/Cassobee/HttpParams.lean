import Cassobee.Util
import Mathlib.Data.List.Infix

/-! The parameters and cookies of an `httprequest`, and what `common/common.cpp` has for them. -/

namespace Cassobee

/-- `segment` is what lies between `start` and the byte that is looked at. -/
def splitFrom (delim segment : List UInt8) : List UInt8 → List (List UInt8)
  | [] => if segment = [] then [] else [segment]
  | c :: rest =>
    if c ∈ delim then
      if segment = [] then splitFrom delim [] rest else segment :: splitFrom delim [] rest
    else
      splitFrom delim (segment ++ [c]) rest

def split (str delim : List UInt8) : List (List UInt8) := splitFrom delim [] str

def trim (str delim : List UInt8) : List UInt8 :=
  ((str.dropWhile fun c => c ∈ delim).reverse.dropWhile fun c => c ∈ delim).reverse

/-- `std::unordered_map` from strings to strings. -/
abbrev StringMap := List UInt8 → Option (List UInt8)

/-- The loop over the segments: it ends at the first one without `=`. -/
def parseSegments (trimFunc : Option (List UInt8 → List UInt8)) : List (List UInt8) → StringMap → StringMap
  | [], params => params
  | keyval :: rest, params =>
    match findByte keyval 61 0 with
    | none => params
    | some pos =>
      let key := keyval.take pos
      let value := keyval.drop (pos + 1)
      let key := match trimFunc with
        | some trimFunc => trimFunc key
        | none => key
      parseSegments trimFunc rest (Function.update params key (some (urlDecode value)))

def parseParam (str : List UInt8) (params : StringMap) (flag : UInt8) (trimFunc : Option (List UInt8 → List UInt8)) :
    StringMap :=
  parseSegments trimFunc (split str [flag]) params

/-- The three bits of `_parse_param_flag` say what has been parsed. -/
structure HttpRequestParams where
  message : HttpMessage
  params : StringMap
  cookies : StringMap
  parsedQuery : Bool
  parsedBody : Bool
  parsedCookies : Bool

namespace HttpRequestParams

def query (request : HttpRequestParams) : List UInt8 :=
  match request.message.start with
  | .request _ _ query _ => query
  | .response .. => []

def initQueryParam (request : HttpRequestParams) : HttpRequestParams :=
  if request.parsedQuery then request
  else { request with params := parseParam request.query request.params 38 none, parsedQuery := true }

/-- `strcasestr`. -/
def strcasestr (text : List UInt8) (part : String) : Bool :=
  (asciiBytes part).map toLower <:+: (cString text).map toLower

def initBodyParam (request : HttpRequestParams) : HttpRequestParams :=
  if request.parsedBody then request
  else { request with
    params := if strcasestr (request.message.getHeader "content-type") "application/x-www-form-urlencoded" then
        parseParam request.message.body request.params 38 none
      else request.params
    parsedBody := true }

def trimCookie (str : List UInt8) : List UInt8 := trim str [9, 13, 10]

/-- Without a cookie the flag is not set. -/
def initCookies (request : HttpRequestParams) : HttpRequestParams :=
  let cookie := request.message.getHeader "cookie"
  if request.parsedCookies || cookie = [] then request
  else { request with cookies := parseParam cookie request.cookies 59 (some trimCookie), parsedCookies := true }

def getParam (request : HttpRequestParams) (key : List UInt8) : List UInt8 × HttpRequestParams :=
  let request := request.initQueryParam.initBodyParam
  ((request.params key).getD [], request)

def getCookie (request : HttpRequestParams) (key : List UInt8) : List UInt8 × HttpRequestParams :=
  let request := request.initCookies
  ((request.cookies key).getD [], request)

end HttpRequestParams
end Cassobee
