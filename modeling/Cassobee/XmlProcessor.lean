import Cassobee.Protocol

/-! How `tools/protocol_tool/progen.py` reads its XML files and what it makes of the ids in them:
`preprocess_xml` and `MAXPROTOCOLID`. A dictionary is the list of its keys in the order of insertion, and the
names of the enumerators are left out. -/

namespace Cassobee

inductive XmlTag where
  | protocol
  | rpc
  | other (tag : String)
  deriving DecidableEq, Repr

structure XmlField where
  name : Option String
  type : Option String
  default : Option String
  deriving DecidableEq, Repr

/-- An attribute or a child that is missing is `none`. -/
structure XmlElement where
  tag : XmlTag
  name : Option String := none
  type : Option String := none
  maxsize : Option String := none
  fields : List XmlField := []
  argument : Option (Option String) := none
  result : Option (Option String) := none
  deriving DecidableEq, Repr

structure XmlFile where
  name : String
  elements : List XmlElement
  deriving DecidableEq, Repr

inductive XmlError where
  | valueError (text : String)
  | attributeError (text : String)
  deriving DecidableEq, Repr

/-- The truth of an attribute: it is there and not empty. -/
def given : Option String → Bool
  | some text => text ≠ ""
  | none => false

def XmlField.complete (field : XmlField) : Bool := given field.name && given field.type && given field.default

namespace XmlElement

/-- Whether the element has an id. -/
def typed (element : XmlElement) : Bool := element.tag = .protocol ∨ element.tag = .rpc

/-- The name in a text. -/
def title (element : XmlElement) : String := element.name.getD "None"

def parseFields (element : XmlElement) : Except XmlError Unit :=
  if element.fields.all XmlField.complete then return
  else throw (.valueError ("Invalid field definition in " ++ element.title))

end XmlElement

/-- `dict[key] = value`. -/
def insertKey {α : Type} [DecidableEq α] (keys : List α) (key : α) : List α :=
  if key ∈ keys then keys else keys ++ [key]

structure XmlProcessor where
  protocolCache : List (Option String) := []
  protocolEnumEntries : List String := []
  protocolIds : List String := []
  deriving DecidableEq, Repr

namespace XmlProcessor

def parseRpcInfo (processor : XmlProcessor) (element : XmlElement) : Except XmlError Unit :=
  match element.argument, element.result with
  | some (some argument), some (some result) =>
    if some argument ∉ processor.protocolCache then
      throw (.valueError ("Argument type " ++ argument ++ " not found in protocol cache"))
    else if some result ∉ processor.protocolCache then
      throw (.valueError ("Result type " ++ result ++ " not found in protocol cache"))
    else
      return
  | _, _ => throw (.valueError ("Invalid RPC definition in " ++ element.title))

/-- The id is recorded before the rest of the element is looked at. -/
def recordType (processor : XmlProcessor) (element : XmlElement) : Except XmlError XmlProcessor :=
  if !given element.type || !given element.maxsize then
    throw (.valueError ("Protocol " ++ element.title ++ " missing type/maxsize"))
  else if element.name = none then
    throw (.attributeError "'NoneType' object has no attribute 'upper'")
  else
    return { processor with protocolEnumEntries := insertKey processor.protocolEnumEntries (element.type.getD "") }

/-- Two ids are compared as texts. -/
def checkDuplicate (processor : XmlProcessor) (element : XmlElement) : Except XmlError XmlProcessor :=
  if element.type.getD "" ∈ processor.protocolIds then
    throw (.valueError ("Duplicate protocol type " ++ element.type.getD "" ++ " in " ++ element.title))
  else
    return { processor with protocolIds := processor.protocolIds ++ [element.type.getD ""] }

/-- The body of the loop of `_parse_general_xml`. -/
def parseElement (processor : XmlProcessor) (element : XmlElement) : Except XmlError XmlProcessor := do
  let processor ← if element.typed then processor.recordType element else pure processor
  element.parseFields
  if element.tag = .rpc then
    processor.parseRpcInfo element
  let processor := { processor with protocolCache := insertKey processor.protocolCache element.name }
  if element.typed then processor.checkDuplicate element else return processor

def parseGeneralXml (processor : XmlProcessor) (file : XmlFile) : Except XmlError XmlProcessor :=
  file.elements.foldlM parseElement processor

/-- A directory lists a name once. The states that `protocol.xml` defines have no ids. -/
def preprocessXml (listing : List XmlFile) : Except XmlError XmlProcessor :=
  let xmlFiles := listing.filter fun file => file.name.endsWith ".xml"
  (xmlFiles.filter fun file => file.name ≠ "protocol.xml").foldlM parseGeneralXml {}

/-- The text that is emitted for `MAXPROTOCOLID`: the last key. -/
def maxProtocolId (processor : XmlProcessor) : Option String := processor.protocolEnumEntries.getLast?

end XmlProcessor

/-- The size of `std::bitset<MAXPROTOCOLID + 1>`. -/
def forbiddenSize (maxProtocolId : ProtocolId) : Nat := (maxProtocolId + 1#32).toNat

/-- The value of an integer literal. -/
def integerLiteral (text : String) : Option ProtocolId :=
  let digits (base : Nat) (text : List Char) : Option ProtocolId :=
    if text = [] then none
    else (text.foldlM (fun (value : Nat) c =>
      let digit := if c.isDigit then c.toNat - 48 else if 'a' ≤ c.toLower ∧ c.toLower ≤ 'f' then c.toLower.toNat - 87 else 16
      if digit < base then some (base * value + digit) else none) 0).map (BitVec.ofNat 32)
  match text.toList with
  | '0' :: 'x' :: text | '0' :: 'X' :: text => digits 16 text
  | '0' :: 'b' :: text | '0' :: 'B' :: text => digits 2 text
  | '0' :: text => digits 8 ('0' :: text)
  | text => digits 10 text

end Cassobee
