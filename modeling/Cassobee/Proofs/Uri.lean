import Cassobee.Uri
import Cassobee.Proofs.Text

/-! What `uri::parse` reads, one cut after the other. Every component of the grammar is free of the
delimiters that are looked for before it is taken. -/

namespace Cassobee.Proofs
open Support

/-- An optional part behind its delimiter. -/
def marked (mark : UInt8) : Option (List UInt8) → List UInt8
  | none => []
  | some text => mark :: text

/-- The delimiters that end an authority. -/
def pathMarks : List UInt8 := [47, 63, 35]

variable {uri : Uri}

/-! ## The port -/

/-- A number is cut to 32 bits only if it has more. -/
theorem atoi_of_scan {text : List UInt8} {minus : Bool} {n : Nat} (scanned : scanNumber text = some (minus, n))
    (low : -2 ^ 31 ≤ if minus then -(n : Int) else n) (high : (if minus then -(n : Int) else n) < 2 ^ 31) :
    atoi text = if minus then -(n : Int) else n := by
  rw [atoi, scanned]
  simp only
  generalize (if minus then -(n : Int) else n) = value at low high ⊢
  rw [min_eq_right (by omega), max_eq_right (by omega), Int.bmod_eq_of_le (by omega) (by omega)]

theorem atoi_digits {digits : List UInt8} (written : digits ≠ []) (decimal : ∀ byte ∈ digits, Digit byte)
    (small : digitsValue digits < 2 ^ 31) : atoi digits = digitsValue digits := by
  have scanned : scanNumber digits = some (false, digitsValue digits) := by
    have ends : ∀ byte ∈ ([] : List UInt8).head?, ¬ Digit byte := by simp
    simpa using scanNumber_digits written decimal ends
  have range : (digitsValue digits : Int) < 2 ^ 31 := by exact_mod_cast small
  simpa using atoi_of_scan scanned (by simp only [Bool.false_eq_true, if_false]; omega) (by simpa using range)

/-! ## The authority -/

theorem parseUserinfo_marked {user : List UInt8} (clean : 58 ∉ user) (password : Option (List UInt8)) :
    uri.parseUserinfo (user ++ marked 58 password) = { uri with user, password := password.getD uri.password } := by
  cases password with
  | none => simp only [marked, List.append_nil, Uri.parseUserinfo, findByte_absent clean, Option.getD_none]
  | some password => simp only [marked, Uri.parseUserinfo, findByte_first clean, take_first, drop_first, Option.getD_some]

theorem parseHostport_name {name : List UInt8} (clean : 58 ∉ name) (plain : name.head? ≠ some 91) (port : Option (List UInt8)) :
    uri.parseHostport (name ++ marked 58 port) = { uri with host := name, port := (port.map atoi).getD uri.port } := by
  have other : (name ++ marked 58 port).head? ≠ some 91 := by
    cases name with
    | nil => cases port <;> simp [marked]
    | cons byte name => simpa using plain
  rw [Uri.parseHostport, if_neg other]
  cases port with
  | none => simp only [marked, List.append_nil, findByte_absent clean, Option.map_none, Option.getD_none]
  | some port => simp only [marked, findByte_first clean, take_first, drop_first, Option.map_some, Option.getD_some]

theorem findByte_bracket {literal : List UInt8} (clean : 93 ∉ literal) (tail : List UInt8) :
    findByte (91 :: (literal ++ 93 :: tail)) 93 1 = some (literal.length + 1) := by
  have behind := findByte_behind [91] (literal ++ 93 :: tail) 93
  rw [findByte_first clean] at behind
  simpa [Nat.add_comm] using behind

/-- Whatever stands between the bracket and the colon is passed over. -/
theorem parseHostport_literal {literal junk : List UInt8} (clean : 93 ∉ literal) (plain : 58 ∉ junk)
    (port : Option (List UInt8)) :
    uri.parseHostport (91 :: (literal ++ 93 :: (junk ++ marked 58 port))) =
      { uri with host := literal, port := (port.map atoi).getD uri.port } := by
  have colon := findByte_behind (91 :: literal) (93 :: (junk ++ marked 58 port)) 58
  rw [List.length_cons, List.cons_append] at colon
  rw [Uri.parseHostport, if_pos (by simp), findByte_bracket clean]
  simp only [Nat.add_sub_cancel, List.drop_one, List.tail_cons, take_first, colon]
  have plain' : 58 ∉ 93 :: junk := by simpa using plain
  cases port with
  | none =>
    rw [marked, List.append_nil, findByte_absent plain']
    rfl
  | some port =>
    have found : findByte (93 :: (junk ++ 58 :: port)) 58 0 = some (junk.length + 1) := findByte_first plain'
    have behind : (91 :: (literal ++ 93 :: (junk ++ 58 :: port))).drop (literal.length + 1 + (junk.length + 1) + 1) = port := by
      simpa [Nat.add_assoc, Nat.add_comm, Nat.add_left_comm] using drop_first (91 :: (literal ++ 93 :: junk)) port 58
    simp only [marked, found, Option.map_some, behind, Option.getD_some]

/-- Without the closing bracket nothing is read. -/
theorem parseHostport_open {text : List UInt8} (absent : 93 ∉ text) : uri.parseHostport (91 :: text) = uri := by
  have behind := findByte_behind [91] text 93
  rw [findByte_absent absent, List.singleton_append, List.length_singleton, Option.map_none] at behind
  rw [Uri.parseHostport, if_pos (by simp), behind]

theorem parseAuthority_user {userinfo : List UInt8} (clean : 64 ∉ userinfo) (hostport : List UInt8) :
    uri.parseAuthority (userinfo ++ 64 :: hostport) = (uri.parseUserinfo userinfo).parseHostport hostport := by
  rw [Uri.parseAuthority, findByte_first clean]
  simp only [take_first, drop_first]

theorem parseAuthority_plain {hostport : List UInt8} (clean : 64 ∉ hostport) :
    uri.parseAuthority hostport = uri.parseHostport hostport := by
  rw [Uri.parseAuthority, findByte_absent clean]

/-! ## What is behind it -/

theorem parseRemaining_marked {path : List UInt8} {query : Option (List UInt8)} (plain : 63 ∉ path) (plain' : 35 ∉ path)
    (clean : ∀ text ∈ query, 35 ∉ text) (fragment : Option (List UInt8)) :
    uri.parseRemaining (path ++ marked 63 query ++ marked 35 fragment) =
      { uri with path, query := query.getD uri.query, fragment := fragment.getD uri.fragment } := by
  have before : 35 ∉ path ++ marked 63 query := by
    cases query with
    | none => simpa [marked] using plain'
    | some query => simpa [marked, plain'] using clean query rfl
  have cut : ∀ uri : Uri, uri.parseRemaining (path ++ marked 63 query) = { uri with path, query := query.getD uri.query } := by
    intro uri
    rw [Uri.parseRemaining, findByte_absent before]
    cases query with
    | none => simp only [marked, List.append_nil, findByte_absent plain, Option.getD_none]
    | some query => simp only [marked, findByte_first plain, take_first, drop_first, Option.getD_some]
  cases fragment with
  | none =>
    simp only [marked, List.append_nil, Option.getD_none]
    apply cut
  | some fragment =>
    rw [Uri.parseRemaining, marked, findByte_first before]
    have rest := cut { uri with fragment }
    rw [Uri.parseRemaining, findByte_absent before] at rest
    simpa only [take_first, drop_first, Option.getD_some] using rest

theorem remaining_head {path : List UInt8} (rooted : path = [] ∨ path.head? = some 47) (query fragment : Option (List UInt8)) :
    ∀ byte ∈ (path ++ marked 63 query ++ marked 35 fragment).head?, byte ∈ pathMarks := by
  intro byte first
  cases path with
  | nil => cases query <;> cases fragment <;> simp_all [marked, pathMarks]
  | cons slash path => simp_all [pathMarks]

/-! ## The whole -/

theorem findFirstOf_behind (before : List UInt8) {authority rest : List UInt8} {byte : UInt8} (clean : ∀ byte ∈ authority, byte ∉ pathMarks)
    (mark : byte ∈ pathMarks) :
    findFirstOf (before ++ (authority ++ byte :: rest)) pathMarks before.length = some (before.length + authority.length) := by
  rw [findFirstOf, List.drop_left, findIdx?_of_first (by simpa using clean) (by simpa using mark)]
  rfl

theorem findFirstOf_absent (before : List UInt8) {authority : List UInt8} (clean : ∀ byte ∈ authority, byte ∉ pathMarks) :
    findFirstOf (before ++ authority) pathMarks before.length = none := by
  rw [findFirstOf, List.drop_left, List.findIdx?_eq_none_iff.2 (by simpa using clean)]
  rfl

theorem parse_hierarchical {schema authority remaining : List UInt8} (plain : 58 ∉ schema)
    (clean : ∀ byte ∈ authority, byte ∉ pathMarks) (ends : ∀ byte ∈ remaining.head?, byte ∈ pathMarks) :
    Uri.parse (schema ++ 58 :: 47 :: 47 :: (authority ++ remaining)) =
      (({ schema } : Uri).parseAuthority authority).parseRemaining remaining := by
  rw [Uri.parse, findByte_first plain]
  simp only [take_first, drop_first, List.take_succ_cons, List.take_zero, if_true]
  cases remaining with
  | nil =>
    have absent : findFirstOf (47 :: 47 :: authority) pathMarks 2 = none := findFirstOf_absent [47, 47] clean
    rw [pathMarks] at absent
    simp [absent, textUntil]
  | cons byte rest =>
    have found : findFirstOf (47 :: 47 :: (authority ++ byte :: rest)) pathMarks 2 = some (2 + authority.length) :=
      findFirstOf_behind [47, 47] clean (ends byte rfl)
    rw [pathMarks] at found
    simp [found, textUntil, Nat.add_comm 2]

theorem parse_flat {schema rest : List UInt8} (plain : 58 ∉ schema) (flat : rest.take 2 ≠ [47, 47]) :
    Uri.parse (schema ++ 58 :: rest) = { schema, path := rest } := by
  rw [Uri.parse, findByte_first plain]
  simp only [take_first, drop_first, flat, if_false]

theorem parse_bare {text : List UInt8} (plain : 58 ∉ text) : Uri.parse text = ({} : Uri).parseRemaining text := by
  rw [Uri.parse, findByte_absent plain]

/-! ## The grammar -/

/-- A user with an optional password. -/
structure UserPart where
  user : List UInt8
  password : Option (List UInt8)
  user_nonempty : user ≠ []
  user_clean : ∀ byte ∈ user, byte ∉ [58, 64, 47, 63, 35]
  password_clean : ∀ text ∈ password, ∀ byte ∈ text, byte ∉ [64, 47, 63, 35]

inductive HostPart where
  | name (text : List UInt8) (nonempty : text ≠ []) (clean : ∀ byte ∈ text, byte ∉ [58, 64, 47, 63, 35])
      (plain : text.head? ≠ some 91)
  | literal (text : List UInt8) (clean : ∀ byte ∈ text, byte ∉ [93, 64, 47, 63, 35])

structure PortPart where
  digits : List UInt8
  written : digits ≠ []
  decimal : ∀ byte ∈ digits, Digit byte
  positive : 1 ≤ digitsValue digits
  small : digitsValue digits ≤ 65535

/-- A choice of components. -/
structure UriParts where
  schema : List UInt8
  userinfo : Option UserPart
  host : HostPart
  port : Option PortPart
  path : List UInt8
  query : Option (List UInt8)
  fragment : Option (List UInt8)
  schema_nonempty : schema ≠ []
  schema_clean : 58 ∉ schema
  path_rooted : path = [] ∨ path.head? = some 47
  path_clean : 63 ∉ path ∧ 35 ∉ path
  query_clean : ∀ text ∈ query, 35 ∉ text

def UserPart.text (part : UserPart) : List UInt8 := part.user ++ marked 58 part.password

def HostPart.host : HostPart → List UInt8
  | .name text .. | .literal text .. => text

def HostPart.text : HostPart → List UInt8
  | .name text .. => text
  | .literal text .. => 91 :: (text ++ [93])

namespace UriParts

def authority (parts : UriParts) : List UInt8 :=
  (match parts.userinfo with
    | none => []
    | some part => part.text ++ [64]) ++
  parts.host.text ++ marked 58 (parts.port.map PortPart.digits)

def text (parts : UriParts) : List UInt8 :=
  parts.schema ++ 58 :: 47 :: 47 :: (parts.authority ++
    (parts.path ++ marked 63 parts.query ++ marked 35 parts.fragment))

/-- The components that were chosen; absent ones are empty. -/
def components (parts : UriParts) : Uri where
  schema := parts.schema
  user := (parts.userinfo.map UserPart.user).getD []
  password := (parts.userinfo.bind UserPart.password).getD []
  host := parts.host.host
  port := (parts.port.map fun port => (digitsValue port.digits : Int)).getD 0
  path := parts.path
  query := parts.query.getD []
  fragment := parts.fragment.getD []

end UriParts

theorem digit_unmarked {byte : UInt8} (digit : Digit byte) : byte ∉ [91, 93, 64, 58, 47, 63, 35] := by
  intro member
  have none : ∀ byte ∈ ([91, 93, 64, 58, 47, 63, 35] : List UInt8), ¬ Digit byte := by simp [Digit]
  exact none byte member digit

theorem HostPart.parse (host : HostPart) (port : Option (List UInt8)) :
    uri.parseHostport (host.text ++ marked 58 port) =
      { uri with host := host.host, port := (port.map atoi).getD uri.port } := by
  cases host with
  | name text nonempty clean plain =>
    have colon : 58 ∉ text := fun member => clean 58 member (by decide)
    exact parseHostport_name colon plain port
  | literal text clean =>
    have bracket : 93 ∉ text := fun member => clean 93 member (by decide)
    have plain : 58 ∉ ([] : List UInt8) := by simp
    simpa [HostPart.text, HostPart.host] using parseHostport_literal bracket plain port

theorem HostPart.unmarked (host : HostPart) : ∀ byte ∈ host.text, byte ∉ [64, 47, 63, 35] := by
  intro byte member outside
  cases host with
  | name text nonempty clean plain => exact clean byte member (List.mem_cons_of_mem _ outside)
  | literal text clean =>
    simp only [HostPart.text, List.mem_cons, List.mem_append, List.not_mem_nil, or_false] at member
    obtain rfl | inside | rfl := member
    · revert outside
      decide
    · exact clean byte inside (List.mem_cons_of_mem _ outside)
    · revert outside
      decide

theorem PortPart.unmarked (port : Option PortPart) :
    ∀ byte ∈ marked 58 (port.map PortPart.digits), byte ∉ [64, 47, 63, 35] := by
  intro byte member outside
  cases port with
  | none => simp [marked] at member
  | some port =>
    obtain rfl | inside := List.mem_cons.1 member
    · revert outside
      decide
    · have marks : ([64, 47, 63, 35] : List UInt8) ⊆ [91, 93, 64, 58, 47, 63, 35] := by decide
      exact digit_unmarked (port.decimal byte inside) (marks outside)

theorem UserPart.unmarked (part : UserPart) : ∀ byte ∈ part.text, byte ∉ [64, 47, 63, 35] := by
  intro byte member outside
  obtain inside | inside := List.mem_append.1 member
  · exact part.user_clean byte inside (List.mem_cons_of_mem _ outside)
  · cases found : part.password with
    | none => simp [found, marked] at inside
    | some password =>
      rw [found, marked] at inside
      obtain rfl | inside := List.mem_cons.1 inside
      · revert outside
        decide
      · exact part.password_clean password found byte inside outside

namespace UriParts
variable (parts : UriParts)

theorem hostport_unmarked : ∀ byte ∈ parts.host.text ++ marked 58 (parts.port.map PortPart.digits), byte ∉ [64, 47, 63, 35] := by
  intro byte member
  obtain inside | inside := List.mem_append.1 member
  · exact parts.host.unmarked byte inside
  · exact PortPart.unmarked parts.port byte inside

theorem authority_unmarked : ∀ byte ∈ parts.authority, byte ∉ pathMarks := by
  intro byte member outside
  rw [authority, List.append_assoc] at member
  obtain inside | inside := List.mem_append.1 member
  · cases found : parts.userinfo with
    | none => simp [found] at inside
    | some part =>
      rw [found] at inside
      obtain inside | last := List.mem_append.1 inside
      · exact part.unmarked byte inside (List.mem_cons_of_mem _ outside)
      · rw [List.mem_singleton.1 last] at outside
        revert outside
        decide
  · exact parts.hostport_unmarked byte inside (List.mem_cons_of_mem _ outside)

theorem port_value (port : Option PortPart) :
    ((port.map PortPart.digits).map atoi).getD 0 = (port.map fun port => (digitsValue port.digits : Int)).getD 0 := by
  cases port with
  | none => rfl
  | some port =>
    have small := port.small
    exact atoi_digits port.written port.decimal (by omega)

theorem parseAuthority_authority (schema : List UInt8) : ({ schema } : Uri).parseAuthority parts.authority =
    { schema, user := parts.components.user, password := parts.components.password, host := parts.components.host,
      port := parts.components.port } := by
  have noUser : 64 ∉ parts.host.text ++ marked 58 (parts.port.map PortPart.digits) := fun member =>
    parts.hostport_unmarked 64 member (by decide)
  rw [authority, List.append_assoc]
  cases found : parts.userinfo with
  | none =>
    rw [List.nil_append, parseAuthority_plain noUser, HostPart.parse]
    simp only [port_value, components, found, Option.map_none, Option.bind_none, Option.getD_none]
  | some part =>
    have noUser' : 64 ∉ part.text := fun member => part.unmarked 64 member (by decide)
    have colon : 58 ∉ part.user := fun member => part.user_clean 58 member (by decide)
    rw [List.append_assoc, List.singleton_append, parseAuthority_user noUser', UserPart.text, parseUserinfo_marked colon,
      HostPart.parse]
    simp only [port_value, components, found, Option.map_some, Option.bind_some, Option.getD_some]

end UriParts

/-- A text of the grammar is read as the components that it was made of. -/
theorem uri_grammar (parts : UriParts) : Uri.parse parts.text = parts.components := by
  rw [UriParts.text, parse_hierarchical parts.schema_clean parts.authority_unmarked (remaining_head parts.path_rooted _ _), parts.parseAuthority_authority,
    parseRemaining_marked parts.path_clean.1 parts.path_clean.2 parts.query_clean]
  rfl

theorem clean_of_all {text marks : List UInt8} (all : (text.all fun byte => !marks.contains byte) = true) :
    ∀ byte ∈ text, byte ∉ marks := by
  intro byte member outside
  have clean := List.all_eq_true.1 all byte member
  rw [List.contains_iff_mem.2 outside] at clean
  cases clean

/-- All components, with a literal for the host. -/
def everyPart : UriParts where
  schema := asciiBytes "https"
  userinfo := some
    { user := asciiBytes "user"
      password := some (asciiBytes "pass")
      user_nonempty := by decide
      user_clean := clean_of_all (by decide)
      password_clean := fun _ same => Option.some.inj same ▸ clean_of_all (by decide) }
  host := .literal (asciiBytes "::1") (clean_of_all (by decide))
  port := some ⟨asciiBytes "8080", by decide, by simp [asciiBytes, Digit], by decide, by decide⟩
  path := asciiBytes "/a"
  query := some (asciiBytes "b")
  fragment := some (asciiBytes "c")
  schema_nonempty := by decide
  schema_clean := by decide
  path_rooted := by decide
  path_clean := by decide
  query_clean := fun _ same => Option.some.inj same ▸ by decide

theorem everyPart_parsed : everyPart.text = asciiBytes "https://user:pass@[::1]:8080/a?b#c" ∧
    Uri.parse everyPart.text =
      { schema := asciiBytes "https", user := asciiBytes "user", password := asciiBytes "pass", host := asciiBytes "::1",
        port := 8080, path := asciiBytes "/a", query := asciiBytes "b", fragment := asciiBytes "c" } := by
  refine ⟨by decide, (uri_grammar everyPart).trans ?_⟩
  decide

end Cassobee.Proofs
