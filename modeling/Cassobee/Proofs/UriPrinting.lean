import Cassobee.Proofs.Uri

/-! `uri::to_string` and back. The printer leaves a default port out, prints an authority only if there is
one and a password only behind a user, and takes the brackets of a host for those of an address: what is
read again is the same as long as none of this makes a difference. -/

namespace Cassobee.Proofs
open Support

/-! ## What `parse` leaves -/

structure AuthorityRead (uri : Uri) : Prop where
  user : ∀ byte ∈ uri.user, byte ∉ [58, 64, 47, 63, 35]
  password : ∀ byte ∈ uri.password, byte ∉ [64, 47, 63, 35]
  host : ∀ byte ∈ uri.host, byte ∉ pathMarks
  literal : 58 ∈ uri.host ∨ uri.host.head? = some 91 → 93 ∉ uri.host
  port : -2 ^ 31 ≤ uri.port ∧ uri.port < 2 ^ 31

/-- The three ways through `parse`. -/
inductive UriRead : Uri → Prop where
  | hierarchical {uri : Uri} (schema : 58 ∉ uri.schema) (authority : AuthorityRead uri)
      (rooted : uri.path = [] ∨ uri.path.head? = some 47) (path : 63 ∉ uri.path ∧ 35 ∉ uri.path) (query : 35 ∉ uri.query) :
      UriRead uri
  | flat {schema path : List UInt8} (plain : 58 ∉ schema) (flat : path.take 2 ≠ [47, 47]) : UriRead { schema, path }
  | bare {path query fragment : List UInt8} (plain : 58 ∉ path ∧ 58 ∉ query ∧ 58 ∉ fragment)
      (cut : 63 ∉ path ∧ 35 ∉ path) (queryCut : 35 ∉ query) : UriRead { path, query, fragment }

theorem atoi_range (text : List UInt8) : -2 ^ 31 ≤ atoi text ∧ atoi text < 2 ^ 31 := by
  rw [atoi]
  split
  · decide
  · generalize max (-2 ^ 63) (min (2 ^ 63 - 1) _) = value
    have low : -(((2 ^ 32 : Nat) : Int) / 2) ≤ value.bmod (2 ^ 32) := Int.le_bmod (by decide)
    have high : value.bmod (2 ^ 32) < (((2 ^ 32 : Nat) : Int) + 1) / 2 := Int.bmod_lt (by decide)
    omega

theorem marked_cut (text : List UInt8) (mark : UInt8) :
    ∃ before rest, text = before ++ marked mark rest ∧ mark ∉ before := by
  obtain absent | ⟨before, after, same, clean⟩ := cut_byte text mark
  · exact ⟨text, none, by simp [marked], absent⟩
  · exact ⟨before, some after, same, clean⟩

theorem remaining_cut (text : List UInt8) :
    ∃ path query fragment, text = path ++ marked 63 query ++ marked 35 fragment ∧ 63 ∉ path ∧ 35 ∉ path ∧
      ∀ text ∈ query, 35 ∉ text := by
  obtain ⟨before, fragment, same, clean⟩ := marked_cut text 35
  obtain ⟨path, query, rfl, clean'⟩ := marked_cut before 63
  rw [List.mem_append, not_or] at clean
  refine ⟨path, query, fragment, same, clean', clean.1, ?_⟩
  rintro text rfl
  exact fun member => clean.2 (List.mem_cons_of_mem _ member)

theorem parseHostport_read (uri : Uri) (noHost : uri.host = []) (noPort : uri.port = 0) (hostport : List UInt8) :
    ∃ host port, uri.parseHostport hostport = { uri with host, port } ∧ host.Sublist hostport ∧
      (58 ∈ host ∨ host.head? = some 91 → 93 ∉ host) ∧ -2 ^ 31 ≤ port ∧ port < 2 ^ 31 := by
  have range : ∀ text : Option (List UInt8), -2 ^ 31 ≤ (text.map atoi).getD uri.port ∧ (text.map atoi).getD uri.port < 2 ^ 31 := by
    intro text
    cases text with
    | none => simp [noPort]
    | some text => exact atoi_range text
  by_cases bracket : hostport.head? = some 91
  · obtain ⟨text, rfl⟩ := List.head?_eq_some_iff.1 bracket
    obtain absent | ⟨literal, tail, rfl, clean⟩ := cut_byte text 93
    · exact ⟨uri.host, uri.port, parseHostport_open absent, by simp [noHost], by simp [noHost], range none⟩
    · obtain ⟨junk, port, rfl, plain⟩ := marked_cut tail 58
      refine ⟨literal, _, parseHostport_literal clean plain port, ?_, fun _ => clean, range port⟩
      exact (List.sublist_append_left literal _).trans (List.sublist_cons_self _ _)
  · obtain ⟨name, port, rfl, clean⟩ := marked_cut hostport 58
    have plain : name.head? ≠ some 91 := by
      intro first
      obtain ⟨rest, rfl⟩ := List.head?_eq_some_iff.1 first
      simp at bracket
    refine ⟨name, _, parseHostport_name clean plain port, List.sublist_append_left _ _, ?_, range port⟩
    rintro (colon | first)
    · exact absurd colon clean
    · exact absurd first plain

theorem getD_subset_marked (mark : UInt8) (text : Option (List UInt8)) : text.getD [] ⊆ marked mark text := by
  cases text with
  | none => simp
  | some text => exact List.subset_cons_self mark text

theorem parseAuthority_read {authority : List UInt8} (clean : ∀ byte ∈ authority, byte ∉ pathMarks) (schema : List UInt8) :
    ∃ user password host port, ({ schema } : Uri).parseAuthority authority = { schema, user, password, host, port } ∧
      AuthorityRead { schema, user, password, host, port } := by
  obtain plain | ⟨userinfo, hostport, rfl, plain⟩ := cut_byte authority 64
  · obtain ⟨host, port, read, inside, literal, range⟩ := parseHostport_read { schema } rfl rfl authority
    refine ⟨[], [], host, port, ?_, by simp, by simp, ?_, literal, range⟩
    · rw [parseAuthority_plain plain, read]
    · exact fun byte member => clean byte (inside.subset member)
  · obtain ⟨user, password, rfl, colon⟩ := marked_cut userinfo 58
    have named : Uri.parseUserinfo { schema } (user ++ marked 58 password) = { schema, user, password := password.getD [] } :=
      parseUserinfo_marked colon password
    obtain ⟨host, port, read, inside, literal, range⟩ :=
      parseHostport_read { schema, user, password := password.getD [] } rfl rfl hostport
    have inPassword := getD_subset_marked 58 password
    refine ⟨user, password.getD [], host, port, ?_, ?_, ?_, ?_, literal, range⟩
    · rw [parseAuthority_user plain, named, read]
    · intro byte member outside
      obtain rfl | outside := List.mem_cons.1 outside
      · exact colon member
      obtain rfl | outside := List.mem_cons.1 outside
      · exact plain (List.mem_append_left _ member)
      exact clean byte (by simp [member]) outside
    · intro byte member outside
      obtain rfl | outside := List.mem_cons.1 outside
      · exact plain (List.mem_append_right _ (inPassword member))
      exact clean byte (by simp [inPassword member]) outside
    · exact fun byte member => clean byte (by simp [inside.subset member])

theorem slashes_cut {text : List UInt8} (slashes : text.take 2 = [47, 47]) : ∃ rest, text = 47 :: 47 :: rest := by
  refine ⟨text.drop 2, ?_⟩
  conv_lhs => rw [← List.take_append_drop 2 text, slashes]
  rfl

/-- An authority ends at the first of its delimiters. -/
theorem authority_cut (rest : List UInt8) :
    ∃ authority remaining, rest = authority ++ remaining ∧ (∀ byte ∈ authority, byte ∉ pathMarks) ∧
      ∀ byte ∈ remaining.head?, byte ∈ pathMarks := by
  obtain clean | ⟨authority, byte, after, same, clean, mark⟩ := cut_first (fun byte => decide (byte ∈ pathMarks)) rest
  · exact ⟨rest, [], by simp, by simpa using clean, by simp⟩
  · exact ⟨authority, byte :: after, same, by simpa using clean, by simpa using mark⟩

/-- What is left of the path begins where the authority has ended. -/
theorem path_rooted {path : List UInt8} {query fragment : Option (List UInt8)} (noQuery : 63 ∉ path) (noFragment : 35 ∉ path)
    (ends : ∀ byte ∈ (path ++ marked 63 query ++ marked 35 fragment).head?, byte ∈ pathMarks) :
    path = [] ∨ path.head? = some 47 := by
  cases path with
  | nil => exact .inl rfl
  | cons byte path =>
    have mark := ends byte rfl
    simp only [pathMarks, List.mem_cons, List.not_mem_nil, or_false] at mark
    obtain rfl | rfl | rfl := mark
    · exact .inr rfl
    · simp at noQuery
    · simp at noFragment

theorem parse_read (text : List UInt8) : UriRead (Uri.parse text) := by
  obtain plain | ⟨schema, rest, rfl, plain⟩ := cut_byte text 58
  · obtain ⟨path, query, fragment, rfl, noQuery, noFragment, clean⟩ := remaining_cut text
    have inQuery := getD_subset_marked 63 query
    have inFragment := getD_subset_marked 35 fragment
    rw [parse_bare plain, parseRemaining_marked noQuery noFragment clean]
    simp only [List.mem_append, not_or] at plain
    apply UriRead.bare
    · exact ⟨plain.1.1, fun member => plain.1.2 (inQuery member), fun member => plain.2 (inFragment member)⟩
    · exact ⟨noQuery, noFragment⟩
    · cases query with
      | none => simp
      | some query => exact clean query rfl
  · by_cases flat : rest.take 2 = [47, 47]
    · obtain ⟨rest, rfl⟩ := slashes_cut flat
      obtain ⟨authority, remaining, rfl, clean, ends⟩ := authority_cut rest
      obtain ⟨user, password, host, port, read, facts⟩ := parseAuthority_read clean schema
      obtain ⟨path, query, fragment, rfl, noQuery, noFragment, clean'⟩ := remaining_cut remaining
      rw [parse_hierarchical plain clean ends, read, parseRemaining_marked noQuery noFragment clean']
      apply UriRead.hierarchical
      · exact plain
      · exact ⟨facts.user, facts.password, facts.host, facts.literal, facts.port⟩
      · exact path_rooted noQuery noFragment ends
      · exact ⟨noQuery, noFragment⟩
      · cases query with
        | none => simp
        | some query => exact clean' query rfl
    · rw [parse_flat plain flat]
      exact .flat plain flat

/-! ## What `to_string` writes -/

def unlessEmpty (text : List UInt8) : Option (List UInt8) := if text = [] then none else some text

theorem getD_unlessEmpty (text : List UInt8) : (unlessEmpty text).getD [] = text := by
  by_cases empty : text = [] <;> simp [unlessEmpty, empty]

theorem marked_unlessEmpty (mark : UInt8) (text : List UInt8) :
    marked mark (unlessEmpty text) = if text = [] then [] else mark :: text := by
  by_cases empty : text = [] <;> simp [unlessEmpty, empty, marked]

theorem unlessEmpty_clean {text : List UInt8} {mark : UInt8} (clean : mark ∉ text) : ∀ part ∈ unlessEmpty text, mark ∉ part := by
  intro part found
  rw [unlessEmpty] at found
  split at found
  · cases found
  · cases found
    exact clean

def printedPort (uri : Uri) : Option (List UInt8) := if uri.isDefaultPort then none else some (Uri.portText uri.port)

def userText (uri : Uri) : List UInt8 :=
  if uri.user = [] then [] else uri.user ++ marked 58 (unlessEmpty uri.password) ++ [64]

def hostText (uri : Uri) : List UInt8 := if 58 ∈ uri.host then 91 :: (uri.host ++ [93]) else uri.host

def authorityText (uri : Uri) : List UInt8 := userText uri ++ (hostText uri ++ marked 58 (printedPort uri))

def remainingText (uri : Uri) : List UInt8 :=
  uri.path ++ marked 63 (unlessEmpty uri.query) ++ marked 35 (unlessEmpty uri.fragment)

/-- The test before `//`. -/
def HasAuthority (uri : Uri) : Prop := uri.host ≠ [] ∨ uri.port > 0 ∨ uri.user ≠ []

instance (uri : Uri) : Decidable (HasAuthority uri) := inferInstanceAs (Decidable (_ ∨ _))

def schemaText (uri : Uri) : List UInt8 :=
  if uri.schema = [] then [] else uri.schema ++ 58 :: if HasAuthority uri then [47, 47] else []

/-- No slash is added to a path that was read. -/
theorem toString_eq {uri : Uri} (rooted : uri.host = [] ∨ uri.path = [] ∨ uri.path.head? = some 47) :
    uri.toString = schemaText uri ++ (authorityText uri ++ remainingText uri) := by
  have noSlash (result : List UInt8) : (if uri.path = [] then [] else
      (if result ≠ [] ∧ uri.path.head? ≠ some 47 ∧ uri.host ≠ [] then [47] else []) ++ uri.path) = uri.path := by
    by_cases empty : uri.path = []
    · simp [empty]
    · have rooted' : ¬ (result ≠ [] ∧ uri.path.head? ≠ some 47 ∧ uri.host ≠ []) := by
        simp only [empty, false_or] at rooted
        tauto
      rw [if_neg empty, if_neg rooted', List.nil_append]
  have host : (if uri.host = [] then [] else if 58 ∈ uri.host then [91] ++ uri.host ++ [93] else uri.host) = hostText uri := by
    by_cases empty : uri.host = [] <;> simp [empty, hostText]
  have port : (if uri.isDefaultPort then [] else 58 :: Uri.portText uri.port) = marked 58 (printedPort uri) := by
    by_cases default : uri.isDefaultPort <;> simp [default, printedPort, marked]
  rw [Uri.toString]
  simp only [noSlash, host, port, ← marked_unlessEmpty]
  simp only [schemaText, authorityText, userText, remainingText, HasAuthority, List.append_assoc, List.cons_append,
    List.nil_append]
  rfl

/-- A default port is read back as none. -/
def withoutDefaultPort (uri : Uri) : Uri := if uri.isDefaultPort then { uri with port := 0 } else uri

/-- Nothing is mistaken for something else on the way back. -/
def Faithful (uri : Uri) : Prop :=
  if uri.schema = [] then
    uri.user = [] ∧ uri.password = [] ∧ uri.host = [] ∧ uri.port = 0 ∧
      (58 ∉ uri.path ∧ 58 ∉ uri.query ∧ 58 ∉ uri.fragment) ∧ 63 ∉ uri.path ∧ 35 ∉ uri.path
  else if HasAuthority uri then
    (uri.user = [] → uri.password = [] ∧ 64 ∉ uri.host) ∧ (uri.host.head? = some 91 → 58 ∈ uri.host)
  else
    uri.password = [] ∧ uri.port = 0 ∧ uri.query = [] ∧ uri.fragment = [] ∧ uri.path.take 2 ≠ [47, 47]

/-! ## Ports -/

theorem atoi_portText {port : Int} (range : -2 ^ 31 ≤ port ∧ port < 2 ^ 31) : atoi (Uri.portText port) = port := by
  have ends : ∀ byte ∈ ([] : List UInt8).head?, ¬ Digit byte := by simp
  have value := digitsValue_decimal port.natAbs
  rw [Uri.portText]
  by_cases negative : port < 0
  · have scanned := scanNumber_minus (decimal_ne_nil port.natAbs) decimal_digits ends
    have same : (if true then -(port.natAbs : Int) else port.natAbs) = port := by
      rw [if_pos rfl]
      omega
    rw [List.append_nil, value] at scanned
    rw [if_pos negative, atoi_of_scan scanned (by rw [same]; exact range.1) (by rw [same]; exact range.2), same]
  · have scanned := scanNumber_digits (decimal_ne_nil port.natAbs) decimal_digits ends
    have same : (if false then -(port.natAbs : Int) else port.natAbs) = port := by
      rw [if_neg (by decide)]
      omega
    rw [List.append_nil, value] at scanned
    rw [if_neg negative, atoi_of_scan scanned (by rw [same]; exact range.1) (by rw [same]; exact range.2), same]

theorem portText_unmarked (port : Int) : ∀ byte ∈ Uri.portText port, byte ∉ [91, 93, 64, 58, 47, 63, 35] := by
  intro byte member
  rw [Uri.portText] at member
  split at member
  · obtain rfl | member := List.mem_cons.1 member
    · decide
    · exact digit_unmarked (decimal_digits byte member)
  · exact digit_unmarked (decimal_digits byte member)

theorem printedPort_value {uri : Uri} (range : -2 ^ 31 ≤ uri.port ∧ uri.port < 2 ^ 31) :
    ((printedPort uri).map atoi).getD 0 = (withoutDefaultPort uri).port := by
  by_cases default : uri.isDefaultPort
  · simp [printedPort, withoutDefaultPort, default]
  · simp [printedPort, withoutDefaultPort, default, atoi_portText range]

theorem withoutDefaultPort_of_zero {uri : Uri} (noPort : uri.port = 0) : withoutDefaultPort uri = uri := by
  cases uri
  cases noPort
  rfl

/-! ## Without a schema -/

theorem parse_remainingText {uri : Uri} (plain : 58 ∉ remainingText uri) (path : 63 ∉ uri.path ∧ 35 ∉ uri.path)
    (query : 35 ∉ uri.query) :
    Uri.parse (remainingText uri) = { path := uri.path, query := uri.query, fragment := uri.fragment } := by
  rw [parse_bare plain, remainingText, parseRemaining_marked path.1 path.2 (unlessEmpty_clean query), getD_unlessEmpty,
    getD_unlessEmpty]

theorem remainingText_plain {uri : Uri} :
    58 ∉ remainingText uri ↔ 58 ∉ uri.path ∧ 58 ∉ uri.query ∧ 58 ∉ uri.fragment := by
  have query : 58 ∉ marked 63 (unlessEmpty uri.query) ↔ 58 ∉ uri.query := by
    by_cases empty : uri.query = [] <;> simp [unlessEmpty, empty, marked]
  have fragment : 58 ∉ marked 35 (unlessEmpty uri.fragment) ↔ 58 ∉ uri.fragment := by
    by_cases empty : uri.fragment = [] <;> simp [unlessEmpty, empty, marked]
  rw [remainingText, List.mem_append, List.mem_append, not_or, not_or, query, fragment, and_assoc]

theorem bare_printing {path query fragment : List UInt8} (plain : 58 ∉ path ∧ 58 ∉ query ∧ 58 ∉ fragment)
    (cut : 63 ∉ path ∧ 35 ∉ path) (queryCut : 35 ∉ query) :
    Uri.parse (Uri.toString { path, query, fragment }) = withoutDefaultPort { path, query, fragment } ↔
      Faithful { path, query, fragment } := by
  have colon : 58 ∉ remainingText { path, query, fragment } := remainingText_plain.2 plain
  have printed : Uri.toString { path, query, fragment } = remainingText { path, query, fragment } := toString_eq (.inl rfl)
  apply iff_of_true
  · rw [printed, parse_remainingText colon cut queryCut]
    rfl
  · exact ⟨rfl, rfl, rfl, rfl, plain, cut⟩

/-- With a delimiter in it a text is longer than its path. -/
theorem parse_path_shorter {text : List UInt8} (delimited : 58 ∈ text ∨ 63 ∈ text ∨ 35 ∈ text) :
    (Uri.parse text).path.length < text.length := by
  obtain plain | ⟨schema, rest, rfl, plain⟩ := cut_byte text 58
  · obtain ⟨path, query, fragment, rfl, noQuery, noFragment, clean⟩ := remaining_cut text
    rw [parse_bare plain, parseRemaining_marked noQuery noFragment clean]
    simp only [plain, false_or] at delimited
    cases query with
    | some query => simp [marked]
    | none => cases fragment with
      | some fragment => simp [marked]
      | none => simp [marked, noQuery, noFragment] at delimited
  · by_cases flat : rest.take 2 = [47, 47]
    · obtain ⟨rest, rfl⟩ := slashes_cut flat
      obtain ⟨authority, remaining, rfl, clean, ends⟩ := authority_cut rest
      obtain ⟨path, query, fragment, rfl, noQuery, noFragment, clean'⟩ := remaining_cut remaining
      rw [parse_hierarchical plain clean ends, parseRemaining_marked noQuery noFragment clean']
      simp
      omega
    · rw [parse_flat plain flat]
      simp
      omega

theorem flat_printing {schema path : List UInt8} (plain : 58 ∉ schema) (flat : path.take 2 ≠ [47, 47]) :
    Uri.parse (Uri.toString { schema, path }) = withoutDefaultPort { schema, path } ↔ Faithful { schema, path } := by
  have same : withoutDefaultPort { schema, path } = { schema, path } := withoutDefaultPort_of_zero rfl
  have printed : Uri.toString { schema, path } = schemaText { schema, path } ++ path := by
    rw [toString_eq (.inl rfl)]
    simp [authorityText, userText, hostText, remainingText, printedPort, Uri.isDefaultPort, marked, unlessEmpty]
  rw [printed, same]
  by_cases unnamed : schema = []
  · subst unnamed
    by_cases delimited : 58 ∈ path ∨ 63 ∈ path ∨ 35 ∈ path
    · apply iff_of_false
      · intro back
        have shorter := parse_path_shorter delimited
        rw [show schemaText { schema := [], path } ++ path = path from rfl] at back
        rw [back] at shorter
        exact Nat.lt_irrefl _ shorter
      · rintro ⟨-, -, -, -, colon, cut⟩
        simp only at colon cut
        tauto
    · simp only [not_or] at delimited
      apply iff_of_true
      · have noQuery : ∀ text ∈ (none : Option (List UInt8)), 35 ∉ text := by simp
        rw [show schemaText { schema := [], path } ++ path = path from rfl, parse_bare delimited.1]
        simpa [marked] using parseRemaining_marked delimited.2.1 delimited.2.2 noQuery none
      · exact ⟨rfl, rfl, rfl, rfl, ⟨delimited.1, by simp, by simp⟩, delimited.2⟩
  · have bare : ¬ HasAuthority { schema, path } := by simp [HasAuthority]
    apply iff_of_true
    · rw [schemaText, if_neg unnamed, if_neg bare, List.append_assoc, List.cons_append, List.nil_append, parse_flat plain flat]
    · rw [Faithful, if_neg unnamed, if_neg bare]
      exact ⟨rfl, rfl, rfl, rfl, flat⟩

theorem parseRemaining_keeps (uri : Uri) (text : List UInt8) :
    ∃ path query fragment, uri.parseRemaining text = { uri with path, query, fragment } := by
  obtain ⟨path, query, fragment, rfl, noQuery, noFragment, clean⟩ := remaining_cut text
  exact ⟨_, _, _, parseRemaining_marked noQuery noFragment clean fragment⟩

theorem parse_schema {schema : List UInt8} (plain : 58 ∉ schema) (rest : List UInt8) :
    (Uri.parse (schema ++ 58 :: rest)).schema = schema := by
  by_cases flat : rest.take 2 = [47, 47]
  · obtain ⟨rest, rfl⟩ := slashes_cut flat
    obtain ⟨authority, remaining, rfl, clean, ends⟩ := authority_cut rest
    obtain ⟨user, password, host, port, read, -⟩ := parseAuthority_read clean schema
    obtain ⟨path, query, fragment, kept⟩ := parseRemaining_keeps { schema, user, password, host, port } remaining
    rw [parse_hierarchical plain clean ends, read, kept]
  · rw [parse_flat plain flat]

theorem isDefaultPort_unnamed {uri : Uri} (unnamed : uri.schema = []) (default : uri.isDefaultPort) : uri.port = 0 := by
  by_contra other
  have http : ¬ (uri.schema = asciiBytes "http" ∨ uri.schema = asciiBytes "ws") := by
    rw [unnamed]
    decide
  have https : ¬ (uri.schema = asciiBytes "https" ∨ uri.schema = asciiBytes "wss") := by
    rw [unnamed]
    decide
  simp [Uri.isDefaultPort, other, http, https] at default

/-- The first byte of what is printed is a colon only before a port. -/
theorem printed_colon {uri : Uri} (facts : AuthorityRead uri) (rooted : uri.path = [] ∨ uri.path.head? = some 47)
    (colon : (authorityText uri ++ remainingText uri).head? = some 58) :
    uri.isDefaultPort = false ∧ authorityText uri = 58 :: Uri.portText uri.port := by
  have noUser : uri.user = [] := by
    by_contra named
    obtain ⟨byte, rest, same⟩ := List.exists_cons_of_ne_nil named
    have first : byte = 58 := by simpa [authorityText, userText, same] using colon
    exact facts.user byte (by simp [same]) (by simp [first])
  have noHost : uri.host = [] := by
    by_contra named
    obtain ⟨byte, rest, same⟩ := List.exists_cons_of_ne_nil named
    by_cases literal : 58 ∈ uri.host
    · simp [authorityText, userText, noUser, hostText, literal] at colon
    · rw [authorityText, userText, if_pos noUser, hostText, if_neg literal, same] at colon
      have first : byte = 58 := by simpa using colon
      exact literal (by simp [same, first])
  by_cases default : uri.isDefaultPort
  · have first : (remainingText uri).head? = some 58 := by
      simpa [authorityText, userText, noUser, hostText, noHost, printedPort, default, marked] using colon
    have mark := remaining_head rooted (unlessEmpty uri.query) (unlessEmpty uri.fragment) 58 first
    exact absurd mark (by decide)
  · exact ⟨by simpa using default, by simp [authorityText, userText, noUser, hostText, noHost, printedPort, default, marked]⟩

theorem portText_head (port : Int) (rest : List UInt8) : (Uri.portText port ++ rest).take 2 ≠ [47, 47] := by
  have slash := portText_unmarked port 47
  cases same : Uri.portText port with
  | nil =>
    rw [Uri.portText] at same
    split at same
    · cases same
    · exact absurd same (decimal_ne_nil _)
  | cons byte text =>
    rw [same] at slash
    intro slashes
    have first : byte = 47 := by
      rw [List.cons_append, List.take_succ_cons] at slashes
      exact (List.cons.inj slashes).1
    exact slash (by simp [first]) (by decide)

theorem unnamed_printing {uri : Uri} (unnamed : uri.schema = []) (facts : AuthorityRead uri)
    (rooted : uri.path = [] ∨ uri.path.head? = some 47) (path : 63 ∉ uri.path ∧ 35 ∉ uri.path) (query : 35 ∉ uri.query) :
    Uri.parse uri.toString = withoutDefaultPort uri ↔ Faithful uri := by
  have printed : uri.toString = authorityText uri ++ remainingText uri := by
    rw [toString_eq (.inr rooted), schemaText, if_pos unnamed, List.nil_append]
  rw [printed, Faithful, if_pos unnamed]
  constructor
  · intro back
    have schema : (withoutDefaultPort uri).schema = [] := by
      rw [withoutDefaultPort]
      split <;> exact unnamed
    obtain plain | ⟨before, rest, same, plain⟩ := cut_byte (authorityText uri ++ remainingText uri) 58
    · rw [parse_bare plain] at back
      obtain ⟨path', query', fragment', kept⟩ := parseRemaining_keeps {} (authorityText uri ++ remainingText uri)
      rw [kept] at back
      have port : uri.port = 0 := by
        by_cases default : uri.isDefaultPort
        · exact isDefaultPort_unnamed unnamed default
        · rw [withoutDefaultPort, if_neg default] at back
          exact (congrArg Uri.port back).symm
      rw [withoutDefaultPort_of_zero port] at back
      have colon : 58 ∉ remainingText uri := fun member => plain (List.mem_append_right _ member)
      exact ⟨(congrArg Uri.user back).symm, (congrArg Uri.password back).symm, (congrArg Uri.host back).symm, port,
        remainingText_plain.1 colon, path⟩
    · -- a colon would end a schema, so it is the first byte, and it stands before a port
      have empty := parse_schema plain rest
      rw [← same, back, schema] at empty
      subst empty
      obtain ⟨other, start⟩ := printed_colon facts rooted (by rw [same]; rfl)
      have after : rest = Uri.portText uri.port ++ remainingText uri := by
        rw [start] at same
        exact (List.cons.inj same).2.symm
      have lost := parse_flat plain (portText_head uri.port (remainingText uri))
      rw [← after, ← same, back, withoutDefaultPort, if_neg (by simp [other])] at lost
      have noPort : uri.port = 0 := congrArg Uri.port lost
      simp [Uri.isDefaultPort, noPort] at other
  · rintro ⟨noUser, noPassword, noHost, noPort, colon, -⟩
    have nothing : authorityText uri = [] := by
      simp [authorityText, userText, noUser, hostText, noHost, printedPort, Uri.isDefaultPort, noPort, marked]
    rw [nothing, List.nil_append, parse_remainingText (remainingText_plain.2 colon) path query,
      withoutDefaultPort_of_zero noPort]
    cases uri
    simp_all

/-! ## Without an authority -/

theorem remainingText_nothing {uri : Uri} (noQuery : uri.query = []) (noFragment : uri.fragment = []) :
    remainingText uri = uri.path := by
  simp [remainingText, unlessEmpty, noQuery, noFragment, marked]

/-- Two slashes at the beginning can only come from the path. -/
theorem path_slashes {uri : Uri} (slashes : (remainingText uri).take 2 = [47, 47]) :
    ∃ rest, uri.path = 47 :: 47 :: rest := by
  have marks (query fragment : Option (List UInt8)) : (marked 63 query ++ marked 35 fragment).head? ≠ some 47 := by
    cases query <;> cases fragment <;> simp [marked]
  obtain ⟨rest, same⟩ := slashes_cut slashes
  rw [remainingText, List.append_assoc] at same
  cases found : uri.path with
  | nil =>
    rw [found, List.nil_append] at same
    exact absurd (congrArg List.head? same) (marks _ _)
  | cons slash path =>
    rw [found, List.cons_append] at same
    obtain ⟨rfl, tail⟩ := List.cons.inj same
    cases path with
    | nil => exact absurd (congrArg List.head? tail) (marks _ _)
    | cons slash path => exact ⟨path, by rw [(List.cons.inj tail).1]⟩

/-- What would be an authority is cut off the path. -/
theorem slashes_lost {uri : Uri} (plain : 58 ∉ uri.schema) (path : 63 ∉ uri.path ∧ 35 ∉ uri.path) (query : 35 ∉ uri.query)
    {rest : List UInt8} (slashes : uri.path = 47 :: 47 :: rest) :
    (Uri.parse (uri.schema ++ 58 :: remainingText uri)).path.length < uri.path.length := by
  obtain ⟨authority, path', rfl, clean, ends⟩ := authority_cut rest
  have inside : path' ⊆ uri.path := by
    rw [slashes]
    intro byte member
    simp [member]
  have noQuery : 63 ∉ path' := fun member => path.1 (inside member)
  have noFragment : 35 ∉ path' := fun member => path.2 (inside member)
  have ends' : ∀ byte ∈ (path' ++ marked 63 none ++ marked 35 none).head?, byte ∈ pathMarks := by
    simpa [marked] using ends
  have rooted := path_rooted noQuery noFragment ends'
  have text : remainingText uri = 47 :: 47 :: (authority ++ (path' ++ marked 63 (unlessEmpty uri.query) ++
      marked 35 (unlessEmpty uri.fragment))) := by
    simp [remainingText, slashes]
  rw [text, parse_hierarchical plain clean (remaining_head rooted _ _), parseRemaining_marked noQuery noFragment (unlessEmpty_clean query),
    slashes]
  simp
  omega

theorem isDefaultPort_negative {uri : Uri} (negative : uri.port < 0) : uri.isDefaultPort = false := by
  have zero : uri.port ≠ 0 := by omega
  have http : uri.port ≠ 8080 := by omega
  have https : uri.port ≠ 443 := by omega
  simp [Uri.isDefaultPort, zero, http, https]

theorem withoutAuthority_printing {uri : Uri} (named : uri.schema ≠ []) (plain : 58 ∉ uri.schema) (bare : ¬ HasAuthority uri)
    (path : 63 ∉ uri.path ∧ 35 ∉ uri.path) (query : 35 ∉ uri.query) :
    Uri.parse uri.toString = withoutDefaultPort uri ↔ Faithful uri := by
  obtain ⟨noHost, noPort, noUser⟩ : uri.host = [] ∧ uri.port ≤ 0 ∧ uri.user = [] := by
    simpa [HasAuthority, not_or] using bare
  have printed : uri.toString = uri.schema ++ 58 :: (marked 58 (printedPort uri) ++ remainingText uri) := by
    rw [toString_eq (.inl noHost), schemaText, if_neg named, if_neg bare]
    simp [authorityText, userText, noUser, hostText, noHost]
  rw [printed, Faithful, if_neg named, if_neg bare]
  by_cases zero : uri.port = 0
  · have unprinted : printedPort uri = none := by simp [printedPort, Uri.isDefaultPort, zero]
    rw [withoutDefaultPort_of_zero zero, unprinted, marked, List.nil_append]
    by_cases slashes : (remainingText uri).take 2 = [47, 47]
    · apply iff_of_false
      · intro back
        obtain ⟨rest, same⟩ := path_slashes slashes
        have shorter := slashes_lost plain path query same
        rw [back] at shorter
        exact Nat.lt_irrefl _ shorter
      · rintro ⟨-, -, noQuery, noFragment, flat⟩
        rw [remainingText_nothing noQuery noFragment] at slashes
        exact flat slashes
    · rw [parse_flat plain slashes]
      constructor
      · intro back
        have noQuery : uri.query = [] := (congrArg Uri.query back).symm
        have noFragment : uri.fragment = [] := (congrArg Uri.fragment back).symm
        rw [remainingText_nothing noQuery noFragment] at slashes
        exact ⟨(congrArg Uri.password back).symm, zero, noQuery, noFragment, slashes⟩
      · rintro ⟨noPassword, -, noQuery, noFragment, -⟩
        rw [remainingText_nothing noQuery noFragment]
        cases uri
        simp_all
  · have other : uri.isDefaultPort = false := isDefaultPort_negative (by omega)
    have flat : (marked 58 (printedPort uri) ++ remainingText uri).take 2 ≠ [47, 47] := by
      simp [printedPort, other, marked]
    apply iff_of_false
    · intro back
      rw [parse_flat plain flat, withoutDefaultPort, if_neg (by simp [other])] at back
      exact zero (congrArg Uri.port back).symm
    · rintro ⟨-, zero', -⟩
      exact zero zero'

/-! ## With an authority -/

theorem printedPort_unmarked {uri : Uri} : ∀ byte ∈ marked 58 (printedPort uri), byte ∉ [91, 93, 64, 47, 63, 35] := by
  intro byte member outside
  rw [printedPort] at member
  split at member
  · simp [marked] at member
  · obtain rfl | inside := List.mem_cons.1 member
    · exact absurd outside (by decide)
    · have marks : ([91, 93, 64, 47, 63, 35] : List UInt8) ⊆ [91, 93, 64, 58, 47, 63, 35] := by decide
      exact portText_unmarked uri.port byte inside (marks outside)

theorem hostText_unmarked {uri : Uri} (facts : AuthorityRead uri) : ∀ byte ∈ hostText uri, byte ∉ pathMarks := by
  intro byte member outside
  rw [hostText] at member
  split at member
  · simp only [List.mem_cons, List.mem_append, List.not_mem_nil, or_false] at member
    obtain rfl | inside | rfl := member
    · exact absurd outside (by decide)
    · exact facts.host byte inside outside
    · exact absurd outside (by decide)
  · exact facts.host byte member outside

theorem userText_unmarked {uri : Uri} (facts : AuthorityRead uri) : ∀ byte ∈ userText uri, byte ∉ pathMarks := by
  have marks : pathMarks ⊆ [58, 64, 47, 63, 35] := by decide
  have marks' : pathMarks ⊆ [64, 47, 63, 35] := by decide
  intro byte member outside
  rw [userText, marked_unlessEmpty] at member
  split at member
  · simp at member
  · split at member
    · simp only [List.append_nil, List.mem_append, List.mem_singleton] at member
      obtain inside | rfl := member
      · exact facts.user byte inside (marks outside)
      · exact absurd outside (by decide)
    · simp only [List.mem_append, List.mem_cons, List.not_mem_nil, or_false] at member
      obtain (inside | rfl | inside) | rfl := member
      · exact facts.user byte inside (marks outside)
      · exact absurd outside (by decide)
      · exact facts.password byte inside (marks' outside)
      · exact absurd outside (by decide)

theorem authorityText_unmarked {uri : Uri} (facts : AuthorityRead uri) : ∀ byte ∈ authorityText uri, byte ∉ pathMarks := by
  have marks : pathMarks ⊆ [91, 93, 64, 47, 63, 35] := by decide
  intro byte member outside
  obtain inside | inside := List.mem_append.1 member
  · exact userText_unmarked facts byte inside outside
  · obtain inside | inside := List.mem_append.1 inside
    · exact hostText_unmarked facts byte inside outside
    · exact printedPort_unmarked byte inside (marks outside)

/-- A host in brackets is an address, and only then they are printed. -/
theorem hostport_printing {uri : Uri} (base : Uri) (facts : AuthorityRead uri) (noHost : base.host = []) (noPort : base.port = 0) :
    base.parseHostport (hostText uri ++ marked 58 (printedPort uri)) =
        { base with host := uri.host, port := (withoutDefaultPort uri).port } ↔
      (uri.host.head? = some 91 → 58 ∈ uri.host) := by
  have port := printedPort_value facts.port
  by_cases literal : 58 ∈ uri.host
  · have plain : 58 ∉ ([] : List UInt8) := by simp
    apply iff_of_true
    · rw [hostText, if_pos literal, ← port, ← noPort, ← parseHostport_literal (facts.literal (.inl literal)) plain]
      simp
    · exact fun _ => literal
  · by_cases bracket : uri.host.head? = some 91
    · -- there is no closing bracket, so no host is read
      obtain ⟨rest, same⟩ := List.head?_eq_some_iff.1 bracket
      have unclosed : 93 ∉ rest ++ marked 58 (printedPort uri) := by
        intro member
        obtain inside | inside := List.mem_append.1 member
        · exact facts.literal (.inr bracket) (by simp [same, inside])
        · exact printedPort_unmarked 93 inside (by decide)
      apply iff_of_false
      · intro back
        rw [hostText, if_neg literal, same, List.cons_append, parseHostport_open unclosed] at back
        have host := congrArg Uri.host back
        rw [noHost] at host
        cases host
      · exact fun address => literal (address bracket)
    · apply iff_of_true
      · rw [hostText, if_neg literal, parseHostport_name literal bracket, noPort, port]
      · exact fun bracket' => absurd bracket' bracket

theorem parseUserinfo_keeps (uri : Uri) (userinfo : List UInt8) :
    (uri.parseUserinfo userinfo).host = uri.host ∧ (uri.parseUserinfo userinfo).port = uri.port := by
  obtain ⟨user, password, rfl, colon⟩ := marked_cut userinfo 58
  rw [parseUserinfo_marked colon]
  exact ⟨rfl, rfl⟩

theorem hostText_count (uri : Uri) : (hostText uri ++ marked 58 (printedPort uri)).count 64 = uri.host.count 64 := by
  have port : (marked 58 (printedPort uri)).count 64 = 0 :=
    List.count_eq_zero.2 fun member => printedPort_unmarked 64 member (by decide)
  have host : (hostText uri).count 64 = uri.host.count 64 := by
    rw [hostText]
    split
    · simp
    · rfl
  rw [List.count_append, port, host, Nat.add_zero]

/-- What stands before an `@` of the host would be taken for a user. -/
theorem userless_lost {uri : Uri} {schema : List UInt8} (taken : 64 ∈ uri.host) :
    (({ schema } : Uri).parseAuthority (hostText uri ++ marked 58 (printedPort uri))).host ≠ uri.host := by
  have total := hostText_count uri
  obtain plain | ⟨userinfo, hostport, same, plain⟩ := cut_byte (hostText uri ++ marked 58 (printedPort uri)) 64
  · rw [List.count_eq_zero.2 plain] at total
    exact absurd taken (List.count_eq_zero.1 total.symm)
  · have kept := parseUserinfo_keeps { schema } userinfo
    obtain ⟨host, port, read, inside, -⟩ := parseHostport_read (Uri.parseUserinfo { schema } userinfo) kept.1 kept.2 hostport
    rw [same] at total ⊢
    rw [parseAuthority_user plain, read]
    rw [List.count_append, List.count_eq_zero.2 plain, List.count_cons_self] at total
    have fewer := inside.count_le 64
    intro host'
    simp only at host'
    rw [host'] at fewer
    omega

theorem authority_printing {uri : Uri} (facts : AuthorityRead uri) (schema : List UInt8) :
    ({ schema } : Uri).parseAuthority (authorityText uri) =
        { schema, user := uri.user, password := uri.password, host := uri.host, port := (withoutDefaultPort uri).port } ↔
      (uri.user = [] → uri.password = [] ∧ 64 ∉ uri.host) ∧ (uri.host.head? = some 91 → 58 ∈ uri.host) := by
  rw [authorityText, userText]
  by_cases noUser : uri.user = []
  · rw [if_pos noUser, List.nil_append, noUser]
    simp only [true_implies]
    by_cases taken : 64 ∈ uri.host
    · apply iff_of_false
      · intro back
        apply userless_lost taken
        rw [back]
      · exact fun faithful => faithful.1.2 taken
    · have plain : 64 ∉ hostText uri ++ marked 58 (printedPort uri) := by
        rw [← List.count_eq_zero, hostText_count]
        exact List.count_eq_zero.2 taken
      have read := hostport_printing { schema } facts rfl rfl
      obtain ⟨host, port, kept, -⟩ := parseHostport_read { schema } rfl rfl (hostText uri ++ marked 58 (printedPort uri))
      rw [parseAuthority_plain plain]
      constructor
      · intro back
        have noPassword : uri.password = [] := by
          have same := congrArg Uri.password (kept.symm.trans back)
          exact same.symm
        rw [noPassword] at back
        exact ⟨⟨noPassword, taken⟩, read.1 back⟩
      · rintro ⟨⟨noPassword, -⟩, address⟩
        rw [noPassword]
        exact read.2 address
  · have colon : 58 ∉ uri.user := fun member => facts.user 58 member (by decide)
    have plain : 64 ∉ uri.user ++ marked 58 (unlessEmpty uri.password) := by
      rw [marked_unlessEmpty]
      intro member
      obtain inside | inside := List.mem_append.1 member
      · exact facts.user 64 inside (by decide)
      · split at inside
        · simp at inside
        · obtain wrong | inside := List.mem_cons.1 inside
          · exact absurd wrong (by decide)
          · exact facts.password 64 inside (by decide)
    rw [if_neg noUser, List.append_assoc, List.singleton_append, parseAuthority_user plain, parseUserinfo_marked colon,
      getD_unlessEmpty, hostport_printing _ facts rfl rfl]
    simp [noUser]

theorem withAuthority_printing {uri : Uri} (named : uri.schema ≠ []) (plain : 58 ∉ uri.schema) (present : HasAuthority uri)
    (facts : AuthorityRead uri) (rooted : uri.path = [] ∨ uri.path.head? = some 47) (path : 63 ∉ uri.path ∧ 35 ∉ uri.path)
    (query : 35 ∉ uri.query) : Uri.parse uri.toString = withoutDefaultPort uri ↔ Faithful uri := by
  have clean := authorityText_unmarked facts
  have same : withoutDefaultPort uri = { uri with port := (withoutDefaultPort uri).port } := by
    rw [withoutDefaultPort]
    split <;> rfl
  have printed : uri.toString = uri.schema ++ 58 :: 47 :: 47 :: (authorityText uri ++ remainingText uri) := by
    rw [toString_eq (.inr rooted), schemaText, if_neg named, if_pos present]
    simp
  obtain ⟨user, password, host, port, read, -⟩ := parseAuthority_read clean uri.schema
  rw [Faithful, if_neg named, if_pos present, ← authority_printing facts uri.schema, printed, remainingText,
    parse_hierarchical plain clean (remaining_head rooted _ _), read,
    parseRemaining_marked path.1 path.2 (unlessEmpty_clean query), getD_unlessEmpty, getD_unlessEmpty, same]
  simp

/-! ## The round trip -/

/-- Except for a default port, a URI is read back as it was, if and only if nothing is mistaken for
something else. -/
theorem uri_printing (text : List UInt8) :
    Uri.parse (Uri.parse text).toString = withoutDefaultPort (Uri.parse text) ↔ Faithful (Uri.parse text) := by
  have read := parse_read text
  generalize Uri.parse text = uri at read
  cases read with
  | hierarchical schema authority rooted path query =>
    by_cases unnamed : uri.schema = []
    · exact unnamed_printing unnamed authority rooted path query
    · by_cases present : HasAuthority uri
      · exact withAuthority_printing unnamed schema present authority rooted path query
      · exact withoutAuthority_printing unnamed schema present path query
  | flat plain flat => exact flat_printing plain flat
  | bare plain cut queryCut => exact bare_printing plain cut queryCut

/-- The port of `http://h:8080/` is left out and read back as none. -/
theorem default_port_lost :
    Uri.parse (Uri.parse (asciiBytes "http://h:8080/")).toString ≠ Uri.parse (asciiBytes "http://h:8080/") := by
  decide

end Cassobee.Proofs
