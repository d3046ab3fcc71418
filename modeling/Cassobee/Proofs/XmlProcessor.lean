import Cassobee.XmlProcessor
import Mathlib.Data.List.Perm.Basic
import Mathlib.Data.List.Nodup

/-! When `progen.py` accepts a directory, and what that says about the ids in it. The order in which the
directory is listed decides what has been declared before a remote call and which id is the last one; it
must not matter, and the last id must be the greatest. -/

namespace Cassobee.Proofs
open XmlProcessor

/-! ## What is accepted -/

/-- The id of an element. -/
def typeText (element : XmlElement) : List String := if element.typed then [element.type.getD ""] else []

def types (elements : List XmlElement) : List String := elements.flatMap typeText

/-- What has to be declared before the element. -/
def uses (element : XmlElement) : List String :=
  match element.tag, element.argument, element.result with
  | .rpc, some (some argument), some (some result) => [argument, result]
  | _, _, _ => []

/-- All that is asked of an element by itself. -/
structure WellFormed (element : XmlElement) : Prop where
  id : element.typed = true → given element.type = true ∧ given element.maxsize = true ∧ element.name ≠ none
  fields : element.fields.all XmlField.complete = true
  call : element.tag = .rpc → ∃ argument result, element.argument = some (some argument) ∧ element.result = some (some result)

/-- Everything is declared before it is used, from these names on. -/
def Declared (names : List (Option String)) : List XmlElement → Prop
  | [] => True
  | element :: elements => (∀ name ∈ uses element, some name ∈ names) ∧ Declared (names ++ [element.name]) elements

structure Accepts (elements : List XmlElement) : Prop where
  wellFormed : ∀ element ∈ elements, WellFormed element
  distinct : (types elements).Nodup
  declared : Declared [] elements

theorem mem_insertKey {α : Type} [DecidableEq α] {keys : List α} {key other : α} :
    other ∈ insertKey keys key ↔ other ∈ keys ∨ other = key := by
  unfold insertKey
  split
  next known => exact ⟨.inl, fun either => either.elim id fun same => same ▸ known⟩
  next => simp

theorem insertKey_new {α : Type} [DecidableEq α] {keys : List α} {key : α} (new : key ∉ keys) :
    insertKey keys key = keys ++ [key] := if_neg new

section Parsing
variable {processor after : XmlProcessor} {element : XmlElement} {names : List (Option String)} {ids : List String}

/-- The processor has seen these names and ids. -/
structure Seen (names : List (Option String)) (ids : List String) (processor : XmlProcessor) : Prop where
  cache : ∀ name, name ∈ processor.protocolCache ↔ name ∈ names
  entries : processor.protocolEnumEntries = ids
  ids : processor.protocolIds = ids

theorem parseFields_ok {value : Unit} : element.parseFields = .ok value ↔ element.fields.all XmlField.complete = true := by
  unfold XmlElement.parseFields
  split
  next complete => exact iff_of_true rfl complete
  next broken => exact iff_of_false (by rintro ⟨⟩) broken

theorem parseRpcInfo_ok {value : Unit} (call : element.tag = .rpc) : processor.parseRpcInfo element = .ok value ↔
    (∃ argument result, element.argument = some (some argument) ∧ element.result = some (some result)) ∧
      ∀ name ∈ uses element, some name ∈ processor.protocolCache := by
  unfold XmlProcessor.parseRpcInfo
  split
  next argument result first second =>
    have used : uses element = [argument, result] := by simp [uses, call, first, second]
    rw [used, first, second]
    split
    next missing =>
      refine iff_of_false (by rintro ⟨⟩) fun both => missing (both.2 argument (by simp))
    next known =>
      split
      next missing => exact iff_of_false (by rintro ⟨⟩) fun both => missing (both.2 result (by simp))
      next known' =>
        refine iff_of_true rfl ⟨⟨argument, result, rfl, rfl⟩, ?_⟩
        simpa using ⟨not_not.1 known, not_not.1 known'⟩
  next missing =>
    refine iff_of_false (by rintro ⟨⟩) ?_
    rintro ⟨⟨argument, result, first, second⟩, -⟩
    exact missing argument result first second

theorem recordType_ok : processor.recordType element = .ok after ↔
    (given element.type = true ∧ given element.maxsize = true ∧ element.name ≠ none) ∧
      after = { processor with protocolEnumEntries := insertKey processor.protocolEnumEntries (element.type.getD "") } := by
  unfold XmlProcessor.recordType
  split
  next missing =>
    refine iff_of_false (by rintro ⟨⟩) fun both => ?_
    rw [both.1.1, both.1.2.1] at missing
    cases missing
  next present =>
    have both : given element.type = true ∧ given element.maxsize = true := by simpa using present
    split
    next nameless => exact iff_of_false (by rintro ⟨⟩) fun all => all.1.2.2 nameless
    next named =>
      rw [and_iff_right ⟨both.1, both.2, named⟩]
      exact ⟨fun same => (Except.ok.inj same).symm, fun same => congrArg Except.ok same.symm⟩

theorem checkDuplicate_ok : processor.checkDuplicate element = .ok after ↔
    element.type.getD "" ∉ processor.protocolIds ∧
      after = { processor with protocolIds := processor.protocolIds ++ [element.type.getD ""] } := by
  unfold XmlProcessor.checkDuplicate
  split
  next known => exact iff_of_false (by rintro ⟨⟩) fun both => both.1 known
  next new =>
    rw [and_iff_right new]
    exact ⟨fun same => (Except.ok.inj same).symm, fun same => congrArg Except.ok same.symm⟩

theorem bind_ok {ε α β : Type} {first : Except ε α} {next : α → Except ε β} {value : β} :
    first >>= next = .ok value ↔ ∃ middle, first = .ok middle ∧ next middle = .ok value := by
  cases first with
  | error thrown => exact iff_of_false (by rintro ⟨⟩) (by rintro ⟨middle, ⟨⟩, -⟩)
  | ok middle =>
    constructor
    · exact fun same => ⟨middle, rfl, same⟩
    · rintro ⟨middle', same, later⟩
      cases same
      exact later

/-- What is asked of an element behind these names and ids. -/
structure Acceptable (names : List (Option String)) (ids : List String) (element : XmlElement) : Prop where
  wellFormed : WellFormed element
  declared : ∀ name ∈ uses element, some name ∈ names
  new : ∀ id ∈ typeText element, id ∉ ids

theorem uses_nil (other : element.tag ≠ .rpc) : uses element = [] := by
  unfold uses
  split
  next call _ _ => exact absurd call other
  next => rfl

/-- The processor behind an element. -/
def behind (processor : XmlProcessor) (ids : List String) (element : XmlElement) : XmlProcessor :=
  ⟨insertKey processor.protocolCache element.name, ids ++ typeText element, ids ++ typeText element⟩

theorem parseElement_untyped (seen : Seen names ids processor) (untyped : element.typed = false) :
    processor.parseElement element = .ok after ↔ Acceptable names ids element ∧ after = behind processor ids element := by
  have other : element.tag ≠ .rpc := by
    intro call
    simp [XmlElement.typed, call] at untyped
  have nothing : typeText element = [] := by rw [typeText, untyped]; rfl
  have cached : behind processor ids element = { processor with protocolCache := insertKey processor.protocolCache element.name } := by
    rw [behind, nothing, List.append_nil]
    nth_rewrite 1 [← seen.entries]
    rw [← seen.ids]
  rw [XmlProcessor.parseElement, untyped, cached]
  simp only [Bool.false_eq_true, if_false, other, pure_bind, bind_ok, parseFields_ok]
  constructor
  · rintro ⟨-, fields, same⟩
    refine ⟨⟨⟨fun typed => absurd (untyped.symm.trans typed) (by simp), fields, fun call => absurd call other⟩, ?_, ?_⟩,
      (Except.ok.inj same).symm⟩
    · simp [uses_nil other]
    · simp [nothing]
  · rintro ⟨acceptable, rfl⟩
    exact ⟨(), acceptable.wellFormed.fields, rfl⟩

theorem parseElement_typed (seen : Seen names ids processor) (typed : element.typed = true) :
    processor.parseElement element = .ok after ↔ Acceptable names ids element ∧ after = behind processor ids element := by
  have text : typeText element = [element.type.getD ""] := by rw [typeText, typed]; rfl
  have known (name : String) : some name ∈ processor.protocolCache ↔ some name ∈ names := seen.cache (some name)
  -- the name is not in the cache yet when the types of a call are looked up
  have parsed : processor.parseElement element = .ok after ↔
      (given element.type = true ∧ given element.maxsize = true ∧ element.name ≠ none) ∧
        element.fields.all XmlField.complete = true ∧
        (element.tag = .rpc → (∃ argument result, element.argument = some (some argument) ∧ element.result = some (some result)) ∧
          ∀ name ∈ uses element, some name ∈ processor.protocolCache) ∧
        element.type.getD "" ∉ processor.protocolIds ∧
        after = ⟨insertKey processor.protocolCache element.name, insertKey processor.protocolEnumEntries (element.type.getD ""),
          processor.protocolIds ++ [element.type.getD ""]⟩ := by
    rw [XmlProcessor.parseElement, typed]
    simp only [if_true, bind_ok, parseFields_ok, recordType_ok]
    by_cases call : element.tag = .rpc
    · simp only [call, if_true, bind_ok, parseRpcInfo_ok call, checkDuplicate_ok]
      constructor
      · rintro ⟨recorded, ⟨id, rfl⟩, -, fields, -, types, new, same⟩
        exact ⟨id, fields, fun _ => types, new, same⟩
      · rintro ⟨id, fields, types, new, same⟩
        exact ⟨_, ⟨id, rfl⟩, (), fields, (), types trivial, new, same⟩
    · simp only [call, if_false, checkDuplicate_ok]
      constructor
      · rintro ⟨recorded, ⟨id, rfl⟩, -, fields, new, same⟩
        exact ⟨id, fields, fun call => call.elim, new, same⟩
      · rintro ⟨id, fields, -, new, same⟩
        exact ⟨_, ⟨id, rfl⟩, (), fields, new, same⟩
  rw [parsed, seen.entries, seen.ids, behind, text]
  constructor
  · rintro ⟨id, fields, call, new, same⟩
    refine ⟨⟨⟨fun _ => id, fields, fun isCall => (call isCall).1⟩, fun name used => ?_, by simpa [text] using new⟩, ?_⟩
    · by_cases isCall : element.tag = .rpc
      · exact (known name).1 ((call isCall).2 name used)
      · simp [uses_nil isCall] at used
    · rw [same, insertKey_new new]
  · rintro ⟨acceptable, same⟩
    have new : element.type.getD "" ∉ ids := acceptable.new _ (by simp [text])
    refine ⟨acceptable.wellFormed.id typed, acceptable.wellFormed.fields, fun isCall => ⟨acceptable.wellFormed.call isCall, ?_⟩, new, ?_⟩
    · exact fun name used => (known name).2 (acceptable.declared name used)
    · rw [same, insertKey_new new]

theorem parseElement_ok (seen : Seen names ids processor) :
    processor.parseElement element = .ok after ↔ Acceptable names ids element ∧ after = behind processor ids element := by
  cases typed : element.typed with
  | false => exact parseElement_untyped seen typed
  | true => exact parseElement_typed seen typed

theorem Seen.behind (seen : Seen names ids processor) (element : XmlElement) :
    Seen (names ++ [element.name]) (ids ++ typeText element) (Proofs.behind processor ids element) := by
  refine ⟨fun name => ?_, rfl, rfl⟩
  rw [Proofs.behind, mem_insertKey, seen.cache, List.mem_append, List.mem_singleton]

/-- What is asked of elements behind these names and ids. -/
structure AcceptableAll (names : List (Option String)) (ids : List String) (elements : List XmlElement) : Prop where
  wellFormed : ∀ element ∈ elements, WellFormed element
  distinct : (types elements).Nodup
  new : ∀ id ∈ types elements, id ∉ ids
  declared : Declared names elements

theorem typeText_nodup (element : XmlElement) : (typeText element).Nodup := by
  unfold typeText
  split <;> simp

theorem types_cons (element : XmlElement) (elements : List XmlElement) :
    types (element :: elements) = typeText element ++ types elements := List.flatMap_cons ..

theorem acceptableAll_cons {elements : List XmlElement} : AcceptableAll names ids (element :: elements) ↔
    Acceptable names ids element ∧ AcceptableAll (names ++ [element.name]) (ids ++ typeText element) elements := by
  constructor
  · intro all
    have distinct := all.distinct
    rw [types_cons, List.nodup_append'] at distinct
    refine ⟨⟨all.wellFormed element (by simp), all.declared.1, fun id member => all.new id ?_⟩,
      fun other member => all.wellFormed other (by simp [member]), distinct.2.1, fun id member known => ?_, all.declared.2⟩
    · rw [types_cons]
      exact List.mem_append_left _ member
    · rcases List.mem_append.1 known with before | here
      · exact all.new id (by rw [types_cons]; exact List.mem_append_right _ member) before
      · exact distinct.2.2 here member
  · rintro ⟨first, rest⟩
    refine ⟨?_, ?_, ?_, first.declared, rest.declared⟩
    · intro other member
      rcases List.mem_cons.1 member with rfl | member
      · exact first.wellFormed
      · exact rest.wellFormed other member
    · rw [types_cons, List.nodup_append']
      refine ⟨typeText_nodup element, rest.distinct, fun id here member => ?_⟩
      exact rest.new id member (List.mem_append_right _ here)
    · intro id member known
      rw [types_cons] at member
      rcases List.mem_append.1 member with here | later
      · exact first.new id here known
      · exact rest.new id later (List.mem_append_left _ known)

/-- The elements are parsed one after the other. -/
theorem parseElements_ok {elements : List XmlElement} (seen : Seen names ids processor) :
    (∀ after, elements.foldlM parseElement processor = .ok after →
        AcceptableAll names ids elements ∧ after.protocolEnumEntries = ids ++ types elements) ∧
      (AcceptableAll names ids elements → ∃ after, elements.foldlM parseElement processor = .ok after) := by
  induction elements generalizing processor names ids with
  | nil =>
    refine ⟨fun after same => ⟨⟨by simp, by simp [types], by simp [types], trivial⟩, ?_⟩, fun _ => ⟨processor, rfl⟩⟩
    cases same
    simpa [types] using seen.entries
  | cons element elements ih =>
    simp only [List.foldlM_cons, bind_ok, parseElement_ok seen, acceptableAll_cons]
    obtain ⟨parsed, parses⟩ := ih (seen.behind element)
    constructor
    · rintro after ⟨middle, ⟨acceptable, rfl⟩, rest⟩
      obtain ⟨all, entries⟩ := parsed after rest
      exact ⟨⟨acceptable, all⟩, by rw [entries, types_cons, List.append_assoc]⟩
    · rintro ⟨acceptable, all⟩
      obtain ⟨after, rest⟩ := parses all
      exact ⟨after, _, ⟨acceptable, rfl⟩, rest⟩

def isGeneral (file : XmlFile) : Bool := file.name.endsWith ".xml" && file.name ≠ "protocol.xml"

/-- The files that are parsed, in the order of the listing. -/
def generalFiles (listing : List XmlFile) : List (List XmlElement) := (listing.filter isGeneral).map XmlFile.elements

theorem foldlM_files (files : List XmlFile) :
    files.foldlM parseGeneralXml processor = (files.map XmlFile.elements).flatten.foldlM parseElement processor := by
  induction files generalizing processor with
  | nil => rfl
  | cons file files ih =>
    rw [List.foldlM_cons, List.map_cons, List.flatten_cons, List.foldlM_append]
    simp only [ih]
    rfl

theorem preprocessXml_eq (listing : List XmlFile) :
    preprocessXml listing = (generalFiles listing).flatten.foldlM parseElement {} := by
  have filters : (fun file : XmlFile => decide (file.name ≠ "protocol.xml") && file.name.endsWith ".xml") = isGeneral := by
    funext file
    exact Bool.and_comm ..
  rw [preprocessXml, generalFiles, foldlM_files, List.filter_filter, filters]

/-- What `preprocess_xml` accepts, and what is emitted then. -/
theorem preprocessXml_ok (listing : List XmlFile) :
    (∀ after, preprocessXml listing = .ok after →
        Accepts (generalFiles listing).flatten ∧ after.maxProtocolId = (types (generalFiles listing).flatten).getLast?) ∧
      (Accepts (generalFiles listing).flatten → ∃ after, preprocessXml listing = .ok after) := by
  have seen : Seen [] [] ({} : XmlProcessor) := ⟨by simp, rfl, rfl⟩
  obtain ⟨parsed, parses⟩ := @parseElements_ok _ _ _ (generalFiles listing).flatten seen
  rw [preprocessXml_eq]
  constructor
  · intro after same
    obtain ⟨all, entries⟩ := parsed after same
    exact ⟨⟨all.wellFormed, all.distinct, all.declared⟩, by rw [maxProtocolId, entries, List.nil_append]⟩
  · intro accepts
    exact parses ⟨accepts.wellFormed, accepts.distinct, by simp, accepts.declared⟩

end Parsing

/-! ## Orders of a listing -/

section Orders
variable {names : List (Option String)} {elements : List XmlElement} {files : List (List XmlElement)} {file : List XmlElement}
  {listing order : List XmlFile}

theorem Declared.more (declared : Declared names elements) {others : List (Option String)} (more : names ⊆ others) :
    Declared others elements := by
  induction elements generalizing names others with
  | nil => trivial
  | cons element elements ih =>
    refine ⟨fun name used => more (declared.1 name used), ih declared.2 ?_⟩
    exact List.append_subset.2 ⟨fun name member => List.mem_append_left _ (more member), List.subset_append_right ..⟩

theorem declared_append {others : List XmlElement} :
    Declared names (elements ++ others) ↔
      Declared names elements ∧ Declared (names ++ elements.map XmlElement.name) others := by
  induction elements generalizing names with
  | nil => simp [Declared]
  | cons element elements ih =>
    rw [List.cons_append, Declared, Declared, ih, List.map_cons, List.append_assoc, List.singleton_append, and_assoc]

/-- What each file declares for itself is declared in all of them. -/
theorem declared_flatten (each : ∀ file ∈ files, Declared [] file) : Declared names files.flatten := by
  induction files generalizing names with
  | nil => trivial
  | cons file files ih =>
    rw [List.flatten_cons, declared_append]
    exact ⟨(each file (by simp)).more (by simp), ih fun other member => each other (by simp [member])⟩

theorem generalFiles_perm (perm : order.Perm listing) : (generalFiles order).Perm (generalFiles listing) :=
  (perm.filter _).map _

theorem types_perm (perm : order.Perm listing) :
    (types (generalFiles order).flatten).Perm (types (generalFiles listing).flatten) :=
  (generalFiles_perm perm).flatten.flatMap_right _

theorem types_flatten (files : List (List XmlElement)) : types files.flatten = files.flatMap types := by
  induction files with
  | nil => rfl
  | cons file files ih => rw [List.flatten_cons, List.flatMap_cons, ← ih, types, types, types, List.flatMap_append]

/-- The ids of one file of many. -/
theorem types_sublist (member : file ∈ files) : List.Sublist (types file) (types files.flatten) := by
  obtain ⟨before, behind, rfl⟩ := List.append_of_mem member
  simp only [types_flatten, List.flatMap_append, List.flatMap_cons]
  exact (List.sublist_append_left ..).trans (List.sublist_append_right ..)

theorem exists_first (member : file ∈ generalFiles listing) :
    ∃ order, order.Perm listing ∧ ∃ rest, generalFiles order = file :: rest := by
  obtain ⟨entry, found, rfl⟩ := List.mem_map.1 member
  obtain ⟨before, behind, rfl⟩ := List.append_of_mem (List.mem_filter.1 found).1
  refine ⟨entry :: (before ++ behind), List.perm_middle.symm, generalFiles (before ++ behind), ?_⟩
  rw [generalFiles, List.filter_cons_of_pos (List.mem_filter.1 found).2]
  rfl

theorem exists_last (member : file ∈ generalFiles listing) :
    ∃ order, order.Perm listing ∧ ∃ rest, generalFiles order = rest ++ [file] := by
  obtain ⟨entry, found, rfl⟩ := List.mem_map.1 member
  obtain ⟨before, behind, rfl⟩ := List.append_of_mem (List.mem_filter.1 found).1
  refine ⟨(before ++ behind) ++ [entry], ?_, generalFiles (before ++ behind), ?_⟩
  · exact (List.perm_append_singleton ..).trans List.perm_middle.symm
  · rw [generalFiles, List.filter_append, List.filter_singleton, (List.mem_filter.1 found).2, List.map_append]
    rfl

/-- Well-formedness and distinct texts do not depend on the order. -/
theorem accepts_perm (perm : order.Perm listing) : Accepts (generalFiles order).flatten ↔
    ((∀ element ∈ (generalFiles listing).flatten, WellFormed element) ∧ (types (generalFiles listing).flatten).Nodup) ∧
      Declared [] (generalFiles order).flatten := by
  have elements := (generalFiles_perm perm).flatten
  constructor
  · intro accepts
    exact ⟨⟨fun element member => accepts.wellFormed element (elements.mem_iff.2 member), (types_perm perm).nodup_iff.1 accepts.distinct⟩,
      accepts.declared⟩
  · rintro ⟨⟨wellFormed, distinct⟩, declared⟩
    exact ⟨fun element member => wellFormed element (elements.mem_iff.1 member), (types_perm perm).nodup_iff.2 distinct, declared⟩

end Orders

/-! ## The table of ids -/

/-- Every id is a number of its own, and the bitset that is sized by the emitted one has a bit for it. -/
structure Tabled (value : String → Option ProtocolId) (ids : List String) (emitted : Option String) : Prop where
  numbers : ∀ id ∈ ids, (value id).isSome
  distinct : (ids.map value).Nodup
  bounded : ∀ id ∈ ids, ∃ number max, value id = some number ∧ emitted.bind value = some max ∧
    number ≤ max ∧ number.toNat < forbiddenSize max

/-- Whatever the order of the listing: what is accepted has such a table, and neither the acceptance nor
the emitted number changes with the order. -/
structure TableSound (value : String → Option ProtocolId) (listing : List XmlFile) : Prop where
  tabled : ∀ order, order.Perm listing → ∀ processor, preprocessXml order = .ok processor →
    Tabled value (types (generalFiles order).flatten) processor.maxProtocolId
  stable : ∀ order order', order.Perm listing → order'.Perm listing → ∀ processor, preprocessXml order = .ok processor →
    ∃ processor', preprocessXml order' = .ok processor' ∧
      processor'.maxProtocolId.bind value = processor.maxProtocolId.bind value

/-- The ids are different numbers, each file declares what its calls use, and all ids are in one file, the
greatest of them last. -/
structure Orderly (value : String → Option ProtocolId) (files : List (List XmlElement)) : Prop where
  numbers : ∀ id ∈ types files.flatten, (value id).isSome
  distinct : ((types files.flatten).map value).Nodup
  declared : ∀ file ∈ files, Declared [] file
  together : types files.flatten ≠ [] → ∃ file ∈ files, types file = types files.flatten
  greatest : ∀ last, (types files.flatten).getLast? = some last → ∀ max, value last = some max →
    max ≠ BitVec.allOnes 32 ∧ ∀ id ∈ types files.flatten, ∀ number, value id = some number → number ≤ max

section Tables
variable {value : String → Option ProtocolId} {listing order : List XmlFile}

theorem lt_forbiddenSize {number max : ProtocolId} (below : number ≤ max) (room : max ≠ BitVec.allOnes 32) :
    number.toNat < forbiddenSize max := by
  have small := max.isLt
  have unequal : max.toNat ≠ 2 ^ 32 - 1 := by
    intro same
    exact room (BitVec.eq_of_toNat_eq (by rw [same, BitVec.toNat_allOnes]))
  have le := BitVec.le_def.1 below
  rw [forbiddenSize, BitVec.toNat_add, BitVec.toNat_ofNat, Nat.mod_eq_of_lt (by omega)]
  omega

theorem ne_allOnes_of_lt {max : ProtocolId} (bit : max.toNat < forbiddenSize max) : max ≠ BitVec.allOnes 32 := by
  rintro rfl
  exact absurd bit (by decide)

/-- The ids are in the same order in every listing. -/
theorem Orderly.types_eq (orderly : Orderly value (generalFiles listing)) (perm : order.Perm listing) :
    types (generalFiles order).flatten = types (generalFiles listing).flatten := by
  by_cases none : types (generalFiles listing).flatten = []
  · have empty := types_perm perm
    rw [none] at empty ⊢
    exact empty.eq_nil
  · obtain ⟨file, member, all⟩ := orderly.together none
    have inside := types_sublist ((generalFiles_perm perm).mem_iff.2 member)
    rw [all] at inside
    exact (inside.eq_of_length (types_perm perm).length_eq.symm).symm

theorem Orderly.accepts (orderly : Orderly value (generalFiles listing)) (perm : order.Perm listing)
    (wellFormed : ∀ element ∈ (generalFiles listing).flatten, WellFormed element)
    (distinct : (types (generalFiles listing).flatten).Nodup) : Accepts (generalFiles order).flatten := by
  refine (accepts_perm perm).2 ⟨⟨wellFormed, distinct⟩, declared_flatten fun file member => ?_⟩
  exact orderly.declared file ((generalFiles_perm perm).mem_iff.1 member)

theorem Orderly.tabled (orderly : Orderly value (generalFiles listing)) :
    Tabled value (types (generalFiles listing).flatten) (types (generalFiles listing).flatten).getLast? := by
  refine ⟨orderly.numbers, orderly.distinct, fun id member => ?_⟩
  have final := List.getLast?_eq_getLast_of_ne_nil (List.ne_nil_of_mem member)
  generalize (types (generalFiles listing).flatten).getLast (List.ne_nil_of_mem member) = last at final
  obtain ⟨max, emitted⟩ := Option.isSome_iff_exists.1 (orderly.numbers last (List.mem_of_getLast? final))
  obtain ⟨number, here⟩ := Option.isSome_iff_exists.1 (orderly.numbers id member)
  obtain ⟨room, greatest⟩ := orderly.greatest last final max emitted
  refine ⟨number, max, here, ?_, greatest id member number here, lt_forbiddenSize (greatest id member number here) room⟩
  rw [final]
  exact emitted

/-- The number that is emitted when this file is listed last. -/
theorem emitted_last {files : List (List XmlElement)} {file : List XmlElement} (some : types file ≠ []) :
    (types (files ++ [file]).flatten).getLast? = (types file).getLast? := by
  rw [types_flatten, List.flatMap_append, List.flatMap_singleton]
  exact List.getLast?_append_of_ne_nil _ some

/-- When all orders emit the same number, there is only one file with ids. -/
theorem together_of_stable (sound : TableSound value listing) (accepts : ∀ order, order.Perm listing → Accepts (generalFiles order).flatten)
    (some : types (generalFiles listing).flatten ≠ []) :
    ∃ file ∈ generalFiles listing, types file = types (generalFiles listing).flatten := by
  obtain ⟨listed, parsed⟩ := (preprocessXml_ok listing).2 (accepts listing (List.Perm.refl _))
  have distinct := (sound.tabled listing (List.Perm.refl _) listed parsed).distinct
  have final := List.getLast?_eq_getLast_of_ne_nil some
  generalize (types (generalFiles listing).flatten).getLast some = last at final
  -- every file with ids emits the number of the last one when it is listed last
  have everywhere (file : List XmlElement) (member : file ∈ generalFiles listing) (ids : types file ≠ []) : last ∈ types file := by
    have final' := List.getLast?_eq_getLast_of_ne_nil ids
    generalize (types file).getLast ids = last' at final'
    obtain ⟨order, perm, rest, files⟩ := exists_last member
    obtain ⟨processor, parsed', same⟩ := sound.stable listing order (List.Perm.refl _) perm listed parsed
    rw [((preprocessXml_ok order).1 processor parsed').2, ((preprocessXml_ok listing).1 listed parsed).2, files, emitted_last ids, final,
      final'] at same
    have here := List.mem_of_getLast? final'
    have equal := List.inj_on_of_nodup_map distinct ((types_sublist member).subset here) (List.mem_of_getLast? final) same
    rwa [equal] at here
  have member := List.mem_of_getLast? final
  rw [types_flatten] at member
  obtain ⟨file, among, here⟩ := List.mem_flatMap.1 member
  refine ⟨file, among, ?_⟩
  obtain ⟨before, behind, files⟩ := List.append_of_mem among
  have unique := (accepts listing (List.Perm.refl _)).distinct
  rw [types_flatten, files, List.flatMap_append, List.flatMap_cons, List.nodup_append', List.nodup_append'] at unique
  obtain ⟨-, ⟨-, -, apart⟩, apart'⟩ := unique
  have none_before : before.flatMap types = [] := by
    refine List.flatMap_eq_nil_iff.2 fun other earlier => ?_
    by_contra ids
    have also := everywhere other (by rw [files]; exact List.mem_append_left _ earlier) ids
    exact apart' (List.mem_flatMap.2 ⟨other, earlier, also⟩) (List.mem_append_left _ here)
  have none_behind : behind.flatMap types = [] := by
    refine List.flatMap_eq_nil_iff.2 fun other later => ?_
    by_contra ids
    have also := everywhere other (by rw [files]; simp [later]) ids
    exact apart here (List.mem_flatMap.2 ⟨other, later, also⟩)
  rw [types_flatten, files, List.flatMap_append, List.flatMap_cons, none_before, none_behind, List.nil_append, List.append_nil]

/-- The table of ids is sound for exactly the directories that no order of their listing makes acceptable,
and for the orderly ones. -/
theorem table_sound_iff (value : String → Option ProtocolId) (listing : List XmlFile) : TableSound value listing ↔
    ((∀ element ∈ (generalFiles listing).flatten, WellFormed element) → (types (generalFiles listing).flatten).Nodup →
      (∃ order, order.Perm listing ∧ Declared [] (generalFiles order).flatten) → Orderly value (generalFiles listing)) := by
  constructor
  · rintro sound wellFormed distinct ⟨order, perm, declared⟩
    obtain ⟨processor, parsed⟩ := (preprocessXml_ok order).2 ((accepts_perm perm).2 ⟨⟨wellFormed, distinct⟩, declared⟩)
    have accepts (order' : List XmlFile) (perm' : order'.Perm listing) : Accepts (generalFiles order').flatten := by
      obtain ⟨processor', parsed', -⟩ := sound.stable order order' perm perm' processor parsed
      exact ((preprocessXml_ok order').1 processor' parsed').1
    obtain ⟨listed, parsed', -⟩ := sound.stable order listing perm (List.Perm.refl _) processor parsed
    have tabled := sound.tabled listing (List.Perm.refl _) listed parsed'
    rw [((preprocessXml_ok listing).1 listed parsed').2] at tabled
    refine ⟨tabled.numbers, tabled.distinct, fun file member => ?_, together_of_stable sound accepts, fun last final max emitted => ?_⟩
    · obtain ⟨order', perm', rest, first⟩ := exists_first member
      have declared' := (accepts order' perm').declared
      rw [first, List.flatten_cons, declared_append] at declared'
      exact declared'.1
    · have bounded (id : String) (member : id ∈ types (generalFiles listing).flatten) (number : ProtocolId)
          (here : value id = some number) : number ≤ max ∧ number.toNat < forbiddenSize max := by
        obtain ⟨number', max', here', emitted', below, bit⟩ := tabled.bounded id member
        rw [final, Option.bind_some, emitted] at emitted'
        rw [here] at here'
        cases emitted'
        cases here'
        exact ⟨below, bit⟩
      exact ⟨ne_allOnes_of_lt (bounded last (List.mem_of_getLast? final) max emitted).2,
        fun id member number here => (bounded id member number here).1⟩
  · intro orderly
    -- a listing that is accepted in one order is orderly, and so accepted in all of them
    have all (order : List XmlFile) (perm : order.Perm listing) (processor : XmlProcessor) (parsed : preprocessXml order = .ok processor) :
        Orderly value (generalFiles listing) ∧ ∀ order', order'.Perm listing → Accepts (generalFiles order').flatten := by
      obtain ⟨⟨wellFormed, distinct⟩, declared⟩ := (accepts_perm perm).1 ((preprocessXml_ok order).1 processor parsed).1
      have holds := orderly wellFormed distinct ⟨order, perm, declared⟩
      exact ⟨holds, fun order' perm' => holds.accepts perm' wellFormed distinct⟩
    constructor
    · intro order perm processor parsed
      obtain ⟨holds, -⟩ := all order perm processor parsed
      rw [((preprocessXml_ok order).1 processor parsed).2, holds.types_eq perm]
      exact holds.tabled
    · intro order order' perm perm' processor parsed
      obtain ⟨holds, accepts⟩ := all order perm processor parsed
      obtain ⟨processor', parsed'⟩ := (preprocessXml_ok order').2 (accepts order' perm')
      refine ⟨processor', parsed', ?_⟩
      rw [((preprocessXml_ok order).1 processor parsed).2, ((preprocessXml_ok order').1 processor' parsed').2, holds.types_eq perm,
        holds.types_eq perm']

end Tables

/-- Two files, of which the one with the smaller id is listed last. -/
def logThenLogin : List XmlFile :=
  [⟨"log.xml", [{ tag := .protocol, name := "remotelog", type := "200", maxsize := "2048" }]⟩,
    ⟨"login.xml", [{ tag := .protocol, name := "s2c_user_login_re", type := "105", maxsize := "1024" }]⟩]

/-- The bitset has 106 bits. -/
theorem logThenLogin_not_sound : ¬ TableSound integerLiteral logThenLogin := by
  intro sound
  have parsed : preprocessXml logThenLogin = .ok ⟨[some "remotelog", some "s2c_user_login_re"], ["200", "105"], ["200", "105"]⟩ := by
    decide +kernel
  have tabled := sound.tabled logThenLogin (List.Perm.refl _) _ parsed
  have member : "200" ∈ types (generalFiles logThenLogin).flatten := by decide +kernel
  obtain ⟨number, max, here, emitted, below, -⟩ := tabled.bounded "200" member
  rw [show integerLiteral "200" = some 200#32 by decide +kernel] at here
  rw [show (maxProtocolId ⟨[some "remotelog", some "s2c_user_login_re"], ["200", "105"], ["200", "105"]⟩).bind integerLiteral = some 105#32 by
    decide +kernel] at emitted
  cases here
  cases emitted
  exact absurd below (by decide)

end Cassobee.Proofs
