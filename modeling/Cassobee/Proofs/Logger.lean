import Cassobee.Logger
import Cassobee.Proofs.Text

/-! The influx line against the form of the line protocol. -/

namespace Cassobee.Proofs

/-- The bytes of a line, those that separate marked. A separator behind a backslash is taken as it is,
without the backslash. -/
def readLine : List UInt8 → List (UInt8 × Bool)
  | [] => []
  | [c] => [(c, influxSpecial c || c == 10)]
  | c :: next :: rest =>
    if c = 92 ∧ influxSpecial next then (next, false) :: readLine rest
    else (c, influxSpecial c || c == 10) :: readLine (next :: rest)

def word (text : List UInt8) : List (UInt8 × Bool) := text.map fun c => (c, false)

def pairForm (pair : List UInt8 × List UInt8) : List (UInt8 × Bool) := word pair.1 ++ (61, true) :: word pair.2

/-- `measurement[,tag=value]* field=value[,field=value]* timestamp` and a newline. -/
def lineForm (measurement : List UInt8) (tags fields : List (List UInt8 × List UInt8)) (timestamp : List UInt8) :
    List (UInt8 × Bool) :=
  word measurement ++ tags.flatMap (fun tag => (44, true) :: pairForm tag) ++
    (32, true) :: [(44, true)].intercalate (fields.map pairForm) ++ (32, true) :: word timestamp ++ [(10, true)]

/-- The line has the form, with whatever words. -/
def HasLineForm (line : List UInt8) : Prop :=
  ∃ measurement tags fields timestamp, fields ≠ [] ∧ readLine line = lineForm measurement tags fields timestamp

/-- From the first blank on that separates. -/
def fromBlank (units : List (UInt8 × Bool)) : List (UInt8 × Bool) := units.dropWhile (· ≠ (32, true))

/-- There is no such blank, or a comma stands right behind it, or no equals sign behind it separates. -/
def Misplaced (units : List (UInt8 × Bool)) : Prop :=
  fromBlank units = [] ∨ (∃ rest, fromBlank units = (32, true) :: (44, true) :: rest) ∨ (61, true) ∉ fromBlank units

variable {units : List (UInt8 × Bool)} {text rest : List UInt8} {c sep : UInt8}

/-! ## Reading -/

/-- The bytes of a text as they are read. -/
def textUnits (text : List UInt8) : List (UInt8 × Bool) := text.map fun c => (c, c == 10)

theorem readLine_cons (alone : c = 92 → ∀ next ∈ rest.head?, influxSpecial next = false) :
    readLine (c :: rest) = (c, influxSpecial c || c == 10) :: readLine rest := by
  cases rest with
  | nil => rfl
  | cons next rest =>
    rw [readLine, if_neg]
    rintro ⟨backslash, special⟩
    rw [alone backslash next rfl] at special
    cases special

theorem escape_head (c : UInt8) (text rest : List UInt8) :
    ∀ next ∈ (escapeInflux (c :: text) ++ rest).head?, influxSpecial next = false := by
  cases special : influxSpecial c <;> simp [escapeInflux, special]
  rfl

theorem special_ne (special : influxSpecial sep = true) : sep ≠ 92 ∧ sep ≠ 10 := by
  constructor <;> rintro rfl <;> cases special

/-- A text that is written with escapes is read as it is, but if it ends with a backslash, this one takes away
the mark of the separator behind. -/
theorem readLine_escape (text rest : List UInt8) :
    readLine (escapeInflux text ++ rest) = textUnits text ++ readLine rest ∨
      ∃ front sep later, rest = sep :: later ∧
        readLine (escapeInflux text ++ rest) = textUnits front ++ (sep, false) :: readLine later := by
  induction text with
  | nil => exact .inl rfl
  | cons c text ih =>
    have grow {head : List UInt8} (first : readLine (head ++ (escapeInflux text ++ rest)) =
        (c, c == 10) :: readLine (escapeInflux text ++ rest)) :
        readLine (head ++ (escapeInflux text ++ rest)) = textUnits (c :: text) ++ readLine rest ∨
          ∃ front sep later, rest = sep :: later ∧
            readLine (head ++ (escapeInflux text ++ rest)) = textUnits front ++ (sep, false) :: readLine later := by
      obtain plain | ⟨front, sep, later, split, taken⟩ := ih
      · exact .inl (by rw [first, plain]; rfl)
      · exact .inr ⟨c :: front, sep, later, split, by rw [first, taken]; rfl⟩
    have shape : escapeInflux (c :: text) ++ rest =
        (if influxSpecial c then [92, c] else [c]) ++ (escapeInflux text ++ rest) := by
      simp [escapeInflux]
    rw [shape]
    by_cases special : influxSpecial c = true
    · rw [if_pos special]
      apply grow
      have newline : (c == 10) = false := beq_eq_false_iff_ne.2 (special_ne special).2
      simp [readLine, special, newline]
    · have plain : influxSpecial c = false := Bool.eq_false_iff.2 special
      rw [if_neg special]
      by_cases taken : c = 92 ∧ text = [] ∧ ∃ sep ∈ rest.head?, influxSpecial sep = true
      · obtain ⟨rfl, rfl, sep, first, mark⟩ := taken
        obtain ⟨later, rfl⟩ : ∃ later, rest = sep :: later := by
          cases rest with
          | nil => cases first
          | cons other later =>
            cases first
            exact ⟨later, rfl⟩
        exact .inr ⟨[], sep, later, rfl, by simp [escapeInflux, readLine, mark, textUnits]⟩
      · apply grow
        rw [List.singleton_append, readLine_cons, plain, Bool.false_or]
        intro backslash next first
        cases text with
        | nil => exact Bool.eq_false_iff.2 fun mark => taken ⟨backslash, rfl, next, first, mark⟩
        | cons other text => exact escape_head other text rest next first

/-! ## What the line lacks -/

theorem fromBlank_append (quiet : (32, true) ∉ units) (rest : List (UInt8 × Bool)) :
    fromBlank (units ++ rest) = fromBlank rest := by
  apply List.dropWhile_append_of_pos
  intro unit member
  have other : unit ≠ (32, true) := fun same => quiet (same ▸ member)
  simpa using other

theorem misplaced_append (quiet : (32, true) ∉ units) {rest : List (UInt8 × Bool)} (misplaced : Misplaced rest) :
    Misplaced (units ++ rest) := by
  rwa [Misplaced, fromBlank_append quiet]

theorem textUnits_quiet (text : List UInt8) : (32, true) ∉ textUnits text := by
  simp [textUnits]

/-- Misplaced behind every text. -/
def Loose (rest : List UInt8) : Prop := ∀ text, Misplaced (readLine (escapeInflux text ++ rest))

/-- A separator may be read as one or lose its mark. -/
theorem loose_cons (mark : influxSpecial sep = true) (read : Misplaced ((sep, true) :: readLine rest))
    (taken : Misplaced (readLine rest)) : Loose (sep :: rest) := by
  intro text
  obtain plain | ⟨front, other, later, split, plain⟩ := readLine_escape text (sep :: rest)
  · rw [plain]
    apply misplaced_append (textUnits_quiet text)
    rwa [readLine_cons fun backslash => absurd backslash (special_ne mark).1, mark, Bool.true_or]
  · cases split
    rw [plain]
    apply misplaced_append (textUnits_quiet front)
    exact misplaced_append (by simp : (32, true) ∉ [(sep, false)]) taken

theorem loose_of_not_blank (mark : influxSpecial sep = true) (other : sep ≠ 32) (loose : Misplaced (readLine rest)) :
    Loose (sep :: rest) :=
  loose_cons mark (misplaced_append (by simpa using Ne.symm other : (32, true) ∉ [(sep, true)]) loose) loose

theorem Loose.pair (loose : Loose rest) (pair : List UInt8 × List UInt8) : Loose (influxPair pair ++ rest) := by
  have value : Loose (61 :: (escapeInflux pair.2 ++ rest)) := loose_of_not_blank rfl (by decide) (loose pair.2)
  have key : Loose (44 :: (escapeInflux pair.1 ++ 61 :: (escapeInflux pair.2 ++ rest))) :=
    loose_of_not_blank rfl (by decide) (value pair.1)
  simpa [influxPair] using key

theorem Loose.pairs (loose : Loose rest) (pairs : List (List UInt8 × List UInt8)) :
    Loose (pairs.flatMap influxPair ++ rest) := by
  induction pairs with
  | nil => exact loose
  | cons pair pairs ih => simpa [List.flatMap_cons] using ih.pair pair

theorem Loose.fields (loose : Loose rest) (fields : List (List UInt8 × List UInt8)) :
    Loose (influxFields false fields ++ rest) := by
  induction fields with
  | nil => exact loose
  | cons field fields ih =>
    have comma : Loose (44 :: (influxPair field ++ (influxFields false fields ++ rest))) :=
      loose_of_not_blank rfl (by decide) (ih.pair field [])
    simpa [influxFields] using comma

/-- The comma before the first field stands right behind the blank. -/
theorem Loose.firstField (loose : Loose rest) (field : List UInt8 × List UInt8) :
    Loose (32 :: (influxPair field ++ rest)) := by
  have first := loose.pair field []
  refine loose_cons rfl (.inr (.inl ⟨readLine (escapeInflux field.1 ++ 61 :: escapeInflux field.2 ++ rest), ?_⟩)) first
  rw [influxPair, List.cons_append, List.cons_append, readLine_cons fun backslash => by cases backslash]
  rfl

theorem timestamp_plain {timestamp : Int} : ∀ c ∈ timestampText timestamp, c ≠ 92 ∧ influxSpecial c = false := by
  have digit {c : UInt8} (digit : Digit c) : c ≠ 92 ∧ influxSpecial c = false := by
    obtain ⟨low, high⟩ := digit
    simp only [influxSpecial, Bool.or_eq_false_iff, beq_eq_false_iff_ne]
    refine ⟨?_, ⟨?_, ?_⟩, ?_⟩ <;> rintro rfl
    · exact absurd high (by decide)
    · exact absurd low (by decide)
    · exact absurd low (by decide)
    · exact absurd high (by decide)
  intro c member
  rw [timestampText] at member
  split at member
  · obtain rfl | member := List.mem_cons.1 member
    · decide
    · exact digit (decimal_digits c member)
  · exact digit (decimal_digits c member)

theorem readLine_plain (plain : ∀ c ∈ text, c ≠ 92) (rest : List UInt8) :
    readLine (text ++ rest) = text.map (fun c => (c, influxSpecial c || c == 10)) ++ readLine rest := by
  induction text with
  | nil => rfl
  | cons c text ih =>
    obtain ⟨other, plain⟩ := List.forall_mem_cons.1 plain
    rw [List.cons_append, readLine_cons fun backslash => absurd backslash other, ih plain]
    rfl

/-- No separator but the newline is behind the last blank. -/
theorem loose_timestamp (timestamp : Int) : Loose (32 :: (timestampText timestamp ++ [10])) := by
  have read : ∀ unit ∈ readLine (timestampText timestamp ++ [10]), unit ≠ (32, true) ∧ unit ≠ (61, true) := by
    rw [readLine_plain fun c member => (timestamp_plain c member).1]
    intro unit member
    obtain inside | last := List.mem_append.1 member
    · obtain ⟨c, present, rfl⟩ := List.mem_map.1 inside
      have plain := (timestamp_plain c present).2
      constructor
      · intro same
        obtain ⟨rfl, -⟩ := Prod.mk.inj same
        cases plain
      · intro same
        obtain ⟨rfl, -⟩ := Prod.mk.inj same
        cases plain
    · obtain rfl : unit = (10, true) := by simpa [readLine, influxSpecial] using last
      decide
  have none : (32, true) ∉ readLine (timestampText timestamp ++ [10]) := fun member => (read _ member).1 rfl
  apply loose_cons rfl
  · refine .inr (.inr fun member => ?_)
    obtain same | later := List.mem_cons.1 ((List.dropWhile_sublist _).subset member)
    · cases same
    · exact (read _ later).2 rfl
  · have nothing := fromBlank_append none []
    rw [List.append_nil] at nothing
    exact .inl nothing

theorem misplaced_influxlog {event : InfluxlogEvent} (plain : ∀ c ∈ event.measurement, influxSpecial c = false)
    (some : event.fields.entries ≠ []) : Misplaced (readLine (influxlog event)) := by
  obtain ⟨field, fields, split⟩ := List.exists_cons_of_ne_nil some
  have measurement : escapeInflux event.measurement = event.measurement := by
    rw [escapeInflux]
    conv_rhs => rw [← List.flatMap_singleton' event.measurement]
    apply List.flatMap_congr
    intro c member
    rw [plain c member]
    rfl
  have loose := (((loose_timestamp event.timestamp).fields fields).firstField field).pairs event.tags.entries
  have whole := loose event.measurement
  rw [measurement] at whole
  simpa [influxlog, split, influxFields] using whole

/-- In the form, the first blank has a field behind it. -/
theorem lineForm_not_misplaced (measurement timestamp : List UInt8) (tags : List (List UInt8 × List UInt8))
    {fields : List (List UInt8 × List UInt8)} (some : fields ≠ []) :
    ¬ Misplaced (lineForm measurement tags fields timestamp) := by
  obtain ⟨field, fields, rfl⟩ := List.exists_cons_of_ne_nil some
  have quiet : (32, true) ∉ word measurement ++ tags.flatMap (fun tag => (44, true) :: pairForm tag) := by
    simp [word, pairForm]
  obtain ⟨rest, front⟩ : ∃ rest, [(44, true)].intercalate ((field :: fields).map pairForm) = pairForm field ++ rest := by
    cases fields with
    | nil => exact ⟨[], by simp [List.intercalate]⟩
    | cons other fields => exact ⟨_, by simp [List.intercalate]; rfl⟩
  have from_blank : fromBlank (lineForm measurement tags (field :: fields) timestamp) =
      (32, true) :: (pairForm field ++ (rest ++ (32, true) :: word timestamp ++ [(10, true)])) := by
    rw [lineForm, front, List.append_assoc, List.append_assoc, fromBlank_append quiet]
    simp [fromBlank]
  rw [Misplaced, from_blank]
  rintro (none | ⟨behind, comma⟩ | unmarked)
  · cases none
  · obtain ⟨key, value⟩ := field
    cases key <;> simp [pairForm, word] at comma
  · simp [pairForm] at unmarked

/-- No line for an event with a field has the form: there is a comma too many before each field. -/
theorem influx_line_malformed (event : InfluxlogEvent) (plain : ∀ c ∈ event.measurement, influxSpecial c = false)
    (some : event.fields.entries ≠ []) : ¬ HasLineForm (influxlog event) := by
  rintro ⟨measurement, tags, fields, timestamp, present, form⟩
  have misplaced := misplaced_influxlog plain some
  rw [form] at misplaced
  exact lineForm_not_misplaced measurement timestamp tags present misplaced

def oneEntry (key value : List UInt8) : OrderedStrings := ⟨[(key, value)], by simp⟩

/-- `m f=v 5` is meant, and `m ,f=v 5` is written. -/
def plainEvent : InfluxlogEvent := ⟨[109], ⟨[], by simp⟩, oneEntry [102] [118], 5⟩

theorem plainEvent_malformed : ¬ HasLineForm (influxlog plainEvent) :=
  influx_line_malformed plainEvent (by simp [plainEvent, influxSpecial]) (by simp [plainEvent, oneEntry])

/-- The tag `a` with a backslash has the value `b=c` in one event, and the tag `a=b` with a backslash has the
value `c` in the other. -/
def taggedEvent (key value : List UInt8) : InfluxlogEvent := ⟨[109], oneEntry key value, oneEntry [102] [118], 5⟩

/-- A line of one field is not of the form, and two events have one line. -/
theorem lines_coincide : ¬ (HasLineForm (influxlog plainEvent) ∨
    ∀ one two, influxlog one = influxlog two → one.tags.entries = two.tags.entries) := by
  rintro (form | injective)
  · obtain ⟨measurement, tags, fields, timestamp, present, form⟩ := form
    have misplaced : Misplaced (readLine (influxlog plainEvent)) :=
      misplaced_influxlog (by simp [plainEvent, influxSpecial]) (by simp [plainEvent, oneEntry])
    exact lineForm_not_misplaced measurement timestamp tags present (form ▸ misplaced)
  · have same := injective (taggedEvent [97, 92] [98, 61, 99]) (taggedEvent [97, 61, 98, 92] [99]) (by decide)
    revert same
    decide

end Cassobee.Proofs
