import Cassobee.Cmysql

/-! Which argument is bound to which placeholder, and the placeholders of an insert statement. -/

namespace Cassobee.Proofs
open Connection

variable {α : Type}

/-- The ways to bind a list of arguments. -/
inductive BindForm where
  | update (connected : Bool) | query (connected : Bool) | updateTuple (connected : Bool) | queryTuple (connected : Bool)
  | insertStream
  deriving DecidableEq, Repr

/-- The statement that is executed with the arguments bound, if there is one. -/
def BindForm.prepared (sql : List UInt8) (args : List α) : BindForm → Option (Dbpstmt α)
  | .update connected => executeUpdate connected sql args
  | .query connected => executeQuery connected sql args
  | .updateTuple connected => executeUpdateTuple connected sql args
  | .queryTuple connected => executeQueryTuple connected sql args
  | .insertStream => ((InsertStream.create (.prepareStatement sql)).put args).map (·.stmt)

/-- Argument `k` is bound to index `k`, each once and nothing else. -/
def BindsEach (sql : List UInt8) (args : List α) (form : BindForm) : Prop :=
  ∃ stmt, form.prepared sql args = some stmt ∧ stmt.bound.Perm (args.zipIdx 1)

/-- As many question marks as fields between the parentheses, with commas between them. Blanks do not count. -/
def PlaceholdersRight (name : List UInt8) (fields : Nat) : Prop :=
  ∃ list,
    insertSql name fields = asciiBytes "INSERT INTO `" ++ name ++ asciiBytes "` VALUES (" ++ list ++ asciiBytes ")" ∧
    list.filter (· ≠ 32) = (List.replicate fields 63).intersperse 44

/-- The fold increments the index before it is used. -/
theorem bindAll_bound (index : Nat) (args : List α) (stmt : Dbpstmt α) :
    (Dbpstmt.bindAll index args stmt).bound = stmt.bound ++ args.zipIdx (index + 1) := by
  induction args generalizing index stmt with
  | nil => simp [Dbpstmt.bindAll]
  | cons value args ih =>
    rw [Dbpstmt.bindAll, ih, List.zipIdx_cons]
    simp [Dbpstmt.bind]

/-- Index 1 is left out. -/
theorem bindAll_skips (sql : List UInt8) (value : α) (args : List α) :
    ¬ (Dbpstmt.bindAll 1 (value :: args) (.prepareStatement sql)).bound.Perm ((value :: args).zipIdx 1) := by
  intro same
  have first : (value, 1) ∈ (value :: args).zipIdx 1 := by simp
  rw [← same.mem_iff, bindAll_bound] at first
  have late : 3 ≤ 1 := List.le_snd_of_mem_zipIdx (by simpa [Dbpstmt.prepareStatement] using first)
  exact absurd late (by decide)

theorem mem_intersperse_replicate {fields : Nat} {mark separator byte : UInt8}
    (member : byte ∈ (List.replicate fields mark).intersperse separator) : byte = mark ∨ byte = separator := by
  obtain ⟨i, inside, rfl⟩ := List.getElem_of_mem member
  rw [List.getElem_intersperse]
  split
  · exact .inl (by simp)
  · exact .inr rfl

/-- There is a dot in place of the last comma, and none of the others. -/
theorem not_placeholdersRight (name : List UInt8) (others : Nat) : ¬ PlaceholdersRight name (others + 1) := by
  rintro ⟨list, same, marks⟩
  have dot : (46 : UInt8) ∈ list ++ asciiBytes ")" := by
    rw [insertSql] at same
    simp only [List.append_assoc, List.append_cancel_left_eq] at same
    rw [← same]
    simp [asciiBytes]
  have inside : (46 : UInt8) ∈ list.filter (· ≠ 32) := by
    apply List.mem_filter.2
    refine ⟨?_, by decide⟩
    simpa [asciiBytes] using dot
  rw [marks] at inside
  obtain wrong | wrong := mem_intersperse_replicate inside
  · exact absurd wrong (by decide)
  · exact absurd wrong (by decide)

/-- Of the ways to bind, the stream is the one that begins at index 1, and it takes one argument; the text of
the insert statement has no commas. -/
theorem sql_binding_iff (sql name : List UInt8) (value : α) (args : List α) :
    (∀ form, BindsEach sql (value :: args) form ↔ form = .insertStream ∧ args = []) ∧
      ¬ PlaceholdersRight name (args.length + 1) := by
  refine ⟨fun form => ?_, not_placeholdersRight name args.length⟩
  have skips := bindAll_skips sql value args
  constructor
  · rintro ⟨stmt, prepared, bound⟩
    cases form with
    | insertStream =>
      cases args with
      | nil => exact ⟨rfl, rfl⟩
      | cons => cases prepared
    | queryTuple connected => cases prepared
    | update connected | query connected | updateTuple connected =>
      cases connected
      · cases prepared
      · cases prepared
        exact absurd bound skips
  · rintro ⟨rfl, rfl⟩
    exact ⟨_, rfl, .refl _⟩

/-- An update with one argument binds it to index 2. -/
theorem first_index_lost : ¬ BindsEach (asciiBytes "DELETE FROM t WHERE id = ?") [(7 : Int)] (.update true) := by
  rintro ⟨stmt, prepared, bound⟩
  cases prepared
  have same := bound.symm.subset (List.mem_cons_self ..)
  revert same
  decide

end Cassobee.Proofs
