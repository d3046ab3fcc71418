import Cassobee.Octets
import Mathlib.Data.Multiset.UnionInter

/-! The value types that the stream can carry, as the language and its library give them: object
representations of plain data, and the standard containers behind one interface. A container is
what its iteration shows and what inserting makes of it. -/

namespace Cassobee

/-- The object representation of a plain-old-data type, in memory order. -/
structure Pod (α : Type) where
  size : Nat
  bounded : size < 2 ^ 63
  toBytes : α → List UInt8
  ofBytes : List UInt8 → α
  length_toBytes : ∀ value, (toBytes value).length = size
  ofBytes_toBytes : ∀ value, ofBytes (toBytes value) = value

/-- The `count` low bytes of a number, lowest first: the memory order of a little-endian host. -/
def littleEndian : Nat → Nat → List UInt8
  | 0, _ => []
  | count + 1, value => UInt8.ofNat (value % 256) :: littleEndian count (value / 256)

def ofLittleEndian (bytes : List UInt8) : Nat := bytes.foldr (fun byte value => byte.toNat + 256 * value) 0

theorem length_littleEndian (count value : Nat) : (littleEndian count value).length = count := by
  induction count generalizing value with
  | zero => rfl
  | succ count ih => simp [littleEndian, ih]

theorem ofLittleEndian_littleEndian (count value : Nat) :
    ofLittleEndian (littleEndian count value) = value % 256 ^ count := by
  induction count generalizing value with
  | zero => simp [littleEndian, ofLittleEndian, Nat.mod_one]
  | succ count ih =>
    have byte : (UInt8.ofNat (value % 256)).toNat = value % 256 := by rw [UInt8.toNat_ofNat']; omega
    have rest := ih (value / 256)
    simp only [ofLittleEndian] at rest
    simp only [littleEndian, ofLittleEndian, List.foldr_cons, byte, rest]
    rw [Nat.pow_succ, Nat.mul_comm (256 ^ count) 256, Nat.mod_mul]

namespace Pod

/-- A machine word of `count` bytes. -/
def word (count : Nat) (small : count < 2 ^ 63) : Pod (BitVec (8 * count)) where
  size := count
  bounded := small
  toBytes value := littleEndian count value.toNat
  ofBytes bytes := BitVec.ofNat _ (ofLittleEndian bytes)
  length_toBytes value := length_littleEndian count value.toNat
  ofBytes_toBytes value := by
    rw [ofLittleEndian_littleEndian]
    apply BitVec.eq_of_toNat_eq
    rw [BitVec.toNat_ofNat, show 256 ^ count = 2 ^ (8 * count) by rw [Nat.pow_mul], Nat.mod_mod]
    exact Nat.mod_eq_of_lt value.isLt

/-- `char` and the other integers of one byte. -/
def byte : Pod UInt8 where
  size := 1
  bounded := by decide
  toBytes value := [value]
  ofBytes bytes := bytes.headD 0
  length_toBytes _ := rfl
  ofBytes_toBytes _ := rfl

def bool : Pod Bool where
  size := 1
  bounded := by decide
  toBytes value := [if value then 1 else 0]
  ofBytes bytes := bytes.headD 0 != 0
  length_toBytes _ := rfl
  ofBytes_toBytes value := by cases value <;> rfl

end Pod

/-- The widths at which `compact_int` codes an integer; one byte is stored as it is. -/
inductive IntWidth where
  | w16 | w32 | w64
  deriving DecidableEq, Repr

def IntWidth.bits : IntWidth → Nat
  | .w16 => 16
  | .w32 => 32
  | .w64 => 64

def IntWidth.pod : (w : IntWidth) → Pod (BitVec w.bits)
  | .w16 => Pod.word 2 (by decide)
  | .w32 => Pod.word 4 (by decide)
  | .w64 => Pod.word 8 (by decide)

/-- The plain data that a `std::vector` stores contiguously. `bool` is missing: `std::vector<bool>`
has no `data()`, so that neither `push_container` nor `pop_container` compiles for it. -/
inductive Scalar : Type → Type 1 where
  | int (signed : Bool) (w : IntWidth) : Scalar (BitVec w.bits)
  | raw {α : Type} (pod : Pod α) : Scalar α

def Scalar.pod {α : Type} : Scalar α → Pod α
  | .int _ w => w.pod
  | .raw pod => pod

/-- The `max_size()` of a container, and the number of elements up to which the allocator has `room`. -/
structure MaxSize where
  count : Nat
  room : Nat
  positive : 0 < room
  within : room ≤ count
  bounded : count < 2 ^ 63

/-- What the runs on fixed values take. -/
def MaxSize.thousand : MaxSize := ⟨1000, 1000, by decide, by decide, by decide⟩

theorem MaxSize.lt_of_le_room (maxSize : MaxSize) {size : Nat} (fits : size ≤ maxSize.room) : size < 2 ^ 63 :=
  Nat.lt_of_le_of_lt (Nat.le_trans fits maxSize.within) maxSize.bounded

/-- `std::basic_string` or `std::vector` of plain data. -/
structure Contiguous (α : Type) where
  scalar : Scalar α
  maxSize : MaxSize
  bounded : maxSize.count * scalar.pod.size < 2 ^ 63

theorem Contiguous.bytes_lt {α : Type} (kind : Contiguous α) {size : Nat} (fits : size ≤ kind.maxSize.room) :
    size * kind.scalar.pod.size < 2 ^ 63 :=
  Nat.lt_of_le_of_lt (Nat.mul_le_mul_right _ (Nat.le_trans fits kind.maxSize.within)) kind.bounded

/-- The interface through which `push_container` and `pop_container` use the other containers. -/
structure Container (α : Type) where
  Content : Type
  empty : Content
  elements : Content → List α
  insert : Content → α → Content
  canReserve : Bool
  maxSize : MaxSize
  rebuild : ∀ content, (elements content).foldl insert empty = content
  elements_empty : elements empty = []
  elements_single : ∀ element, elements (insert empty element) = [element]

namespace Container
variable {α κ : Type}

private theorem foldl_concat (head tail : List α) :
    tail.foldl (fun content element => content ++ [element]) head = head ++ tail := by
  induction tail generalizing head with
  | nil => simp
  | cons element tail ih => simp [ih]

def sequence (maxSize : MaxSize) (canReserve : Bool) : Container α where
  Content := List α
  empty := []
  elements content := content
  insert content element := content ++ [element]
  canReserve
  maxSize
  rebuild content := by simpa using foldl_concat [] content
  elements_empty := rfl
  elements_single _ := rfl

def vector (maxSize : MaxSize) : Container α := sequence maxSize true

def list (maxSize : MaxSize) : Container α := sequence maxSize false

def deque (maxSize : MaxSize) : Container α := sequence maxSize false

/-- The comparison of an ordered container. -/
structure Compare (κ : Type) where
  lt : κ → κ → Bool
  irrefl : ∀ a, lt a a = false
  trans : ∀ a b c, lt a b = true → lt b c = true → lt a c = true

theorem Compare.asymm (compare : Compare κ) {a b : κ} (less : compare.lt a b = true) : compare.lt b a = false := by
  cases greater : compare.lt b a with
  | false => rfl
  | true => exact absurd (compare.trans a b a less greater) (by simp [compare.irrefl])

section Ordered
variable (compare : Compare κ) (key : α → κ)

/-- `insert` of a container with unique keys: an equivalent element is left in place. -/
def insertUnique (element : α) : List α → List α
  | [] => [element]
  | head :: tail =>
    if compare.lt (key element) (key head) then element :: head :: tail
    else if compare.lt (key head) (key element) then head :: insertUnique element tail
    else head :: tail

/-- `insert` of a multi container, behind the elements of an equivalent key. -/
def insertMulti (element : α) : List α → List α
  | [] => [element]
  | head :: tail =>
    if compare.lt (key element) (key head) then element :: head :: tail
    else head :: insertMulti element tail

def Increasing (content : List α) : Prop := content.Pairwise fun a b => compare.lt (key a) (key b) = true

def Monotone (content : List α) : Prop := content.Pairwise fun a b => compare.lt (key b) (key a) = false

theorem mem_insertUnique {element other : α} {content : List α}
    (member : other ∈ insertUnique compare key element content) : other = element ∨ other ∈ content := by
  induction content with
  | nil => exact Or.inl (List.mem_singleton.mp member)
  | cons head tail ih =>
    unfold insertUnique at member
    split at member
    · exact List.mem_cons.mp member
    · split at member
      · rcases List.mem_cons.mp member with rfl | inside
        · exact Or.inr (by simp)
        · exact (ih inside).imp_right (by simp +contextual)
      · exact Or.inr member

theorem mem_insertMulti {element other : α} {content : List α}
    (member : other ∈ insertMulti compare key element content) : other = element ∨ other ∈ content := by
  induction content with
  | nil => exact Or.inl (List.mem_singleton.mp member)
  | cons head tail ih =>
    unfold insertMulti at member
    split at member
    · exact List.mem_cons.mp member
    · rcases List.mem_cons.mp member with rfl | inside
      · exact Or.inr (by simp)
      · exact (ih inside).imp_right (by simp +contextual)

theorem insertUnique_increasing (element : α) {content : List α} (sorted : Increasing compare key content) :
    Increasing compare key (insertUnique compare key element content) := by
  induction content with
  | nil => exact List.pairwise_singleton ..
  | cons head tail ih =>
    obtain ⟨above, rest⟩ := List.pairwise_cons.mp sorted
    unfold insertUnique
    split
    next less =>
      refine List.pairwise_cons.mpr ⟨?_, sorted⟩
      intro other member
      rcases List.mem_cons.mp member with rfl | inside
      · exact less
      · exact compare.trans _ _ _ less (above other inside)
    next =>
      split
      next greater =>
        refine List.pairwise_cons.mpr ⟨?_, ih rest⟩
        intro other member
        rcases mem_insertUnique compare key member with rfl | inside
        · exact greater
        · exact above other inside
      next => exact sorted

theorem insertMulti_monotone (element : α) {content : List α} (sorted : Monotone compare key content) :
    Monotone compare key (insertMulti compare key element content) := by
  induction content with
  | nil => exact List.pairwise_singleton ..
  | cons head tail ih =>
    obtain ⟨above, rest⟩ := List.pairwise_cons.mp sorted
    unfold insertMulti
    split
    next less =>
      refine List.pairwise_cons.mpr ⟨?_, sorted⟩
      intro other member
      rcases List.mem_cons.mp member with rfl | inside
      · exact compare.asymm less
      · cases before : compare.lt (key other) (key element) with
        | false => rfl
        | true => exact absurd (compare.trans _ _ _ before less) (by simp [above other inside])
    next notLess =>
      refine List.pairwise_cons.mpr ⟨?_, ih rest⟩
      intro other member
      rcases mem_insertMulti compare key member with rfl | inside
      · simpa using notLess
      · exact above other inside

/-- An element above all others is inserted at the end. -/
theorem insertUnique_last {element : α} {content : List α}
    (above : ∀ other ∈ content, compare.lt (key other) (key element) = true) :
    insertUnique compare key element content = content ++ [element] := by
  induction content with
  | nil => rfl
  | cons head tail ih =>
    have less := above head (by simp)
    rw [insertUnique, compare.asymm less, less, ih (fun other member => above other (by simp [member]))]
    simp

theorem insertMulti_last {element : α} {content : List α}
    (above : ∀ other ∈ content, compare.lt (key element) (key other) = false) :
    insertMulti compare key element content = content ++ [element] := by
  induction content with
  | nil => rfl
  | cons head tail ih =>
    rw [insertMulti, above head (by simp), ih (fun other member => above other (by simp [member]))]
    simp

/-- A loop that appends each element of a related list rebuilds the list. -/
private theorem foldl_rebuild {Sorted : List α → Prop} (insert : Subtype Sorted → α → Subtype Sorted)
    {related : α → α → Prop}
    (last : ∀ (content : Subtype Sorted) element, (∀ other ∈ content.val, related other element) →
      (insert content element).val = content.val ++ [element])
    (head : Subtype Sorted) (tail : List α) (sorted : (head.val ++ tail).Pairwise related) :
    (tail.foldl insert head).val = head.val ++ tail := by
  induction tail generalizing head with
  | nil => simp
  | cons element tail ih =>
    have above : ∀ other ∈ head.val, related other element := by
      intro other member
      exact (List.pairwise_append.mp sorted).2.2 other member element (by simp)
    have step := last head element above
    rw [List.foldl_cons, ih (insert head element) (by rw [step]; simpa using sorted), step]
    simp

def orderedUnique (maxSize : MaxSize) : Container α where
  Content := { content : List α // Increasing compare key content }
  empty := ⟨[], List.Pairwise.nil⟩
  elements content := content.val
  insert content element :=
    ⟨insertUnique compare key element content.val, insertUnique_increasing compare key element content.property⟩
  canReserve := false
  maxSize
  rebuild content := by
    apply Subtype.ext
    exact foldl_rebuild _ (fun content _ above => insertUnique_last compare key above) ⟨[], .nil⟩
      content.val content.property
  elements_empty := rfl
  elements_single _ := rfl

def orderedMulti (maxSize : MaxSize) : Container α where
  Content := { content : List α // Monotone compare key content }
  empty := ⟨[], List.Pairwise.nil⟩
  elements content := content.val
  insert content element :=
    ⟨insertMulti compare key element content.val, insertMulti_monotone compare key element content.property⟩
  canReserve := false
  maxSize
  rebuild content := by
    apply Subtype.ext
    exact foldl_rebuild _ (fun content _ above => insertMulti_last compare key above) ⟨[], .nil⟩
      content.val content.property
  elements_empty := rfl
  elements_single _ := rfl

end Ordered

def set (compare : Compare α) (maxSize : MaxSize) : Container α := orderedUnique compare id maxSize

def multiset (compare : Compare α) (maxSize : MaxSize) : Container α := orderedMulti compare id maxSize

def map (compare : Compare κ) (maxSize : MaxSize) : Container (κ × α) := orderedUnique compare Prod.fst maxSize

def multimap (compare : Compare κ) (maxSize : MaxSize) : Container (κ × α) := orderedMulti compare Prod.fst maxSize

/-- The order in which a hash table happens to show its elements. Two tables are equal when they
hold the same elements, whatever their order. -/
structure IterationOrder (α : Type) where
  toList : Multiset α → List α
  coe_toList : ∀ content, (toList content : Multiset α) = content

theorem IterationOrder.toList_zero (order : IterationOrder α) : order.toList 0 = [] :=
  (Multiset.coe_eq_zero _).mp (order.coe_toList 0)

theorem IterationOrder.toList_single (order : IterationOrder α) (element : α) :
    order.toList (element ::ₘ 0) = [element] := by
  have same := order.coe_toList (element ::ₘ 0)
  exact List.perm_singleton.mp (Multiset.coe_eq_coe.mp (same.trans (Multiset.coe_singleton element).symm))

section Unordered
variable [DecidableEq κ] (key : α → κ) (order : IterationOrder α)

def insertKey (content : { content : Multiset α // (content.map key).Nodup }) (element : α) :
    { content : Multiset α // (content.map key).Nodup } :=
  if present : key element ∈ content.val.map key then content
  else ⟨element ::ₘ content.val, by
    rw [Multiset.map_cons]
    exact Multiset.nodup_cons.mpr ⟨present, content.property⟩⟩

private theorem foldl_insertKey (tail : List α) (head : { content : Multiset α // (content.map key).Nodup })
    (distinct : ((head.val + tail).map key).Nodup) :
    (tail.foldl (insertKey key) head).val = head.val + tail := by
  induction tail generalizing head with
  | nil => simp
  | cons element tail ih =>
    have shape : head.val + ((element :: tail : List α) : Multiset α) = (element ::ₘ head.val) + tail := by
      rw [← Multiset.cons_coe, Multiset.add_cons, Multiset.cons_add]
    have absent : key element ∉ head.val.map key := by
      rw [shape, Multiset.cons_add, Multiset.map_cons, Multiset.nodup_cons] at distinct
      intro present
      apply distinct.1
      rw [Multiset.map_add]
      exact Multiset.mem_add.mpr (Or.inl present)
    have step : (insertKey key head element).val = element ::ₘ head.val := by simp [insertKey, absent]
    rw [List.foldl_cons, ih (insertKey key head element) (by rw [step, ← shape]; exact distinct), step, shape]

def unorderedUnique (maxSize : MaxSize) : Container α where
  Content := { content : Multiset α // (content.map key).Nodup }
  empty := ⟨0, by simp⟩
  elements content := order.toList content.val
  insert := insertKey key
  canReserve := true
  maxSize
  rebuild content := by
    apply Subtype.ext
    rw [foldl_insertKey key _ _ (by rw [order.coe_toList]; simpa using content.property), order.coe_toList]
    simp
  elements_empty := order.toList_zero
  elements_single element := by
    rw [show (insertKey key ⟨0, by simp⟩ element).val = element ::ₘ 0 by simp [insertKey], order.toList_single]

end Unordered

def unorderedMultiset (order : IterationOrder α) (maxSize : MaxSize) : Container α where
  Content := Multiset α
  empty := 0
  elements content := order.toList content
  insert content element := element ::ₘ content
  canReserve := true
  maxSize
  rebuild content := by
    have grows : ∀ (tail : List α) (head : Multiset α),
        tail.foldl (fun content element => element ::ₘ content) head = head + tail := by
      intro tail
      induction tail with
      | nil => simp
      | cons element tail ih =>
        intro head
        rw [List.foldl_cons, ih, ← Multiset.cons_coe, Multiset.add_cons, Multiset.cons_add]
    rw [grows, order.coe_toList, Multiset.zero_add]
  elements_empty := order.toList_zero
  elements_single element := order.toList_single element

def unorderedSet [DecidableEq α] (order : IterationOrder α) (maxSize : MaxSize) : Container α :=
  unorderedUnique id order maxSize

def unorderedMap [DecidableEq κ] (order : IterationOrder (κ × α)) (maxSize : MaxSize) : Container (κ × α) :=
  unorderedUnique Prod.fst order maxSize

def unorderedMultimap (order : IterationOrder (κ × α)) (maxSize : MaxSize) : Container (κ × α) :=
  unorderedMultiset order maxSize

end Container
end Cassobee
