import Cassobee.BlockList
import Cassobee.Support.Chain
import Cassobee.Support.Refinement

/-! A `block_list` is a map from positions to values, but at the position behind its last block. -/

namespace Cassobee.Proofs
open Support BlockList

variable {T : Type} {zero : T} {list : BlockList T} {values : UInt64 → T} {action : BlockAction T} {k : Nat}

/-- What a list is for. -/
def accessMap (values : UInt64 → T) : BlockAction T → Option T × (UInt64 → T)
  | .insert pos value => (none, Function.update values pos value)
  | .read pos => (some (values pos), values)
  | .write pos value => (none, Function.update values pos value)

/-- The chain of the blocks, and the sizes. -/
structure ChainOfBlocks (list : BlockList T) : Prop where
  chain : ∃ nodes, Chain (fun block => (list.blocks block).next) list.blockMap nodes ∧
    nodes.length = list.blockSize.toNat ∧ nodes.getLast? = list.tail
  maxSize : list.maxSize.toNat = 128 * list.blockSize.toNat

/-- The position is not the one behind the last block, and the blocks up to it can be counted. -/
def WithinReach (list : BlockList T) : BlockAction T → Prop
  | .insert pos _ => pos.toNat < list.maxSize.toNat ∨ pos.toNat + 1 < 2 ^ 64 - 128
  | .read pos => pos.toNat < list.maxSize.toNat ∨ list.maxSize.toNat < pos.toNat ∧ pos.toNat < 2 ^ 64 - 128
  | .write pos _ => pos.toNat < list.maxSize.toNat ∨ list.maxSize.toNat < pos.toNat ∧ pos.toNat < 2 ^ 64 - 128

/-! ## Blocks in a row -/

/-- The last of so many blocks. -/
def lastOf : Nat → Option Nat
  | 0 => none
  | count + 1 => some count

/-- The first blocks that were made, each linked to the next one. -/
structure InRow (list : BlockList T) (count : Nat) : Prop where
  made : list.made = count
  first : list.blockMap = if count = 0 then none else some 0
  links : ∀ block < count, (list.blocks block).next = if block + 1 < count then some (block + 1) else none

namespace InRow

theorem follow (row : InRow list k) (which block : Nat) (inside : block + which < k) :
    list.follow which (some block) = some (some (block + which)) := by
  induction which generalizing block with
  | zero => rfl
  | succ which ih =>
    rw [BlockList.follow, row.links block (by omega), if_pos (by omega), ih (block + 1) (by omega)]
    congr 2
    omega

/-- Behind the last block there is none to go on from. -/
theorem follow_behind (row : InRow list k) (which block : Nat) (behind : k ≤ block + which) (inside : block < k) :
    list.follow which (some block) = some none ∨ list.follow which (some block) = none := by
  induction which generalizing block with
  | zero => omega
  | succ which ih =>
    rw [BlockList.follow, row.links block inside]
    split
    next more => exact ih (block + 1) (by omega) more
    next last =>
      cases which with
      | zero => exact .inl rfl
      | succ => exact .inr rfl

end InRow

/-! ## One more block -/

section
variable (zero : T) (list : BlockList T) (last : Bool) (prev : Option Nat)

theorem appendBlock_made : (list.appendBlock zero last prev).made = list.made + 1 := by
  cases last <;> cases prev <;> rfl

theorem appendBlock_blockMap : (list.appendBlock zero last prev).blockMap = (list.createBlock zero).blockMap := by
  cases last <;> cases prev <;> rfl

theorem appendBlock_tail : (list.appendBlock zero last prev).tail = if last then some list.made else list.tail := by
  cases last <;> cases prev <;> rfl

theorem appendBlock_sizes : (list.appendBlock zero last prev).blockSize = list.blockSize ∧
    (list.appendBlock zero last prev).maxSize = list.maxSize := by
  cases last <;> cases prev <;> exact ⟨rfl, rfl⟩

theorem allocateLoop_sizes (left : Nat) : (list.allocateLoop zero left prev).blockSize = list.blockSize ∧
    (list.allocateLoop zero left prev).maxSize = list.maxSize := by
  induction left generalizing list prev with
  | zero => exact ⟨rfl, rfl⟩
  | succ left ih =>
    have rest := ih (list.appendBlock zero (left = 0) prev) (some list.made)
    rwa [(appendBlock_sizes zero list (left = 0) prev).1, (appendBlock_sizes zero list (left = 0) prev).2] at rest

theorem allocate_sizes (more : UInt64) : (list.allocate zero more).blockSize = list.blockSize + more ∧
    (list.allocate zero more).maxSize = list.maxSize + more * itemsCountPerBlock := by
  obtain ⟨blockSize, maxSize⟩ := allocateLoop_sizes zero list list.tail more.toNat
  exact ⟨congrArg (· + more) blockSize, congrArg (· + more * itemsCountPerBlock) maxSize⟩

theorem setNext_items (next : Option Nat) (block other : Nat) :
    ((list.setNext block next).blocks other).items = (list.blocks other).items := by
  simp only [setNext, Function.update_apply]
  split
  next here => rw [here]
  next => rfl

theorem setNext_next (next : Option Nat) (block other : Nat) :
    ((list.setNext block next).blocks other).next = if other = block then next else (list.blocks other).next := by
  simp only [setNext, Function.update_apply]
  split <;> rfl

theorem createBlock_items (block : Nat) : ((list.createBlock zero).blocks block).items =
    if block = list.made then fun _ => zero else (list.blocks block).items := by
  simp only [createBlock, Function.update_apply]
  split <;> rfl

theorem createBlock_next (block : Nat) : ((list.createBlock zero).blocks block).next =
    if block = list.made then none else (list.blocks block).next := by
  simp only [createBlock, Function.update_apply]
  split <;> rfl

theorem appendBlock_items (block : Nat) : ((list.appendBlock zero last prev).blocks block).items =
    if block = list.made then fun _ => zero else (list.blocks block).items := by
  rw [← createBlock_items]
  cases last <;> cases prev <;> simp only [appendBlock, setNext_items, if_true, if_false, Bool.false_eq_true]

theorem appendBlock_next (block : Nat) : ((list.appendBlock zero last prev).blocks block).next =
    if prev = some block then some list.made else if block = list.made then none else (list.blocks block).next := by
  have created := createBlock_next zero list block
  cases last <;> cases prev <;>
    simp only [appendBlock, setNext_next, if_true, if_false, Bool.false_eq_true, created, reduceCtorEq, Option.some.injEq, eq_comm] <;>
    grind

end

theorem InRow.append (row : InRow list k) (zero : T) (last : Bool) : InRow (list.appendBlock zero last (lastOf k)) (k + 1) := by
  refine ⟨by rw [appendBlock_made, row.made], ?_, fun block inside => ?_⟩
  · rw [appendBlock_blockMap, createBlock, row.made, row.first, if_neg (Nat.succ_ne_zero k)]
    cases k <;> rfl
  · rw [appendBlock_next, row.made]
    cases k with
    | zero =>
      obtain rfl : block = 0 := by omega
      rfl
    | succ k =>
      simp only [lastOf, Option.some.injEq]
      by_cases previous : k = block
      · rw [if_pos previous, if_pos (by omega), previous]
      · rw [if_neg previous]
        by_cases newest : block = k + 1
        · rw [if_pos newest, if_neg (by omega)]
        · rw [if_neg newest, row.links block (by omega), if_pos (by omega), if_pos (by omega)]

/-- What the loop does to a list whose blocks are in a row. -/
structure Extended (zero : T) (list after : BlockList T) (k left : Nat) : Prop where
  row : InRow after (k + left)
  tail : after.tail = if left = 0 then list.tail else lastOf (k + left)
  items : ∀ block < k + left, (after.blocks block).items = if k ≤ block then fun _ => zero else (list.blocks block).items

theorem InRow.allocateLoop (row : InRow list k) (zero : T) (left : Nat) :
    Extended zero list (list.allocateLoop zero left (lastOf k)) k left := by
  induction left generalizing list k with
  | zero =>
    refine ⟨row, rfl, fun block inside => ?_⟩
    rw [if_neg (by omega)]
    rfl
  | succ left ih =>
    have newest : some list.made = lastOf (k + 1) := congrArg some row.made
    have rest := ih (row.append zero (left = 0))
    rw [← newest] at rest
    have total : k + 1 + left = k + (left + 1) := by omega
    rw [BlockList.allocateLoop]
    refine ⟨total ▸ rest.row, ?_, fun block inside => ?_⟩
    · rw [rest.tail, appendBlock_tail, if_neg (Nat.succ_ne_zero left), total]
      by_cases last : left = 0
      · rw [if_pos last, decide_eq_true last, if_pos rfl, last]
        exact newest
      · rw [if_neg last]
    · rw [rest.items block (by omega), appendBlock_items, row.made]
      by_cases old : block < k
      · rw [if_neg (by omega), if_neg (by omega), if_neg (by omega)]
      · rw [if_pos (show k ≤ block by omega)]
        by_cases first : block = k
        · rw [if_neg (by omega), if_pos first]
        · rw [if_pos (by omega)]

/-! ## The map -/

/-- The blocks that were made are those of the list, and what lies behind them is zero. -/
structure Mapped (zero : T) (list : BlockList T) (values : UInt64 → T) : Prop where
  row : InRow list list.blockSize.toNat
  tail : list.tail = lastOf list.blockSize.toNat
  maxSize : list.maxSize.toNat = 128 * list.blockSize.toNat
  inside (pos : UInt64) : pos.toNat < list.maxSize.toNat →
    (list.blocks (pos.toNat / 128)).items (pos.toNat % 128) = values pos
  outside (pos : UInt64) : list.maxSize.toNat ≤ pos.toNat → values pos = zero

theorem itemsCount : itemsCountPerBlock.toNat = 128 := rfl

theorem chain_of_row (row : InRow list k) : Chain (fun block => (list.blocks block).next) list.blockMap (List.range k) := by
  cases k with
  | zero => exact row.first
  | succ k =>
    rw [row.first, if_neg (Nat.succ_ne_zero k)]
    apply Chain.range (Nat.succ_pos k)
    · intro block inside
      exact (row.links block (by omega)).trans (if_pos (by omega))
    · exact (row.links k (by omega)).trans (if_neg (by omega))

namespace Mapped

theorem chainOfBlocks (mapped : Mapped zero list values) : ChainOfBlocks list := by
  refine ⟨⟨_, chain_of_row mapped.row, List.length_range, ?_⟩, mapped.maxSize⟩
  rw [mapped.tail]
  cases list.blockSize.toNat with
  | zero => rfl
  | succ k => rw [List.range_succ, List.getLast?_concat, lastOf]

/-- So many blocks more, as long as they can be counted. -/
theorem allocate (mapped : Mapped zero list values) (more : UInt64)
    (countable : list.blockSize.toNat + more.toNat < 2 ^ 57) : Mapped zero (list.allocate zero more) values := by
  have extended := mapped.row.allocateLoop zero more.toNat
  rw [← mapped.tail] at extended
  have counted := mapped.maxSize
  have product : (more * itemsCountPerBlock).toNat = more.toNat * 128 := by
    rw [UInt64.toNat_mul, itemsCount]
    exact Nat.mod_eq_of_lt (by omega)
  have blockSize : (list.allocate zero more).blockSize.toNat = list.blockSize.toNat + more.toNat := by
    rw [(allocate_sizes zero list more).1, UInt64.toNat_add, Nat.mod_eq_of_lt (by omega)]
  have maxSize : (list.allocate zero more).maxSize.toNat = list.maxSize.toNat + more.toNat * 128 := by
    rw [(allocate_sizes zero list more).2, UInt64.toNat_add, product, Nat.mod_eq_of_lt (by omega)]
  have tail : (list.allocate zero more).tail = lastOf (list.blockSize.toNat + more.toNat) := by
    refine extended.tail.trans ?_
    split
    next none => rw [mapped.tail, none, Nat.add_zero]
    next => rfl
  refine ⟨?_, ?_, by omega, fun pos inside => ?_, fun pos outside => mapped.outside pos (by omega)⟩
  · rw [blockSize]
    exact ⟨extended.row.made, extended.row.first, extended.row.links⟩
  · rw [blockSize]
    exact tail
  · have items := extended.items (pos.toNat / 128) (by omega)
    rw [BlockList.allocate, items]
    by_cases old : pos.toNat < list.maxSize.toNat
    · rw [if_neg (by omega)]
      exact mapped.inside pos old
    · rw [if_pos (by omega), mapped.outside pos (Nat.le_of_not_lt old)]

theorem locate (mapped : Mapped zero list values) {pos : UInt64} (inside : pos.toNat < list.maxSize.toNat) :
    list.locate pos = some (pos.toNat / 128, pos.toNat % 128) := by
  have counted := mapped.maxSize
  have first := mapped.row.first
  rw [if_neg (by omega)] at first
  have walked := mapped.row.follow (pos.toNat / 128) 0 (by omega)
  rw [Nat.zero_add] at walked
  rw [BlockList.locate, first, UInt64.toNat_div, UInt64.toNat_mod, itemsCount, walked]
  exact if_neg (by omega)

theorem locate_behind (mapped : Mapped zero list values) {pos : UInt64} (behind : list.maxSize.toNat ≤ pos.toNat) :
    list.locate pos = none := by
  have counted := mapped.maxSize
  have first := mapped.row.first
  rw [BlockList.locate, UInt64.toNat_div, itemsCount]
  by_cases nothing : list.blockSize.toNat = 0
  · rw [if_pos nothing] at first
    rw [first]
    cases pos.toNat / 128 <;> rfl
  · rw [if_neg nothing] at first
    rw [first]
    obtain last | past := mapped.row.follow_behind (pos.toNat / 128) 0 (by omega) (by omega)
    · rw [last]
      rfl
    · rw [past]
      rfl

theorem setItem (mapped : Mapped zero list values) {pos : UInt64} (inside : pos.toNat < list.maxSize.toNat) (value : T) :
    Mapped zero (list.setItem (pos.toNat / 128, pos.toNat % 128) value) (Function.update values pos value) := by
  have next (block : Nat) : ((list.setItem (pos.toNat / 128, pos.toNat % 128) value).blocks block).next = (list.blocks block).next := by
    simp only [BlockList.setItem, Function.update_apply]
    split
    next here => rw [here]
    next => rfl
  refine ⟨⟨mapped.row.made, mapped.row.first, fun block among => ?_⟩, mapped.tail, mapped.maxSize, fun other within => ?_,
    fun other outside => ?_⟩
  · rw [next]
    exact mapped.row.links block among
  · have old := mapped.inside other within
    simp only [BlockList.setItem, Function.update_apply]
    by_cases here : other = pos
    · subst here
      rw [if_pos rfl, if_pos rfl]
      exact Function.update_self ..
    · have apart : ¬ (other.toNat / 128 = pos.toNat / 128 ∧ other.toNat % 128 = pos.toNat % 128) := by
        rintro ⟨block, idx⟩
        exact here (UInt64.toNat_inj.1 (by omega))
      rw [if_neg here, ← old]
      split
      next block =>
        rw [block]
        exact Function.update_of_ne (fun idx => apart ⟨block, idx⟩) ..
      next => rfl
  · have away : other ≠ pos := by
      rintro rfl
      exact absurd (show other.toNat < other.toNat from Nat.lt_of_lt_of_le inside outside) (Nat.lt_irrefl _)
    rw [Function.update_of_ne away]
    exact mapped.outside other outside

/-- How many blocks are added for a size that does not fit. -/
theorem resize_more (mapped : Mapped zero list values) {size : UInt64} (larger : list.maxSize.toNat < size.toNat) :
    (size / itemsCountPerBlock + 1 - list.blockSize).toNat = size.toNat / 128 + 1 - list.blockSize.toNat ∧
      list.resize zero size = list.allocate zero (size / itemsCountPerBlock + 1 - list.blockSize) := by
  have counted := mapped.maxSize
  have word := size.toNat_lt
  constructor
  · rw [UInt64.toNat_sub, UInt64.toNat_add, UInt64.toNat_div, itemsCount, UInt64.toNat_one]
    omega
  · rw [resize, if_neg]
    rw [UInt64.le_iff_toNat_le]
    omega

/-- The sizes stay what they are, or the position lies in the last block that is added. -/
theorem resize (mapped : Mapped zero list values) (size : UInt64)
    (countable : size.toNat ≤ list.maxSize.toNat ∨ size.toNat < 2 ^ 64 - 128) :
    Mapped zero (list.resize zero size) values ∧
      (size.toNat ≤ list.maxSize.toNat ∧ list.resize zero size = list ∨ size.toNat < (list.resize zero size).maxSize.toNat) := by
  by_cases fits : size.toNat ≤ list.maxSize.toNat
  · have same : list.resize zero size = list := if_pos (UInt64.le_iff_toNat_le.2 fits)
    rw [same]
    exact ⟨mapped, .inl ⟨fits, rfl⟩⟩
  · have counted := mapped.maxSize
    obtain ⟨more, allocated⟩ := mapped.resize_more (Nat.lt_of_not_le fits)
    have after := mapped.allocate (size / itemsCountPerBlock + 1 - list.blockSize) (by omega)
    have blocks : (list.allocate zero (size / itemsCountPerBlock + 1 - list.blockSize)).blockSize.toNat = size.toNat / 128 + 1 := by
      rw [(allocate_sizes ..).1, UInt64.toNat_add, more]
      omega
    have counted' := after.maxSize
    rw [allocated]
    exact ⟨after, .inr (by omega)⟩

/-- The last block is one too many to count its positions. -/
theorem resize_wraps (mapped : Mapped zero list values) {size : UInt64} (larger : list.maxSize.toNat < size.toNat)
    (uncountable : 2 ^ 64 - 128 ≤ size.toNat) : ¬ ChainOfBlocks (list.resize zero size) := by
  intro blocks
  have wrong := blocks.maxSize
  have counted := mapped.maxSize
  have word := size.toNat_lt
  obtain ⟨more, allocated⟩ := mapped.resize_more larger
  rw [allocated, (allocate_sizes ..).1, (allocate_sizes ..).2, UInt64.toNat_add, UInt64.toNat_add, UInt64.toNat_mul, more,
    itemsCount] at wrong
  omega

theorem reach (mapped : Mapped zero list values) {pos : UInt64}
    (within : pos.toNat < list.maxSize.toNat ∨ list.maxSize.toNat < pos.toNat ∧ pos.toNat < 2 ^ 64 - 128) :
    Mapped zero (list.resize zero pos) values ∧ pos.toNat < (list.resize zero pos).maxSize.toNat := by
  obtain ⟨after, ⟨fits, same⟩ | inside⟩ := mapped.resize pos (by omega)
  · rw [same] at after ⊢
    exact ⟨after, by omega⟩
  · exact ⟨after, inside⟩

theorem reach_insert (mapped : Mapped zero list values) {pos : UInt64}
    (within : pos.toNat < list.maxSize.toNat ∨ pos.toNat + 1 < 2 ^ 64 - 128) :
    Mapped zero (list.resize zero (pos + 1)) values ∧ pos.toNat < (list.resize zero (pos + 1)).maxSize.toNat := by
  have counted := mapped.maxSize
  have word := list.maxSize.toNat_lt
  have next : (pos + 1).toNat = pos.toNat + 1 := by
    rw [UInt64.toNat_add, UInt64.toNat_one]
    omega
  obtain ⟨after, ⟨fits, same⟩ | inside⟩ := mapped.resize (pos + 1) (by omega)
  · rw [same] at after ⊢
    exact ⟨after, by omega⟩
  · exact ⟨after, by omega⟩

theorem perform (mapped : Mapped zero list values) (within : WithinReach list action) :
    ∃ next, list.perform zero action = some ((accessMap values action).1, next) ∧
      Mapped zero next (accessMap values action).2 := by
  cases action with
  | insert pos value =>
    obtain ⟨after, inside⟩ := mapped.reach_insert within
    refine ⟨_, ?_, after.setItem inside value⟩
    rw [BlockList.perform, after.locate inside]
    rfl
  | read pos =>
    obtain ⟨after, inside⟩ := mapped.reach within
    refine ⟨_, ?_, after⟩
    rw [accessMap, ← after.inside pos inside, BlockList.perform, after.locate inside]
    rfl
  | write pos value =>
    obtain ⟨after, inside⟩ := mapped.reach within
    refine ⟨_, ?_, after.setItem inside value⟩
    rw [BlockList.perform, after.locate inside]
    rfl

/-- Behind the last block nothing is found, or the blocks cannot be counted. -/
theorem beyond (mapped : Mapped zero list values) {size : UInt64} (larger : list.maxSize.toNat ≤ size.toNat)
    (other : ¬ (list.maxSize.toNat < size.toNat ∧ size.toNat < 2 ^ 64 - 128)) :
    list.resize zero size = list ∧ list.maxSize = size ∨ ¬ ChainOfBlocks (list.resize zero size) := by
  by_cases last : list.maxSize.toNat = size.toNat
  · exact .inl ⟨if_pos (UInt64.le_iff_toNat_le.2 (by omega)), UInt64.toNat_inj.1 last⟩
  · exact .inr (mapped.resize_wraps (by omega) (by omega))

end Mapped

/-- The size that an access asks for, and its position. -/
def sizeAsked : BlockAction T → UInt64
  | .insert pos _ => pos + 1
  | .read pos => pos
  | .write pos _ => pos

def posAsked : BlockAction T → UInt64
  | .insert pos _ => pos
  | .read pos => pos
  | .write pos _ => pos

theorem chainOfBlocks_setItem {place : Nat × Nat} {value : T} (blocks : ChainOfBlocks (list.setItem place value)) :
    ChainOfBlocks list := by
  obtain ⟨⟨nodes, chain, length, last⟩, maxSize⟩ := blocks
  refine ⟨⟨nodes, chain.frame fun block _ => ?_, length, last⟩, maxSize⟩
  simp only [setItem, Function.update_apply]
  split
  next here => rw [here]
  next => rfl

theorem perform_cases {answer : Option T} {next : BlockList T} (performed : list.perform zero action = some (answer, next)) :
    ((list.resize zero (sizeAsked action)).locate (posAsked action)).isSome ∧
      (ChainOfBlocks next → ChainOfBlocks (list.resize zero (sizeAsked action))) := by
  cases action with
  | insert pos value | write pos value =>
    obtain ⟨place, found, same⟩ := Option.bind_eq_some_iff.1 performed
    cases same
    exact ⟨Option.isSome_of_eq_some found, chainOfBlocks_setItem⟩
  | read pos =>
    obtain ⟨place, found, same⟩ := Option.bind_eq_some_iff.1 performed
    cases same
    exact ⟨Option.isSome_of_eq_some found, id⟩

theorem Mapped.needs (mapped : Mapped zero list values)
    (answers : SameAnswer (BlockList.perform zero) accessMap (list, values) action)
    (after : ∀ answer next, list.perform zero action = some (answer, next) → ChainOfBlocks next) : WithinReach list action := by
  obtain ⟨⟨answer, next⟩, performed, -⟩ := Option.map_eq_some_iff.1 answers
  obtain ⟨found, kept⟩ := perform_cases performed
  have blocks := kept (after answer next performed)
  have counted := mapped.maxSize
  have found' (same : list.resize zero (sizeAsked action) = list) : (posAsked action).toNat < list.maxSize.toNat := by
    apply Nat.lt_of_not_le
    intro behind
    rw [same, mapped.locate_behind behind] at found
    cases found
  have within (behind : list.maxSize.toNat ≤ (posAsked action).toNat) (larger : list.maxSize.toNat ≤ (sizeAsked action).toNat) :
      list.maxSize.toNat < (sizeAsked action).toNat ∧ (sizeAsked action).toNat < 2 ^ 64 - 128 := by
    by_contra other
    obtain ⟨same, -⟩ | wraps := mapped.beyond larger other
    · exact absurd (found' same) (Nat.not_lt_of_le behind)
    · exact wraps blocks
  cases action with
  | read pos | write pos value =>
    by_cases inside : pos.toNat < list.maxSize.toNat
    · exact .inl inside
    · exact .inr (within (Nat.le_of_not_lt inside) (Nat.le_of_not_lt inside))
  | insert pos value =>
    by_cases inside : pos.toNat < list.maxSize.toNat
    · exact .inl inside
    · have word := pos.toNat_lt
      have next : (pos + 1).toNat = (pos.toNat + 1) % 2 ^ 64 := by rw [UInt64.toNat_add, UInt64.toNat_one]
      by_cases last : pos.toNat + 1 = 2 ^ 64
      · have same : list.resize zero (pos + 1) = list := if_pos (UInt64.le_iff_toNat_le.2 (by omega))
        exact absurd (found' same) inside
      · have bound := within (Nat.le_of_not_lt inside) (show list.maxSize.toNat ≤ (pos + 1).toNat by omega)
        simp only [sizeAsked] at bound
        exact .inr (by omega)

/-! ## The first blocks -/

theorem toDouble_le {size : Nat} (small : size < 2 ^ 63) : toDouble size ≤ size + 1024 := by
  have log : size.log2 < 63 := by
    by_cases zero : size = 0
    · rw [zero]
      decide
    · exact (Nat.log2_lt zero).2 small
  have narrow : 2 ^ (size.log2 + 1 - 53) ≤ 2 ^ 10 := Nat.pow_le_pow_right (by decide) (by omega)
  have whole := Nat.div_add_mod size (2 ^ (size.log2 + 1 - 53))
  have positive : 0 < 2 ^ (size.log2 + 1 - 53) := Nat.two_pow_pos _
  have less := Nat.mod_lt size positive
  have up : toDouble size ≤ (size / 2 ^ (size.log2 + 1 - 53) + 1) * 2 ^ (size.log2 + 1 - 53) := by
    apply Nat.mul_le_mul_right
    split
    · omega
    · split <;> omega
  rw [Nat.add_mul, Nat.mul_comm, Nat.one_mul] at up
  omega

/-- In the highest half of the sizes the unit is 2048. -/
theorem toDouble_high {size : Nat} (large : 2 ^ 63 ≤ size) (word : size < 2 ^ 64) :
    toDouble size ≤ 2 ^ 64 - 2048 ∧ size < 2 ^ 64 - 1024 ∨ toDouble size = 2 ^ 64 ∧ 2 ^ 64 - 1024 ≤ size := by
  have log : size.log2 = 63 := (Nat.log2_eq_iff (by omega)).2 ⟨large, word⟩
  simp only [toDouble, log]
  split
  · omega
  · split <;> omega

theorem initialBlocks_lt (size : UInt64) : (initialBlocks size).toNat < 2 ^ 57 ↔ size.toNat < 2 ^ 64 - 1024 := by
  have word := size.toNat_lt
  rw [initialBlocks]
  split
  next zero =>
    rw [zero]
    decide
  next =>
    rw [itemsCount, UInt64.toNat_ofNat']
    by_cases small : size.toNat < 2 ^ 63
    · have bound := toDouble_le small
      omega
    · obtain ⟨fine, below⟩ | ⟨top, above⟩ := toDouble_high (Nat.le_of_not_lt small) word <;> omega

theorem new_mapped {size : UInt64} (small : size.toNat < 2 ^ 64 - 1024) : Mapped zero (.new zero size) fun _ => zero := by
  have few := (initialBlocks_lt size).2 small
  have start : Mapped zero ({ blocks := fun _ => ⟨fun _ => zero, none⟩ } : BlockList T) fun _ => zero := by
    refine ⟨⟨rfl, rfl, fun block inside => absurd inside (Nat.not_lt_zero block)⟩, rfl, rfl, fun _ _ => rfl, fun _ _ => rfl⟩
  apply start.allocate
  rw [UInt64.toNat_zero]
  omega

theorem new_chain {size : UInt64} (blocks : ChainOfBlocks (.new zero size)) : size.toNat < 2 ^ 64 - 1024 := by
  have counted := blocks.maxSize
  apply (initialBlocks_lt size).1
  rw [BlockList.new, (allocate_sizes ..).1, (allocate_sizes ..).2, UInt64.zero_add, UInt64.zero_add, UInt64.toNat_mul,
    itemsCount] at counted
  omega

theorem block_list_refines_iff (zero : T) (size : UInt64) (actions : List (BlockAction T)) :
    Refines (BlockList.perform zero) accessMap (fun list _ => ChainOfBlocks list) (.new zero size, fun _ => zero) actions ↔
      size.toNat < 2 ^ 64 - 1024 ∧ EachBeside (BlockList.perform zero) accessMap (fun list _ action => WithinReach list action)
        (.new zero size, fun _ => zero) actions := by
  have iff (small : size.toNat < 2 ^ 64 - 1024) : Refines (BlockList.perform zero) accessMap (fun list _ => ChainOfBlocks list)
      (.new zero size, fun _ => zero) actions ↔ EachBeside (BlockList.perform zero) accessMap
        (fun list _ action => WithinReach list action) (.new zero size, fun _ => zero) actions := by
    apply refines_iff_eachStep Mapped.chainOfBlocks
    · exact fun mapped within => mapped.perform within
    · exact fun mapped answers after => mapped.needs answers after
    · exact new_mapped small
  constructor
  · intro refines
    have small := new_chain refines.2.start
    exact ⟨small, (iff small).1 refines⟩
  · rintro ⟨small, each⟩
    exact (iff small).2 each

/-- The position behind the default blocks. -/
theorem behind_last_block : (BlockList.new (0 : Nat) 0).maxSize = 2048 ∧
    ¬ Refines (BlockList.perform (0 : Nat)) accessMap (fun list _ => ChainOfBlocks list) (.new 0 0, fun _ => 0) [.read 2048] := by
  refine ⟨by decide, ?_⟩
  rintro ⟨answers, -⟩
  have found := answers.1
  revert found
  unfold SameAnswer
  decide

end Cassobee.Proofs
